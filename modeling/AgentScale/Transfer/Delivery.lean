import AgentScale.Transfer.Fetch

set_option autoImplicit false

/-! # What a transfer leaves at its destination

The destination is replaced by a rename of a verified file and by nothing else. What is verified has the
hash of what the other side staged, and is that unless the two collide. -/

namespace AgentScale.Transfer

open Transition

variable {Hash : Type} {hashOf : Bytes → Hash} {content : Bytes}
  {staged delivered got before dest : Option Bytes}

def Whole (staged before dest : Option Bytes) : Prop :=
  dest = before ∨ ∃ content, staged = some content ∧ dest = some content

theorem Whole.eq_of_none (h : Whole none before dest) : dest = before := by
  rcases h with hdest | ⟨content, hnone, -⟩
  · exact hdest
  · cases hnone

/-- A number of bytes is reported only for what has been staged and is at the destination. -/
def Reports (staged dest : Option Bytes) (result : Except String Nat) : Prop :=
  ∀ n, result = .ok n → ∃ content, staged = some content ∧ dest = some content ∧ n = content.length

/-- What is reported before anything is staged is an error. -/
theorem Reports.of_none {result : Except String Nat} (h : Reports none dest result) :
    Reports staged dest result := by
  intro n hn
  obtain ⟨content, hnone, -⟩ := h n hn
  cases hnone

theorem Reports.of_error (error : String) : Reports staged dest (.error error) := by
  intro n h
  cases h

/-- What is at the destination does not collide with what was staged. -/
def NoCollision (hashOf : Bytes → Hash) (staged dest : Option Bytes) : Prop :=
  ∀ content got, staged = some content → dest = some got → hashOf got = hashOf content → got = content

theorem NoCollision.staged_eq (h : NoCollision hashOf staged dest)
    (hsame : delivered.map hashOf = staged.map hashOf) (hdelivered : delivered = some content)
    (hdest : dest = some content) : staged = some content := by
  rw [hdelivered] at hsame
  obtain ⟨original, hstaged, hhash⟩ := Option.map_eq_some_iff.1 hsame.symm
  rw [hstaged, h original content hstaged hdest hhash.symm]

theorem Whole.of_delivered (h : Whole delivered before dest)
    (hsame : delivered.map hashOf = staged.map hashOf) (hunique : NoCollision hashOf staged dest) :
    Whole staged before dest := by
  rcases h with hdest | ⟨content, hdelivered, hdest⟩
  · exact .inl hdest
  · exact .inr ⟨content, hunique.staged_eq hsame hdelivered hdest, hdest⟩

theorem Reports.of_delivered {result : Except String Nat} (h : Reports delivered dest result)
    (hsame : delivered.map hashOf = staged.map hashOf) (hunique : NoCollision hashOf staged dest) :
    Reports staged dest result := by
  intro n hn
  obtain ⟨content, hdelivered, hdest, hlength⟩ := h n hn
  exact ⟨content, hunique.staged_eq hsame hdelivered hdest, hdest, hlength⟩

/-! ## `fetch_to_file` -/

/-- What holds while the blob of `content` is fetched. -/
def Fetch.Sound (content : Bytes) (before dest : Option Bytes) : Fetch → Prop
  | .connecting => dest = before
  | .receiving temp total => total = temp.length ∧ dest = before
  | .completed temp total | .synced temp total => temp = content ∧ total = temp.length ∧ dest = before
  | .installed total => total = content.length ∧ dest = some content
  | .returned result => (dest = before ∨ dest = some content) ∧
      ∀ n, result = .ok n → dest = some content ∧ n = content.length

variable {fetch : Fetch}

/-- An error is reported with the destination old or new. -/
theorem Fetch.Sound.fails (h : fetch.Sound content before dest) (error : String) :
    (Fetch.returned (.error error)).Sound content before dest := by
  refine ⟨?_, fun n hn => by cases hn⟩
  cases fetch with
  | connecting => exact .inl h
  | receiving _ _ => exact .inl h.2
  | completed _ _ | synced _ _ => exact .inl h.2.2
  | installed _ => exact .inr h.2
  | returned _ => exact h.1

theorem Fetch.Sound.whole (h : fetch.Sound content before dest) : Whole (some content) before dest := by
  rcases (h.fails "").1 with hdest | hdest
  · exact .inl hdest
  · exact .inr ⟨content, rfl, hdest⟩

/-- The end of the stream has compared the hashes, so what is there may be another content of the hash. -/
theorem Fetch.Sound.step [DecidableEq Hash] {fetch next : Fetch} {event : FetchEvent}
    {file : Option Bytes} (h : fetch.Sound content before dest)
    (hstep : fetch.step hashOf (hashOf content) event = some (next, file)) :
    ∃ got, hashOf got = hashOf content ∧ next.Sound got before (file <|> dest) := by
  unfold Fetch.step at hstep
  split at hstep
  · cases hstep
    exact ⟨content, rfl, rfl, h⟩
  · cases hstep
    refine ⟨content, rfl, ?_, h.2⟩
    rw [List.length_append, h.1]
  · cases hstep
    exact ⟨content, rfl, h⟩
  · split at hstep
    · next temp _ hverified =>
      cases hstep
      exact ⟨temp, hverified, rfl, h⟩
    · cases hstep
  · cases hstep
    exact ⟨content, rfl, Fetch.Sound.fails h _⟩
  · cases hstep
    exact ⟨content, rfl, h⟩
  · cases hstep
    obtain ⟨rfl, htotal, -⟩ := h
    exact ⟨_, rfl, htotal, rfl⟩
  · cases hstep
    refine ⟨content, rfl, .inr h.2, fun n hn => ?_⟩
    cases hn
    exact ⟨h.2, h.1⟩
  · cases hstep
  · cases hstep
    exact ⟨content, rfl, Fetch.Sound.fails h _⟩
  · cases hstep

/-! ## Downloads -/

/-- What holds at each point of `do_download`. -/
def DoDownload.Sound (hashOf : Bytes → Hash) (staged before dest : Option Bytes) :
    DoDownload Hash → Prop
  | .dialing | .awaiting => dest = before
  | .fetching hash fetch =>
    ∃ content, staged = some content ∧ hash = hashOf content ∧ fetch.Sound content before dest
  | .returned result => Whole staged before dest ∧ Reports staged dest result
  | .died => Whole staged before dest

theorem DoDownload.Sound.whole {daemon : DoDownload Hash} (h : daemon.Sound hashOf staged before dest) :
    Whole staged before dest := by
  cases daemon with
  | dialing | awaiting => exact .inl h
  | fetching hash fetch =>
    obtain ⟨content, rfl, -, hfetch⟩ := h
    exact hfetch.whole
  | returned result => exact h.1
  | died => exact h

/-- Before anything is staged, the destination is as it was, and staging changes nothing there. -/
theorem DoDownload.Sound.stage {daemon : DoDownload Hash} (h : daemon.Sound hashOf none before dest) :
    daemon.Sound hashOf (some content) before dest := by
  have hdest := h.whole.eq_of_none
  cases daemon with
  | dialing | awaiting => exact hdest
  | fetching hash fetch =>
    obtain ⟨content, hnone, -⟩ := h
    cases hnone
  | returned result =>
    exact ⟨.inl hdest, h.2.of_none⟩
  | died => exact .inl hdest

theorem DoDownload.Sound.afterFetch {hash : Hash} (hhash : hash = hashOf content)
    (h : fetch.Sound content before dest) :
    (DoDownload.afterFetch hash fetch).Sound hashOf (some content) before dest := by
  cases fetch with
  | returned result => exact ⟨h.whole, fun n hn => ⟨content, rfl, h.2 n hn⟩⟩
  | _ => exact ⟨content, rfl, hhash, h⟩

theorem downloadHash_eq_ok {answer : RpcResult (TransferResult Hash)} {hash : Hash}
    (h : downloadHash answer = .ok hash) : answer = .ok (.downloadReady hash) := by
  unfold downloadHash at h
  split at h <;> cases h
  rfl

/-- The invariant of a download, where `delivered` has the hash of what was staged. -/
structure Download.Sound (hashOf : Bytes → Hash) (delivered : Option Bytes) (s : Download Hash) :
    Prop where
  same : delivered.map hashOf = s.staged.map hashOf
  waiting : s.edge = .waiting → s.staged = none
  answer : ∀ hash, s.answer = some (.ok (.downloadReady hash)) →
    ∃ content, s.staged = some content ∧ hash = hashOf content
  daemon : s.daemon.Sound hashOf delivered s.before s.dest

/-- A step that leaves files, stage and answer alone. -/
theorem Download.Sound.frame {s t : Download Hash} (h : s.Sound hashOf delivered)
    (hedge : t.edge = .waiting → s.edge = .waiting) (hanswer : t.answer = s.answer)
    (hstaged : t.staged = s.staged) (hdaemon : t.daemon.Sound hashOf delivered t.before t.dest) :
    t.Sound hashOf delivered where
  same := hstaged ▸ h.same
  waiting := fun hwaiting => hstaged.trans (h.waiting (hedge hwaiting))
  answer := by
    rw [hanswer, hstaged]
    exact h.answer
  daemon := hdaemon

variable {path : String}

theorem Download.Sound.step [DecidableEq Hash] {s t : Download Hash} {event : DownloadEvent}
    (h : s.Sound hashOf delivered) (hstep : s.perform hashOf path event = some t) :
    ∃ delivered, t.Sound hashOf delivered := by
  cases event with
  | write content | lose | collect =>
    cases hstep
    exact ⟨_, h.frame id rfl rfl h.daemon⟩
  | edgeDies =>
    cases hstep
    exact ⟨_, h.frame (fun hwaiting => by cases hwaiting) rfl rfl h.daemon⟩
  | daemonDies =>
    cases hstep
    exact ⟨_, h.frame id rfl rfl h.daemon.whole⟩
  | request =>
    simp only [Download.perform] at hstep
    split at hstep
    · next hdialing =>
      cases hstep
      have hdaemon := h.daemon
      rw [hdialing] at hdaemon
      exact ⟨_, h.frame id rfl rfl hdaemon⟩
    · cases hstep
  | stage =>
    simp only [Download.perform] at hstep
    split at hstep
    · next content hwaiting _ _ =>
      cases hstep
      have hdaemon := h.daemon
      obtain rfl := Option.map_eq_none_iff.1 (h.same.trans (congrArg _ (h.waiting hwaiting)))
      refine ⟨some content, rfl, (fun hheld => by cases hheld), ?_, hdaemon.stage⟩
      intro hash hanswer
      cases hanswer
      exact ⟨content, rfl, rfl⟩
    · cases hstep
  | stageFails error =>
    simp only [Download.perform] at hstep
    split at hstep
    · cases hstep
      exact ⟨_, h.same, (fun hended => by cases hended), (fun hash hanswer => by cases hanswer),
        h.daemon⟩
    · cases hstep
  | readAnswer =>
    simp only [Download.perform] at hstep
    split at hstep
    · next answer hawaiting hanswer =>
      have hdaemon := h.daemon
      rw [hawaiting] at hdaemon
      split at hstep
      · next hash hhash =>
        cases hstep
        rw [downloadHash_eq_ok hhash] at hanswer
        obtain ⟨content, hstaged, rfl⟩ := h.answer hash hanswer
        obtain ⟨got, hdelivered, hgot⟩ := Option.map_eq_some_iff.1 (h.same.trans (congrArg _ hstaged))
        exact ⟨_, h.frame id rfl rfl ⟨got, hdelivered, hgot.symm, hdaemon⟩⟩
      · cases hstep
        exact ⟨_, h.frame id rfl rfl ⟨.inl hdaemon, .of_error _⟩⟩
    · cases hstep
  | fetch event =>
    simp only [Download.perform] at hstep
    split at hstep
    · next hash fetch hfetching =>
      have hdaemon := h.daemon
      rw [hfetching] at hdaemon
      obtain ⟨content, hstaged, rfl, hfetch⟩ := hdaemon
      obtain ⟨⟨next, file⟩, hnext, rfl⟩ := Option.map_eq_some_iff.1 hstep
      obtain ⟨got, hgot, hsound⟩ := hfetch.step hnext
      have hsame := h.same
      rw [hstaged, Option.map_some, ← hgot] at hsame
      exact ⟨some got, hsame, h.waiting, h.answer, .afterFetch hgot.symm hsound⟩
    · cases hstep
  | closed =>
    simp only [Download.perform] at hstep
    split at hstep
    · split at hstep
      · cases hstep
      · cases hstep
        exact ⟨_, h.frame (fun hwaiting => by cases hwaiting) rfl rfl h.daemon⟩
    · cases hstep
  | daemonFails error =>
    simp only [Download.perform] at hstep
    split at hstep
    · cases hstep
      exact ⟨_, h.frame id rfl rfl ⟨h.daemon.whole, .of_error _⟩⟩
    · cases hstep
      exact ⟨_, h.frame id rfl rfl ⟨h.daemon.whole, .of_error _⟩⟩
    · cases hstep

theorem Download.sound_of_reachable [DecidableEq Hash] {s : Download Hash}
    (h : (download hashOf path).Reachable s) : ∃ delivered, s.Sound hashOf delivered := by
  refine h.invariant (P := fun s => ∃ delivered, s.Sound hashOf delivered) ?_ ?_
  · rintro s ⟨source, before, rfl⟩
    exact ⟨none, rfl, fun _ => rfl, (fun hash hanswer => by cases hanswer), rfl⟩
  · rintro s t - ⟨delivered, hsound⟩ ⟨event, hstep⟩
    exact hsound.step hstep

/-! ## Uploads -/

/-- What holds at each point of the Edge's part of an upload. -/
def ReceiveUpload.Sound (hashOf : Bytes → Hash) (staged before dest : Option Bytes) :
    ReceiveUpload Hash → Prop
  | .waiting => dest = before
  | .fetching hash fetch =>
    ∃ content, staged = some content ∧ hash = hashOf content ∧ fetch.Sound content before dest
  | .answered | .ended => Whole staged before dest

theorem ReceiveUpload.Sound.whole {edge : ReceiveUpload Hash}
    (h : edge.Sound hashOf staged before dest) : Whole staged before dest := by
  cases edge with
  | waiting => exact .inl h
  | fetching hash fetch =>
    obtain ⟨content, rfl, -, hfetch⟩ := h
    exact hfetch.whole
  | answered | ended => exact h

theorem ReceiveUpload.Sound.stage {edge : ReceiveUpload Hash} (h : edge.Sound hashOf none before dest) :
    edge.Sound hashOf (some content) before dest := by
  have hdest := h.whole.eq_of_none
  cases edge with
  | waiting => exact hdest
  | fetching hash fetch =>
    obtain ⟨content, hnone, -⟩ := h
    cases hnone
  | answered | ended => exact .inl hdest

theorem uploadBytes_intoResp {result : Except String Nat} (h : Reports staged dest result) :
    Reports staged dest (uploadBytes (intoResp result : RpcResult (TransferResult Hash))) := by
  cases result with
  | ok bytes => exact h
  | error error => exact .of_error _

/-- The invariant of an upload, where `delivered` has the hash of what was staged. The destination does
    not change once the Edge has answered. -/
structure Upload.Sound (hashOf : Bytes → Hash) (delivered : Option Bytes) (s : Upload Hash) :
    Prop where
  same : delivered.map hashOf = s.staged.map hashOf
  staging : s.daemon = .staging → s.staged = none
  tag : ∀ content, s.daemon.tag = some content → s.staged = some content
  request : ∀ request, s.request = some request →
    ∃ content, s.staged = some content ∧ request.hash = hashOf content
  edge : s.edge.Sound hashOf delivered s.before s.dest
  answer : ∀ answer, s.answer = some answer →
    (s.edge = .answered ∨ s.edge = .ended) ∧ Reports delivered s.dest (uploadBytes answer)
  result : ∀ n, s.daemon = .returned (.ok n) →
    (s.edge = .answered ∨ s.edge = .ended) ∧ Reports delivered s.dest (.ok n)

variable {s : Upload Hash}

/-- A step of the daemon that reports nothing. -/
theorem Upload.Sound.daemon (h : s.Sound hashOf delivered) (daemon : DoUpload)
    (hstaging : daemon ≠ .staging)
    (htag : ∀ content, daemon.tag = some content → s.staged = some content)
    (hresult : ∀ n, daemon ≠ .returned (.ok n)) :
    Upload.Sound hashOf delivered { s with daemon := daemon } where
  __ := h
  staging := fun hnow => absurd hnow hstaging
  tag := htag
  result := fun n hnow => absurd hnow (hresult n)

/-- The Edge goes on, before it has answered. -/
theorem Upload.Sound.advance (h : s.Sound hashOf delivered) {edge : ReceiveUpload Hash}
    (hbefore : ¬ (s.edge = .answered ∨ s.edge = .ended)) (hgot : got.map hashOf = delivered.map hashOf)
    (hedge : edge.Sound hashOf got s.before dest) :
    Upload.Sound hashOf got { s with edge := edge, dest := dest } where
  __ := h
  same := hgot.trans h.same
  edge := hedge
  answer := fun answer hanswer => absurd (h.answer answer hanswer).1 hbefore
  result := fun n hn => absurd (h.result n hn).1 hbefore

/-- The Edge answers. -/
theorem Upload.Sound.reply (h : s.Sound hashOf delivered) {result : Except String Nat}
    (hbefore : ¬ (s.edge = .answered ∨ s.edge = .ended)) (hgot : got.map hashOf = delivered.map hashOf)
    (hwhole : Whole got s.before dest) (hresult : Reports got dest result) :
    Upload.Sound hashOf got
      { s with edge := .answered, dest := dest, answer := some (intoResp result) } where
  __ := h
  same := hgot.trans h.same
  edge := hwhole
  answer := by
    intro answer hanswer
    cases hanswer
    exact ⟨.inl rfl, uploadBytes_intoResp hresult⟩
  result := fun n hn => absurd (h.result n hn).1 hbefore

theorem Upload.Sound.afterFetch (h : s.Sound hashOf delivered) {hash : Hash}
    (hbefore : ¬ (s.edge = .answered ∨ s.edge = .ended))
    (hgot : (some content).map hashOf = delivered.map hashOf) (hhash : hash = hashOf content)
    (hfetch : fetch.Sound content s.before dest) :
    (Upload.afterFetch hash { s with dest := dest } fetch).Sound hashOf (some content) := by
  cases fetch with
  | returned result =>
    exact h.reply hbefore hgot hfetch.whole (fun n hn => ⟨content, rfl, hfetch.2 n hn⟩)
  | _ => exact h.advance hbefore hgot ⟨content, rfl, hhash, hfetch⟩

variable {clientId authenticated : String}

theorem Upload.Sound.step [DecidableEq Hash] {s t : Upload Hash} {event : UploadEvent}
    (h : s.Sound hashOf delivered) (hstep : s.perform hashOf clientId authenticated event = some t) :
    ∃ delivered, t.Sound hashOf delivered := by
  cases event with
  | write content | lose | collect =>
    cases hstep
    exact ⟨_, { h with }⟩
  | edgeDies =>
    cases hstep
    exact ⟨_, h.same, h.staging, h.tag, h.request, h.edge.whole,
      fun answer hanswer => ⟨.inr rfl, (h.answer answer hanswer).2⟩,
      fun n hn => ⟨.inr rfl, (h.result n hn).2⟩⟩
  | daemonDies =>
    cases hstep
    have hdied := h.daemon .died (by simp) (by simp [DoUpload.tag]) (by simp)
    exact ⟨_, { hdied with }⟩
  | stage =>
    simp only [Upload.perform] at hstep
    split at hstep
    · next content hstaging _ =>
      cases hstep
      have hnone := h.staging hstaging
      obtain rfl := Option.map_eq_none_iff.1 (h.same.trans (congrArg _ hnone))
      refine ⟨some content, rfl, by simp, ?_, ?_, h.edge.stage, ?_, by simp⟩
      · intro other htag
        exact htag
      · intro request hrequest
        obtain ⟨content, hsome, -⟩ := h.request request hrequest
        rw [hnone] at hsome
        cases hsome
      · intro answer hanswer
        exact ⟨(h.answer answer hanswer).1, (h.answer answer hanswer).2.of_none⟩
    · cases hstep
  | request =>
    simp only [Upload.perform] at hstep
    split at hstep
    · next content hstaged =>
      cases hstep
      have hcontent := h.tag content (by rw [hstaged]; rfl)
      have hasked := h.daemon (.awaiting content) (by simp)
        (fun other htag => by cases htag; exact hcontent) (by simp)
      refine ⟨_, { hasked with request := ?_ }⟩
      intro request hrequest
      cases hrequest
      exact ⟨content, hcontent, rfl⟩
    · cases hstep
  | receive =>
    simp only [Upload.perform] at hstep
    split at hstep
    · next request hwaiting hrequest =>
      obtain ⟨content, hstaged, hhash⟩ := h.request request hrequest
      obtain ⟨got, hdelivered, hgot⟩ := Option.map_eq_some_iff.1 (h.same.trans (congrArg _ hstaged))
      have hbefore : ¬ (s.edge = .answered ∨ s.edge = .ended) := by simp [hwaiting]
      have hedge := h.edge
      rw [hwaiting] at hedge
      split at hstep
      · cases hstep
        exact ⟨_, h.advance hbefore rfl ⟨got, hdelivered, hhash.trans hgot.symm, hedge⟩⟩
      · cases hstep
        exact ⟨_, h.advance hbefore rfl (.inl hedge)⟩
    · cases hstep
  | receiveFails error =>
    simp only [Upload.perform] at hstep
    split at hstep
    · next hwaiting _ =>
      cases hstep
      exact ⟨_, h.reply (by simp [hwaiting]) rfl h.edge.whole (.of_error error)⟩
    · cases hstep
  | fetch event =>
    simp only [Upload.perform] at hstep
    split at hstep
    · next hash fetch hfetching =>
      have hedge := h.edge
      rw [hfetching] at hedge
      obtain ⟨content, hstaged, rfl, hfetch⟩ := hedge
      obtain ⟨⟨next, file⟩, hnext, rfl⟩ := Option.map_eq_some_iff.1 hstep
      obtain ⟨got, hgot, hsound⟩ := hfetch.step hnext
      refine ⟨_, h.afterFetch (by simp [hfetching]) ?_ hgot.symm hsound⟩
      rw [hstaged, Option.map_some, hgot, Option.map_some]
    · cases hstep
  | readAnswer =>
    simp only [Upload.perform] at hstep
    split at hstep
    · next content answer hawaiting hanswer =>
      cases hstep
      obtain ⟨hdone, hreports⟩ := h.answer answer hanswer
      refine ⟨_, h.same, by simp, by simp [DoUpload.tag], h.request, h.edge, h.answer, ?_⟩
      intro n hn
      simp only [DoUpload.returned.injEq] at hn
      rw [hn] at hreports
      exact ⟨hdone, hreports⟩
    · cases hstep
  | daemonFails error =>
    have hfailed := h.daemon (.returned (.error error)) (by simp) (by simp [DoUpload.tag])
      (by simp)
    simp only [Upload.perform] at hstep
    split at hstep
    · cases hstep
      exact ⟨_, hfailed⟩
    · cases hstep
      exact ⟨_, hfailed⟩
    · split at hstep
      · cases hstep
      · cases hstep
        exact ⟨_, hfailed⟩
    · cases hstep

theorem Upload.sound_of_reachable [DecidableEq Hash]
    (h : (upload hashOf clientId authenticated).Reachable s) :
    ∃ delivered, s.Sound hashOf delivered := by
  refine h.invariant (P := fun s => ∃ delivered, s.Sound hashOf delivered) ?_ ?_
  · rintro s ⟨source, before, rfl⟩
    exact ⟨none, rfl, fun _ => rfl, by simp [Upload.start, DoUpload.tag], by simp [Upload.start], rfl,
      by simp [Upload.start], by simp [Upload.start]⟩
  · rintro s t - ⟨delivered, hsound⟩ ⟨event, hstep⟩
    exact hsound.step hstep

/-! ## What is reported -/

/-- What `do_download` has returned. -/
def DoDownload.result : DoDownload Hash → Option (Except String Nat)
  | .returned result => some result
  | _ => none

/-- What `do_upload` has returned. -/
def DoUpload.result : DoUpload → Option (Except String Nat)
  | .returned result => some result
  | _ => none

/-- The command line prints what the daemon returned. -/
theorem Reports.transfer {result : Except String Nat} (h : Reports staged dest result) :
    Reports staged dest (Transfer.transfer (intoResp result : RpcResult (TransferResult Hash))) := by
  cases result with
  | ok bytes => exact h
  | error error => exact .of_error _

/-- **A transfer is all or nothing.** Whatever fails, is lost or dies and however the file at the source
    changes, the destination of a download or an upload is as it was before or is all that the other
    side staged, and when the command line prints a number of bytes, it is that, of that length; unless
    what is there and what was staged are two contents of one hash. -/
theorem transfers_are_whole [DecidableEq Hash] (path clientId authenticated : String) :
    (∀ s, (download hashOf path).Reachable s → NoCollision hashOf s.staged s.dest →
      Whole s.staged s.before s.dest ∧ ∀ result, s.daemon.result = some result →
        Reports s.staged s.dest (transfer (intoResp result : RpcResult (TransferResult Hash)))) ∧
    (∀ s, (upload hashOf clientId authenticated).Reachable s → NoCollision hashOf s.staged s.dest →
      Whole s.staged s.before s.dest ∧ ∀ result, s.daemon.result = some result →
        Reports s.staged s.dest (transfer (intoResp result : RpcResult (TransferResult Hash)))) := by
  constructor
  · intro s h hunique
    obtain ⟨delivered, hsound⟩ := Download.sound_of_reachable h
    have hdaemon := hsound.daemon
    refine ⟨hdaemon.whole.of_delivered hsound.same hunique, fun result hresult => ?_⟩
    cases hs : s.daemon with
    | returned result' =>
      rw [hs] at hresult hdaemon
      cases hresult
      exact (hdaemon.2.of_delivered hsound.same hunique).transfer
    | _ =>
      rw [hs] at hresult
      cases hresult
  · intro s h hunique
    obtain ⟨delivered, hsound⟩ := Upload.sound_of_reachable h
    refine ⟨hsound.edge.whole.of_delivered hsound.same hunique, fun result hresult => ?_⟩
    cases hs : s.daemon with
    | returned result' =>
      rw [hs] at hresult
      cases hresult
      cases result with
      | ok n => exact ((hsound.result n hs).2.of_delivered hsound.same hunique).transfer
      | error error => exact Reports.transfer (.of_error error)
    | _ =>
      rw [hs] at hresult
      cases hresult

/-- A download of "hi" during which the file at the source changes. -/
def sampleDownload : List DownloadEvent :=
  [.request, .stage, .write (some [33]), .readAnswer, .fetch .connected, .fetch (.leaf [104]),
    .fetch .parent, .fetch (.leaf [105]), .collect, .fetch .done, .fetch .fileSynced, .fetch .persisted,
    .fetch .directorySynced, .closed, .collect]

theorem exists_sampleDownload : ∃ s, (download (id : Bytes → Bytes) "notes").Reachable s ∧
    s.dest = some [104, 105] ∧ ∃ result, s.daemon.result = some result ∧ result = .ok 2 := by
  obtain ⟨s, hr, hcheck⟩ := exists_reachable (S := download id "notes")
    (fun a b event hperform => ⟨event, hperform⟩) ⟨some [104, 105], none, rfl⟩
    (show (runAll (Download.perform id "notes") (.start (some [104, 105]) none) sampleDownload).any
      (fun s => decide (s.dest = some [104, 105]) &&
        s.daemon.result.any (fun result => result.toOption = some 2)) = true by decide +kernel)
  obtain ⟨hdest, hresult⟩ := Bool.and_eq_true_iff.1 hcheck
  obtain ⟨result, hsome, hok⟩ := (Option.any_eq_true _ _).1 hresult
  refine ⟨s, hr, of_decide_eq_true hdest, result, hsome, ?_⟩
  cases result with
  | ok n => simpa [Except.toOption] using hok
  | error error => simp [Except.toOption] at hok

theorem sampleDownload_is_whole : ∃ s, (download (id : Bytes → Bytes) "notes").Reachable s ∧
    ∃ result, s.daemon.result = some result ∧
      Reports s.staged s.dest (transfer (intoResp result : RpcResult (TransferResult Bytes))) := by
  obtain ⟨s, hr, -, result, hresult, -⟩ := exists_sampleDownload
  exact ⟨s, hr, result, hresult,
    ((transfers_are_whole "notes" "client" "client").1 s hr (fun _ _ _ _ h => h)).2 result hresult⟩

/-! ## What is staged stays -/

/-- The blob of a download is in the store as long as it is needed. -/
structure Download.Kept (hashOf : Bytes → Hash) (s : Download Hash) : Prop where
  stored : ∀ content, s.edge = .holding content → content ∈ s.blobs
  answered : ∀ hash, s.answer = some (.ok (.downloadReady hash)) → s.daemon.isOpen = true →
    s.lost = false → ∃ content, s.edge = .holding content ∧ hash = hashOf content
  fetching : ∀ hash fetch, s.daemon = .fetching hash fetch → s.lost = false →
    ∃ content, s.edge = .holding content ∧ hash = hashOf content

theorem Download.Kept.step [DecidableEq Hash] {s t : Download Hash} {event : DownloadEvent}
    (h : s.Kept hashOf) (hstep : s.perform hashOf path event = some t) :
    t.Kept hashOf := by
  cases event with
  | write content =>
    cases hstep
    exact ⟨h.stored, h.answered, h.fetching⟩
  | lose | edgeDies | daemonDies =>
    cases hstep
    exact ⟨by simp_all [h.stored], by simp, by simp⟩
  | collect =>
    cases hstep
    refine ⟨fun content hheld => ?_, h.answered, h.fetching⟩
    exact List.mem_filter.2 ⟨h.stored content hheld, by simpa using hheld⟩
  | request =>
    simp only [Download.perform] at hstep
    split at hstep
    · next hdialing =>
      cases hstep
      refine ⟨h.stored, fun hash hanswer _ hlost => ?_, by simp⟩
      exact h.answered hash hanswer (by rw [hdialing]; rfl) hlost
    · cases hstep
  | stage =>
    simp only [Download.perform] at hstep
    split at hstep
    · next content hwaiting _ _ =>
      cases hstep
      refine ⟨by simp, ?_, ?_⟩
      · intro hash hanswer _ _
        cases hanswer
        exact ⟨content, rfl, rfl⟩
      · intro hash fetch hfetching hlost
        obtain ⟨other, hheld, -⟩ := h.fetching hash fetch hfetching hlost
        rw [hwaiting] at hheld
        cases hheld
    · cases hstep
  | stageFails error =>
    simp only [Download.perform] at hstep
    split at hstep
    · next hwaiting _ =>
      cases hstep
      refine ⟨by simp, by simp, ?_⟩
      intro hash fetch hfetching hlost
      obtain ⟨other, hheld, -⟩ := h.fetching hash fetch hfetching hlost
      rw [hwaiting] at hheld
      cases hheld
    · cases hstep
  | readAnswer =>
    simp only [Download.perform] at hstep
    split at hstep
    · next answer hawaiting hanswer =>
      have hopen : s.daemon.isOpen = true := by rw [hawaiting]; rfl
      split at hstep
      · next hash hhash =>
        cases hstep
        rw [downloadHash_eq_ok hhash] at hanswer
        have hkept := h.answered hash hanswer hopen
        refine ⟨h.stored, fun hash hanswer _ => h.answered hash hanswer hopen, ?_⟩
        intro hash fetch hfetching
        cases hfetching
        exact hkept
      · cases hstep
        exact ⟨h.stored, by simp [DoDownload.isOpen], by simp⟩
    · cases hstep
  | fetch event =>
    simp only [Download.perform] at hstep
    split at hstep
    · next hash fetch hfetching =>
      obtain ⟨⟨next, file⟩, -, rfl⟩ := Option.map_eq_some_iff.1 hstep
      have hopen : s.daemon.isOpen = true := by rw [hfetching]; rfl
      refine ⟨h.stored, fun hash hanswer _ => h.answered hash hanswer hopen, ?_⟩
      intro hash' fetch' hafter
      have hsame : hash' = hash := by
        cases next <;> cases hafter
        all_goals rfl
      rw [hsame]
      exact h.fetching hash fetch hfetching
    · cases hstep
  | closed =>
    simp only [Download.perform] at hstep
    split at hstep
    · split at hstep
      · cases hstep
      · next hclosed =>
        cases hstep
        have hnot : s.daemon.isOpen = true → s.lost = false → False := by
          intro hopen hlost
          simp [hopen, hlost] at hclosed
        refine ⟨by simp, fun hash _ hopen hlost => (hnot hopen hlost).elim, ?_⟩
        intro hash fetch hfetching hlost
        have hfetch : s.daemon = .fetching hash fetch := hfetching
        exact (hnot (by rw [hfetch]; rfl) hlost).elim
    · cases hstep
  | daemonFails error =>
    simp only [Download.perform] at hstep
    split at hstep
    · cases hstep
      exact ⟨h.stored, by simp [DoDownload.isOpen], by simp⟩
    · cases hstep
      exact ⟨h.stored, by simp [DoDownload.isOpen], by simp⟩
    · cases hstep

/-- Whether the daemon has still to ask. -/
def DoUpload.isEarly : DoUpload → Bool
  | .staging | .staged _ => true
  | .awaiting _ | .returned _ | .died => false

/-- The blob of an upload is in the store as long as it is needed. -/
structure Upload.Kept (hashOf : Bytes → Hash) (s : Upload Hash) : Prop where
  stored : ∀ content, s.daemon.tag = some content → content ∈ s.blobs
  early : s.daemon.isEarly = true → s.request = none
  unasked : s.request = none → s.edge = .waiting ∨ s.edge = .ended
  answered : ∀ answer, s.answer = some answer → s.edge = .answered ∨ s.edge = .ended
  asked : ∀ request, s.request = some request → s.edge = .waiting → s.lost = false →
    ∃ content, s.daemon = .awaiting content ∧ request.hash = hashOf content
  fetching : ∀ hash fetch, s.edge = .fetching hash fetch → s.lost = false →
    ∃ content, s.daemon = .awaiting content ∧ hash = hashOf content

theorem Upload.Kept.requested (h : s.Kept hashOf) {hash : Hash}
    (hfetching : s.edge = .fetching hash fetch) : s.request ≠ none := by
  intro hnone
  rcases h.unasked hnone with hedge | hedge <;> cases hfetching.symm.trans hedge

/-- The daemon goes on when the Edge has nothing to begin with and is not at work, or the connection is
    lost. -/
theorem Upload.Kept.daemon (h : s.Kept hashOf) {daemon : DoUpload} {staged : Option Bytes}
    {blobs : List Bytes} (htag : ∀ content, daemon.tag = some content → content ∈ blobs)
    (hearly : daemon.isEarly = true → s.request = none)
    (hidle : s.lost = false → s.request = none ∨ s.edge = .answered ∨ s.edge = .ended) :
    Upload.Kept hashOf { s with daemon := daemon, staged := staged, blobs := blobs } where
  __ := h
  stored := htag
  early := hearly
  asked := by
    intro request hrequest hwaiting hlost
    rcases hidle hlost with hnone | hedge | hedge
    · cases hrequest.symm.trans hnone
    · cases hwaiting.symm.trans hedge
    · cases hwaiting.symm.trans hedge
  fetching := by
    intro hash fetch hfetching hlost
    rcases hidle hlost with hnone | hedge | hedge
    · exact absurd hnone (h.requested hfetching)
    · cases hfetching.symm.trans hedge
    · cases hfetching.symm.trans hedge

/-- The Edge has answered or has ended. -/
theorem Upload.Kept.edge (h : s.Kept hashOf) {edge : ReceiveUpload Hash} {dest : Option Bytes}
    {answer : Option (RpcResult (TransferResult Hash))} (hedge : edge = .answered ∨ edge = .ended)
    (hrequest : edge = .answered → s.request ≠ none) :
    Upload.Kept hashOf { s with edge := edge, dest := dest, answer := answer } where
  __ := h
  unasked := by
    intro hnone
    rcases hedge with rfl | rfl
    · exact absurd hnone (hrequest rfl)
    · exact .inr rfl
  answered := fun _ _ => hedge
  asked := by
    intro request _ hwaiting
    rcases hedge with rfl | rfl <;> cases hwaiting
  fetching := by
    intro hash fetch hfetching
    rcases hedge with rfl | rfl <;> cases hfetching

theorem Upload.Kept.afterFetch (h : s.Kept hashOf) {hash : Hash} {fetch next : Fetch}
    {dest : Option Bytes} (hfetching : s.edge = .fetching hash fetch) :
    (Upload.afterFetch hash { s with dest := dest } next).Kept hashOf := by
  have hrequest := h.requested hfetching
  have hanswer : ∀ answer, s.answer ≠ some answer := by
    intro answer hsome
    rcases h.answered answer hsome with hedge | hedge <;> cases hfetching.symm.trans hedge
  cases next with
  | returned result => exact h.edge (.inl rfl) (fun _ => hrequest)
  | _ =>
    refine ⟨h.stored, h.early, fun hnone => absurd hnone hrequest,
      fun answer hsome => absurd hsome (hanswer answer), ?_, ?_⟩
    · intro request _ hwaiting
      cases hwaiting
    · intro hash' fetch' hafter
      cases hafter
      exact h.fetching hash fetch hfetching

theorem Upload.Kept.step [DecidableEq Hash] {s t : Upload Hash} {event : UploadEvent}
    (h : s.Kept hashOf) (hstep : s.perform hashOf clientId authenticated event = some t) :
    t.Kept hashOf := by
  cases event with
  | write content =>
    cases hstep
    exact ⟨h.stored, h.early, h.unasked, h.answered, h.asked, h.fetching⟩
  | lose =>
    cases hstep
    exact ⟨h.stored, h.early, h.unasked, h.answered, by simp, by simp⟩
  | edgeDies =>
    cases hstep
    exact ⟨h.stored, h.early, fun _ => .inr rfl, fun _ _ => .inr rfl, by simp, by simp⟩
  | daemonDies =>
    cases hstep
    exact ⟨by simp [DoUpload.tag], by simp [DoUpload.isEarly], h.unasked, h.answered, by simp, by simp⟩
  | collect =>
    cases hstep
    refine ⟨fun content htag => ?_, h.early, h.unasked, h.answered, h.asked, h.fetching⟩
    exact List.mem_filter.2 ⟨h.stored content htag, by simpa using htag⟩
  | stage =>
    simp only [Upload.perform] at hstep
    split at hstep
    · next content hstaging _ =>
      cases hstep
      have hnone := h.early (by rw [hstaging]; rfl)
      exact h.daemon (by simp [DoUpload.tag]) (fun _ => hnone) (fun _ => .inl hnone)
    · cases hstep
  | request =>
    simp only [Upload.perform] at hstep
    split at hstep
    · next content hstaged =>
      cases hstep
      have hnone := h.early (by rw [hstaged]; rfl)
      refine ⟨fun other htag => h.stored other (by rw [hstaged]; exact htag), by simp [DoUpload.isEarly],
        by simp, h.answered, ?_, ?_⟩
      · intro request hrequest _ _
        cases hrequest
        exact ⟨content, rfl, rfl⟩
      · intro hash fetch hfetching
        exact absurd hnone (h.requested hfetching)
    · cases hstep
  | receive =>
    simp only [Upload.perform] at hstep
    split at hstep
    · next request hwaiting hrequest =>
      split at hstep
      · cases hstep
        refine ⟨h.stored, h.early, ?_, ?_, by simp, ?_⟩
        · intro hnone
          cases hrequest.symm.trans hnone
        · intro answer hsome
          rcases h.answered answer hsome with hedge | hedge <;> cases hwaiting.symm.trans hedge
        · intro hash fetch hfetching
          cases hfetching
          exact h.asked request hrequest hwaiting
      · cases hstep
        exact h.edge (.inr rfl) (by simp)
    · cases hstep
  | receiveFails error =>
    simp only [Upload.perform] at hstep
    split at hstep
    · next request _ hrequest =>
      cases hstep
      exact h.edge (.inl rfl) (fun _ hnone => by cases hrequest.symm.trans hnone)
    · cases hstep
  | fetch event =>
    simp only [Upload.perform] at hstep
    split at hstep
    · next hash fetch hfetching =>
      obtain ⟨⟨next, file⟩, -, rfl⟩ := Option.map_eq_some_iff.1 hstep
      exact h.afterFetch hfetching
    · cases hstep
  | readAnswer =>
    simp only [Upload.perform] at hstep
    split at hstep
    · next content answer _ hanswer =>
      cases hstep
      exact h.daemon (by simp [DoUpload.tag]) (by simp [DoUpload.isEarly])
        (fun _ => .inr (h.answered answer hanswer))
    · cases hstep
  | daemonFails error =>
    simp only [Upload.perform] at hstep
    split at hstep
    · next hstaging =>
      cases hstep
      exact h.daemon (by simp [DoUpload.tag]) (by simp [DoUpload.isEarly])
        (fun _ => .inl (h.early (by rw [hstaging]; rfl)))
    · next content hstaged =>
      cases hstep
      exact h.daemon (by simp [DoUpload.tag]) (by simp [DoUpload.isEarly])
        (fun _ => .inl (h.early (by rw [hstaged]; rfl)))
    · split at hstep
      · cases hstep
      · next hclosed =>
        cases hstep
        refine h.daemon (by simp [DoUpload.tag]) (by simp [DoUpload.isEarly]) (fun hlost => ?_)
        have hended : s.edge = .ended := by
          cases hedge : s.edge with
          | ended => rfl
          | _ => simp [hedge, hlost, ReceiveUpload.mayAnswer] at hclosed
        exact .inr (.inr hended)
    · cases hstep

/-- **What is staged outlives the fetch.** As long as the connection of the request is not lost, the
    blob that is being fetched is held by the temporary tag of the side that staged it, and its store
    has not collected it. -/
theorem staged_blobs_outlive_the_fetch [DecidableEq Hash] (hashOf : Bytes → Hash)
    (path clientId authenticated : String) :
    (∀ s, (download hashOf path).Reachable s → ∀ hash fetch, s.daemon = .fetching hash fetch →
      s.lost = false → ∃ content ∈ s.blobs, s.edge = .holding content ∧ hashOf content = hash) ∧
    (∀ s, (upload hashOf clientId authenticated).Reachable s → ∀ hash fetch,
      s.edge = .fetching hash fetch → s.lost = false →
      ∃ content ∈ s.blobs, s.daemon.tag = some content ∧ hashOf content = hash) := by
  constructor
  · intro s h hash fetch hfetching hlost
    have hkept : s.Kept hashOf := by
      refine h.invariant ?_ ?_
      · rintro s ⟨source, before, rfl⟩
        exact ⟨by simp [Download.start], by simp [Download.start], by simp [Download.start]⟩
      · rintro s t - hkept ⟨event, hstep⟩
        exact hkept.step hstep
    obtain ⟨content, hheld, rfl⟩ := hkept.fetching hash fetch hfetching hlost
    exact ⟨content, hkept.stored content hheld, hheld, rfl⟩
  · intro s h hash fetch hfetching hlost
    have hkept : s.Kept hashOf := by
      refine h.invariant ?_ ?_
      · rintro s ⟨source, before, rfl⟩
        exact ⟨by simp [Upload.start, DoUpload.tag], fun _ => rfl, fun _ => .inl rfl,
          by simp [Upload.start], by simp [Upload.start], by simp [Upload.start]⟩
      · rintro s t - hkept ⟨event, hstep⟩
        exact hkept.step hstep
    obtain ⟨content, hawaiting, rfl⟩ := hkept.fetching hash fetch hfetching hlost
    have htag : s.daemon.tag = some content := by rw [hawaiting]; rfl
    exact ⟨content, hkept.stored content htag, htag, rfl⟩

/-- What the daemon is fetching. -/
def DoDownload.fetches : DoDownload Hash → Option Hash
  | .fetching hash _ => some hash
  | _ => none

theorem sampleDownload_is_kept : ∃ s, (download (id : Bytes → Bytes) "notes").Reachable s ∧
    s.source = some [33] ∧ [104, 105] ∈ s.blobs := by
  obtain ⟨s, hr, hcheck⟩ := exists_reachable (S := download (id : Bytes → Bytes) "notes")
    (fun a b event hperform => ⟨event, hperform⟩) ⟨some [104, 105], none, rfl⟩
    (show (runAll (Download.perform id "notes") (.start (some [104, 105]) none)
      (sampleDownload.take 9)).any (fun s => decide (s.source = some [33] ∧
        s.daemon.fetches = some [104, 105] ∧ s.lost = false)) = true by decide +kernel)
  obtain ⟨hsource, hfetches, hlost⟩ := of_decide_eq_true hcheck
  cases hdaemon : s.daemon with
  | fetching hash fetch =>
    rw [hdaemon] at hfetches
    obtain ⟨content, hstored, -, hcontent⟩ :=
      (staged_blobs_outlive_the_fetch id "notes" "client" "client").1 s hr hash fetch hdaemon hlost
    obtain rfl : content = [104, 105] := hcontent.trans (Option.some.inj hfetches)
    exact ⟨s, hr, hsource, hstored⟩
  | _ =>
    rw [hdaemon] at hfetches
    cases hfetches

end AgentScale.Transfer
