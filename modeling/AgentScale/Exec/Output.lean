import AgentScale.Exec.Pipeline

set_option autoImplicit false

/-! # What the Client prints and returns

The frames travel in order, so what the Client has handled is a first part of what the daemon has
forwarded, and this of what the Edge has sent. The Edge sends EXIT last, after both outputs of the child
have ended; so a Client that returns a code has printed everything. -/

namespace AgentScale.Exec

open Bytes Transition Transport

variable {r : Request} {s t : Pipeline} {child : Child} {channel : Channel}

/-! ## Exit codes -/

@[simp]
theorem decodeExit_exitFrame (code : Int32) : decodeExit (exitFrame code).payload = .ok code := by
  simp only [exitFrame, toLeBytes, decodeExit, fromLeBytes_toLeBytes code.toUInt32.toNat_lt]
  simp

theorem exitFrame_fits (code : Int32) : (exitFrame code).payload.length ≤ maxFrame := by
  simp [exitFrame, toLeBytes, maxFrame]

/-! ## Outputs of a list of frames -/

def outputOf (channel : Channel) (frames : List Frame) : List UInt8 :=
  frames.flatMap (fun frame => if frame.tag = channel.tag then frame.payload else [])

@[simp]
theorem outputOf_nil : outputOf channel [] = [] := rfl

@[simp]
theorem outputOf_append (frames later : List Frame) :
    outputOf channel (frames ++ later) = outputOf channel frames ++ outputOf channel later :=
  List.flatMap_append

@[simp]
theorem outputOf_cons (frame : Frame) (later : List Frame) :
    outputOf channel (frame :: later) =
      (if frame.tag = channel.tag then frame.payload else []) ++ outputOf channel later := rfl

theorem outputOf_mono {part whole : List Frame} (h : part <+: whole) :
    outputOf channel part <+: outputOf channel whole := by
  obtain ⟨later, rfl⟩ := h
  simp

theorem Channel.tag_inj {a b : Channel} : a.tag = b.tag ↔ a = b := by cases a <;> cases b <;> decide

theorem Channel.tag_ne_exit (channel : Channel) : channel.tag ≠ .exit := by cases channel <;> decide

/-! ## What the Edge has sent -/

@[simp]
theorem Child.setOutput_output (child : Child) (a b : Channel) (output : Output) :
    (child.setOutput a output).output b = if b = a then output else child.output b :=
  Function.update_apply ..

/-- The frames sent so far and what is still in the pipes make up what the child has written. -/
structure Child.Streamed (child : Child) (sent : List Frame) : Prop where
  output : ∀ channel, outputOf channel sent ++ (child.output channel).unread =
    (child.output channel).written
  plain : ∀ frame ∈ sent, frame.tag ≠ .exit

/-- An output at whose end `read` has arrived. -/
def Output.Ended (output : Output) : Prop := output.closed = true ∧ output.unread = []

namespace Child.Streamed

variable {sent : List Frame}

theorem spawned : Child.spawned.Streamed [] := ⟨fun _ => rfl, by simp⟩

theorem write (h : child.Streamed sent) (channel : Channel) (bytes : List UInt8) :
    (child.write channel bytes).Streamed sent := by
  refine ⟨?_, h.plain⟩
  intro other
  simp only [Child.write, setOutput_output]
  split
  · next heq =>
    subst heq
    simp only [← h.output other, List.append_assoc]
  · exact h.output other

theorem close (h : child.Streamed sent) (channel : Channel) : (child.close channel).Streamed sent := by
  refine ⟨?_, h.plain⟩
  intro other
  simp only [Child.close, setOutput_output]
  split
  · next heq =>
    subst heq
    exact h.output other
  · exact h.output other

theorem terminate (h : child.Streamed sent) : child.terminate.Streamed sent := ⟨h.output, h.plain⟩

/-- The bytes that are read go into the next frame. -/
theorem take (h : child.Streamed sent) (channel : Channel) (n : Nat) :
    (child.take channel ((child.output channel).unread.take n).length).Streamed
      (sent ++ [⟨channel.tag, (child.output channel).unread.take n⟩]) := by
  refine ⟨?_, ?_⟩
  · intro other
    simp only [Child.take, setOutput_output]
    split
    · next heq =>
      subst heq
      have hsplit := List.prefix_iff_eq_append.1 (List.take_prefix n (child.output other).unread)
      rw [← h.output other]
      simp only [outputOf_append, outputOf_cons, if_true, outputOf_nil, List.append_nil,
        List.append_assoc, hsplit]
    · next hne =>
      have htag : channel.tag ≠ other.tag := fun h => hne (Channel.tag_inj.1 h).symm
      simp [htag, h.output other]
  · intro frame hframe
    rcases List.mem_append.1 hframe with hframe | hframe
    · exact h.plain frame hframe
    · rw [List.mem_singleton.1 hframe]
      exact channel.tag_ne_exit

end Child.Streamed

/-- What the Edge has sent, by the stage of `run_exec`. -/
inductive Produced (r : Request) : RunExec → Option Child → List Frame → Prop
  | idle : Produced r .idle none []
  | streaming (child : Child) (sent : List Frame) (stdoutDone stderrDone : Bool)
      (hstreamed : child.Streamed sent)
      (hstdout : stdoutDone = true → (child.output .stdout).Ended)
      (hstderr : stderrDone = true → (child.output .stderr).Ended) :
      Produced r (.streaming stdoutDone stderrDone) (some child) sent
  | waiting (child : Child) (sent : List Frame) (hstreamed : child.Streamed sent)
      (hended : ∀ channel, (child.output channel).Ended) : Produced r .waiting (some child) sent
  /-- The child could not be spawned. -/
  | refused (stage : RunExec) (error : String) (sent : List Frame)
      (hstage : stage = .returned ∨ stage = .crashed)
      (hpart : sent <+: Pipe.fitting [spawnFailed r error, exitFrame (-1)]) :
      Produced r stage none sent
  /-- `run_exec` has stopped before the end. -/
  | stopped (stage : RunExec) (child : Child) (sent : List Frame)
      (hstage : stage = .returned ∨ stage = .crashed) (hstreamed : child.Streamed sent) :
      Produced r stage (some child) sent
  | finished (stage : RunExec) (child : Child) (sent : List Frame) (status : Option Int32)
      (hstage : stage = .returned ∨ stage = .crashed) (hstreamed : child.Streamed sent)
      (hended : ∀ channel, (child.output channel).Ended) (hstatus : child.status = some status) :
      Produced r stage (some child) (sent ++ [exitFrame (status.getD (-1))])

namespace Produced

variable {edge stage : RunExec} {sent : List Frame} {spawned : Option Child}

/-- Whatever changes an output that has not ended, and keeps the account of what was sent. -/
theorem change {child' : Child} (h : Produced r edge (some child) sent)
    (hstreamed : ∀ part, child.Streamed part → child'.Streamed part)
    (hended : ∀ channel, (child.output channel).Ended → (child'.output channel).Ended)
    (hstatus : ∀ status, child.status = some status → child'.status = some status) :
    Produced r edge (some child') sent := by
  cases h with
  | streaming _ _ a b hs ha hb =>
    exact .streaming child' sent a b (hstreamed _ hs) (fun h => hended _ (ha h))
      (fun h => hended _ (hb h))
  | waiting _ _ hs hall => exact .waiting child' sent (hstreamed _ hs) (fun c => hended c (hall c))
  | stopped _ _ _ hstage hs => exact .stopped edge child' sent hstage (hstreamed _ hs)
  | finished _ _ part status hstage hs hall hst =>
    exact .finished edge child' part status hstage (hstreamed _ hs) (fun c => hended c (hall c))
      (hstatus status hst)

theorem write (h : Produced r edge (some child) sent) (hopen : (child.output channel).closed ≠ true)
    (bytes : List UInt8) : Produced r edge (some (child.write channel bytes)) sent := by
  refine h.change (fun part hs => hs.write channel bytes) ?_ (fun _ hst => hst)
  intro other hended
  have hne : other ≠ channel := by
    rintro rfl
    exact hopen hended.1
  simpa [Child.write, hne] using hended

theorem close (h : Produced r edge (some child) sent) (channel : Channel) :
    Produced r edge (some (child.close channel)) sent := by
  refine h.change (fun part hs => hs.close channel) ?_ (fun _ hst => hst)
  intro other hended
  simp only [Child.close, Child.setOutput_output]
  split
  · next heq =>
    subst heq
    exact ⟨rfl, hended.2⟩
  · exact hended

theorem exit (h : Produced r edge (some child) sent) (hrunning : child.status = none)
    (code : Option Int32) : Produced r edge (some { child with status := some code }) sent := by
  refine h.change (fun part hs => ⟨hs.output, hs.plain⟩) (fun _ hended => hended) ?_
  intro status hst
  rw [hrunning] at hst
  cases hst

theorem kill (h : Produced r edge spawned sent) :
    Produced r edge (spawned.map Child.terminate) sent := by
  cases spawned with
  | none => exact h
  | some child =>
    refine h.change (fun part hs => hs.terminate) (fun _ hended => hended) ?_
    intro status hst
    simp [Child.terminate, hst]

/-- `run_exec` may stop at any time. -/
theorem stop (h : Produced r edge spawned sent) (hstage : stage = .returned ∨ stage = .crashed) :
    Produced r stage spawned sent := by
  cases h with
  | idle => exact .refused stage "" [] hstage List.nil_prefix
  | streaming child _ _ _ hs => exact .stopped stage child sent hstage hs
  | waiting child _ hs => exact .stopped stage child sent hstage hs
  | refused _ error _ _ hpart => exact .refused stage error sent hstage hpart
  | stopped _ child _ _ hs => exact .stopped stage child sent hstage hs
  | finished _ child part status _ hs hall hst =>
    exact .finished stage child part status hstage hs hall hst

theorem terminate (h : Produced r edge spawned sent) :
    Produced r .returned (spawned.map Child.terminate) sent := h.kill.stop (.inl rfl)

/-- The arm of an output. -/
theorem forward (h : Produced r edge (some child) sent) (hreads : edge.reads channel = true)
    (n : Nat) :
    Produced r edge
      (some (child.take channel ((child.output channel).unread.take n).length))
      (sent ++ [⟨channel.tag, (child.output channel).unread.take n⟩]) := by
  have hother : ∀ {other}, other ≠ channel → (child.output other).Ended → ((child.take channel
      ((child.output channel).unread.take n).length).output other).Ended := by
    intro other hne hended
    simpa [Child.take, hne] using hended
  cases h with
  | streaming _ _ a b hs ha hb =>
    refine .streaming _ _ a b (hs.take channel n) (fun h => ?_) (fun h => ?_)
    · subst h
      exact hother (by rintro rfl; simp [RunExec.reads] at hreads) (ha rfl)
    · subst h
      exact hother (by rintro rfl; simp [RunExec.reads] at hreads) (hb rfl)
  | waiting => cases channel <;> simp [RunExec.reads] at hreads
  | stopped _ _ _ hstage | finished _ _ _ _ hstage =>
    rcases hstage with rfl | rfl <;> cases channel <;> simp [RunExec.reads] at hreads

/-- `read` returns `Ok(0)`. -/
theorem ended (h : Produced r edge (some child) sent) (hended : (child.output channel).Ended) :
    Produced r (edge.ended channel) (some child) sent := by
  cases h with
  | streaming _ _ a b hs ha hb =>
    cases channel with
    | stdout => exact .streaming child sent true b hs (fun _ => hended) hb
    | stderr => exact .streaming child sent a true hs ha (fun _ => hended)
  | waiting _ _ hs hall => cases channel <;> exact .waiting child sent hs hall
  | stopped _ _ _ hstage hs =>
    rcases hstage with rfl | rfl
    · cases channel <;> exact .stopped .returned child sent (.inl rfl) hs
    · cases channel <;> exact .stopped .crashed child sent (.inr rfl) hs
  | finished _ _ part status hstage hs hall hst =>
    rcases hstage with rfl | rfl
    · cases channel <;> exact .finished .returned child part status (.inl rfl) hs hall hst
    · cases channel <;> exact .finished .crashed child part status (.inr rfl) hs hall hst

theorem of_idle (h : Produced r .idle spawned sent) : spawned = none ∧ sent = [] := by
  cases h with
  | idle => exact ⟨rfl, rfl⟩
  | refused _ _ _ hstage | stopped _ _ _ hstage | finished _ _ _ _ hstage => simp at hstage

theorem drained (h : Produced r (.streaming true true) spawned sent) :
    Produced r .waiting spawned sent := by
  cases h with
  | streaming child _ _ _ hs hstdout hstderr =>
    refine .waiting child sent hs ?_
    intro channel
    cases channel with
    | stdout => exact hstdout rfl
    | stderr => exact hstderr rfl
  | refused _ _ _ hstage | stopped _ _ _ hstage | finished _ _ _ _ hstage => simp at hstage

theorem waited (h : Produced r .waiting (some child) sent) {status : Option Int32}
    (hstatus : child.status = some status) :
    Produced r .returned (some child) (sent ++ [exitFrame (status.getD (-1))]) := by
  cases h with
  | waiting _ _ hs hall => exact .finished .returned child sent status (.inl rfl) hs hall hstatus
  | stopped _ _ _ hstage | finished _ _ _ _ hstage => simp at hstage

end Produced

/-! ## The invariant -/

def RunExec.Writes (edge : RunExec) : Prop := edge ≠ .returned ∧ edge ≠ .crashed

/-- The frames that the Edge has sent, that the daemon has read and passed on, and that the Client has
    handled. -/
structure Pipeline.Sound (r : Request) (s : Pipeline) (sent relayed handed handled : List Frame) :
    Prop where
  produced : Produced r s.edge s.child sent
  ofSent : relayed <+: sent
  up : s.relay ≠ .returned → ∃ rest missing, sent = relayed ++ rest ∧ s.up.Carries rest missing ∧
    (s.edge.Writes → missing = [])
  unread : s.relay = .connecting → relayed = []
  passed : s.relay ≠ .unreachable → handed = relayed
  unsent : ¬ s.relay.Sent → s.child = none
  unreachable : s.relay = .unreachable →
    ∃ error, handed <+: Pipe.fitting [setupFailed r error, exitFrame 1]
  ofHanded : handled <+: handed
  down : s.client.result = none → ∃ rest missing, handed = handled ++ rest ∧
    s.down.Carries rest missing ∧ (s.relay = .connecting ∨ s.relay = .relaying → missing = [])
  printed : ∀ channel, s.client.printed channel = outputOf channel handled
  result : ∀ code, s.client.result = some (.ok code) →
    ∃ before payload, handled = before ++ [⟨.exit, payload⟩] ∧ decodeExit payload = .ok code

theorem ClientExec.printed_handle {c : ClientExec} {handled : List Frame}
    (h : ∀ channel, c.printed channel = outputOf channel handled) (frame : Frame) (channel : Channel) :
    (c.handle (.ok (some frame))).printed channel = outputOf channel (handled ++ [frame]) := by
  obtain ⟨tag, payload⟩ := frame
  cases tag <;> cases channel <;> simp [ClientExec.handle, ClientExec.print, Channel.tag, h]

variable {answer : Except String (Option Frame)}

theorem ClientExec.result_handle {c : ClientExec} (hc : c.result = none) {code : Int32}
    (h : (c.handle answer).result = some (.ok code)) :
    ∃ payload, answer = .ok (some ⟨.exit, payload⟩) ∧ decodeExit payload = .ok code := by
  cases answer with
  | error error => simp [ClientExec.handle] at h
  | ok frame =>
    cases frame with
    | none => simp [ClientExec.handle] at h
    | some frame =>
      obtain ⟨tag, payload⟩ := frame
      cases tag with
      | exit => exact ⟨payload, rfl, Option.some.inj h⟩
      | stdout | stderr => simp [ClientExec.handle, ClientExec.print, hc] at h
      | start | result | data => simp [ClientExec.handle] at h

namespace Pipeline.Sound

variable {sent relayed handed handled : List Frame}

theorem start : Pipeline.start.Sound r [] [] [] [] where
  produced := .idle
  ofSent := List.prefix_rfl
  up _ := ⟨[], [], rfl, Pipe.opened_carries, fun _ => rfl⟩
  unread _ := rfl
  passed _ := rfl
  unsent _ := rfl
  unreachable h := by cases h
  ofHanded := List.prefix_rfl
  down _ := ⟨[], [], rfl, Pipe.opened_carries, fun _ => rfl⟩
  printed _ := rfl
  result _ h := by cases h

variable (h : s.Sound r sent relayed handed handled)

include h

/-- The Edge moves without writing. -/
theorem edge {edge : RunExec} {child : Option Child}
    {up : Pipe} (hproduced : Produced r edge child sent)
    (hup : ∀ rest missing, s.up.Carries rest missing → up.Carries rest missing)
    (hwrites : edge.Writes → s.edge.Writes) (hnone : ¬ s.relay.Sent → child = none) :
    { s with edge := edge, child := child, up := up }.Sound r sent relayed handed handled where
  __ := h
  produced := hproduced
  up hrelay := by
    obtain ⟨rest, missing, hsent, hcarries, hmissing⟩ := h.up hrelay
    exact ⟨rest, missing, hsent, hup rest missing hcarries, fun hw => hmissing (hwrites hw)⟩
  unsent := hnone

/-- The Edge has written some frames, not all of them perhaps. -/
theorem send {edge : RunExec} {child : Option Child} {up : Pipe} {frames : List Frame}
    (hproduced : Produced r edge child (sent ++ frames))
    (hup : ∀ rest, s.up.Carries rest [] → ∃ missing, up.Carries (rest ++ frames) missing ∧
      (edge.Writes → missing = []))
    (hwas : s.edge.Writes) (hsent : s.relay.Sent) :
    { s with edge := edge, child := child, up := up }.Sound r (sent ++ frames) relayed handed
      handled where
  __ := h
  produced := hproduced
  ofSent := h.ofSent.trans (List.prefix_append _ _)
  up hrelay := by
    obtain ⟨rest, missing, hrest, hcarries, hmissing⟩ := h.up hrelay
    obtain rfl := hmissing hwas
    obtain ⟨missing, hcarries', hmissing'⟩ := hup rest hcarries
    exact ⟨rest ++ frames, missing, by rw [hrest, List.append_assoc], hcarries', hmissing'⟩
  unsent hunsent := absurd hsent hunsent

theorem hangUp (hrelay : s.relay ≠ .unreachable) :
    s.hangUp.Sound r sent relayed handed handled where
  __ := h
  up hreturned := absurd rfl hreturned
  unread hconnecting := by cases hconnecting
  passed _ := h.passed hrelay
  unsent hunsent := absurd (.inr rfl) hunsent
  unreachable hunreachable := by cases hunreachable
  down hclient := by
    obtain ⟨rest, missing, hhanded, hcarries, _⟩ := h.down hclient
    exact ⟨rest, missing, hhanded, hcarries.close, by rintro (h | h) <;> cases h⟩

/-- The daemon passes a frame on. -/
theorem pass (hrelay : s.relay = .relaying) {up : Pipe} {frame : Frame} {later : List Frame}
    {missing : List UInt8} (hsent : sent = relayed ++ frame :: later)
    (hup : up.Carries later missing) (hmissing : s.edge.Writes → missing = [])
    (hfits : frame.payload.length ≤ maxFrame) (cut : Option Nat) :
    ({ s with up := up }.relayed cut (.ok (some frame))).Sound r sent (relayed ++ [frame])
      (handed ++ [frame]) handled := by
  have hpassed : handed ++ [frame] = relayed ++ [frame] := by rw [h.passed (by simp [hrelay])]
  have hofSent : relayed ++ [frame] <+: sent := ⟨later, by simp [hsent]⟩
  have hofHanded : handled <+: handed ++ [frame] := h.ofHanded.trans (List.prefix_append _ _)
  have hdown : s.client.result = none → ∃ rest missing, handed ++ [frame] = handled ++ rest ∧
      (s.down.put (encode frame) cut).Carries rest missing ∧ (cut = none → missing = []) := by
    intro hclient
    obtain ⟨rest, missing, hhanded, hcarries, hall⟩ := h.down hclient
    obtain rfl := hall (.inr hrelay)
    obtain ⟨missing, hput, hmissing⟩ := hcarries.put hfits cut
    exact ⟨rest ++ [frame], missing, by rw [hhanded, List.append_assoc], hput, hmissing⟩
  simp only [Pipeline.relayed, Pipe.writeFrame_of_fits hfits]
  split
  · next hgoes =>
    refine { h with ofSent := hofSent, up := ?_, unread := ?_, passed := fun _ => hpassed
                    unreachable := ?_, ofHanded := hofHanded, down := ?_ }
    · exact fun _ => ⟨later, missing, by simp [hsent], hup, hmissing⟩
    · intro hconnecting
      cases hrelay.symm.trans hconnecting
    · intro hunreachable
      cases hrelay.symm.trans hunreachable
    · intro hclient
      obtain ⟨rest, missing, hhanded, hput, hall⟩ := hdown hclient
      exact ⟨rest, missing, hhanded, hput, fun _ => hall (Option.isNone_iff_eq_none.1 hgoes.1)⟩
  · refine { h with ofSent := hofSent, up := fun hreturned => absurd rfl hreturned, unread := ?_
                    passed := fun _ => hpassed, unsent := fun hunsent => absurd (.inr rfl) hunsent
                    unreachable := ?_, ofHanded := hofHanded, down := ?_ }
    · rintro ⟨⟩
    · rintro ⟨⟩
    · intro hclient
      obtain ⟨rest, missing, hhanded, hput, _⟩ := hdown hclient
      exact ⟨rest, missing, hhanded, hput.close, by rintro (h | h) <;> cases h⟩

/-- The daemon's `read_frame` returns. -/
theorem relay (hrelay : s.relay = .relaying) (hpoll : (s.up.poll .iroh).2 = some answer)
    (cut : Option Nat) :
    ∃ relayed handed, ({ s with up := (s.up.poll .iroh).1 }.relayed cut answer).Sound r sent relayed
      handed handled := by
  obtain ⟨rest, missing, hsent, hcarries, hmissing⟩ := h.up (by simp [hrelay])
  rcases hcarries.poll .iroh with ⟨frame, later, rfl, hframe, hlater⟩ | ⟨hnone, _⟩ |
    ⟨result, hresult, hno⟩
  · cases hpoll.symm.trans hframe
    have hfits := hcarries.fits frame List.mem_cons_self
    exact ⟨_, _, h.pass hrelay hsent hlater hmissing hfits cut⟩
  · cases hpoll.symm.trans hnone
  · cases hpoll.symm.trans hresult
    -- the end of the stream or an error: the daemon reads no further
    have hstops : { s with up := (s.up.poll .iroh).1 }.relayed cut answer =
        { s with up := (s.up.poll .iroh).1 }.hangUp := by
      cases answer with
      | error error => rfl
      | ok frame =>
        cases frame with
        | none => rfl
        | some frame => exact absurd rfl (hno frame)
    rw [hstops]
    have hhung := h.hangUp (by simp [hrelay])
    exact ⟨relayed, handed, { hhung with up := fun hreturned => absurd rfl hreturned }⟩

/-- The Client's `read_frame` returns. -/
theorem client (hclient : s.client.result = none) (hpoll : (s.down.poll .io).2 = some answer) :
    ∃ handled, { s with down := (s.down.poll .io).1, client := s.client.handle answer }.Sound r sent
      relayed handed handled := by
  obtain ⟨rest, missing, hhanded, hcarries, hmissing⟩ := h.down hclient
  rcases hcarries.poll .io with ⟨frame, later, rfl, hframe, hlater⟩ | ⟨hnone, _⟩ |
    ⟨result, hresult, hno⟩
  · cases hpoll.symm.trans hframe
    refine ⟨handled ++ [frame], { h with
      ofHanded := ⟨later, by simp [hhanded]⟩
      down := fun _ => ⟨later, missing, by simp [hhanded], hlater, hmissing⟩
      printed := ClientExec.printed_handle h.printed frame
      result := ?_ }⟩
    intro code hcode
    obtain ⟨payload, hexit, hdecode⟩ := ClientExec.result_handle hclient hcode
    cases Except.ok.inj hexit
    exact ⟨handled, payload, rfl, hdecode⟩
  · cases hpoll.symm.trans hnone
  · cases hpoll.symm.trans hresult
    have hfails : ∃ error, s.client.handle answer = { s.client with result := some (.error error) } := by
      cases answer with
      | error error => exact ⟨error, rfl⟩
      | ok frame =>
        cases frame with
        | none => exact ⟨_, rfl⟩
        | some frame => exact absurd rfl (hno frame)
    obtain ⟨error, hfails⟩ := hfails
    rw [hfails]
    refine ⟨handled, { h with down := ?_, result := ?_ }⟩
    · rintro ⟨⟩
    · rintro code ⟨⟩

/-- The daemon tells the Client that it cannot reach the Edge. -/
theorem refuse (hrelay : s.relay = .connecting) (error : String) (cut₁ cut₂ : Option Nat) :
    ∃ handed, { s with
      relay := .unreachable
      down := (s.down.writeBoth (setupFailed r error) (exitFrame 1) cut₁ cut₂).close }.Sound r sent
        relayed handed handled := by
  obtain rfl : handed = [] := (h.passed (by simp [hrelay])).trans (h.unread hrelay)
  obtain rfl := List.prefix_nil.1 h.ofHanded
  have hunsent : ¬ s.relay.Sent := by simp [RelayExec.Sent, hrelay]
  by_cases hclient : s.client.result = none
  · obtain ⟨rest, missing, hhanded, hcarries, hmissing⟩ := h.down hclient
    obtain rfl := hmissing (.inl hrelay)
    obtain rfl : rest = [] := hhanded.symm
    obtain ⟨part, missing, hpart, hboth⟩ :=
      hcarries.writeBoth (setupFailed r error) (exitFrame_fits 1) cut₁ cut₂
    refine ⟨part, { h with
      up := fun _ => h.up (by simp [hrelay])
      unread := ?_
      passed := fun hreachable => absurd rfl hreachable
      unsent := fun _ => h.unsent hunsent
      unreachable := fun _ => ⟨error, hpart⟩
      ofHanded := List.nil_prefix
      down := fun _ => ⟨part, missing, rfl, hboth.close, by rintro (h | h) <;> cases h⟩ }⟩
    rintro ⟨⟩
  · refine ⟨[], { h with
      up := fun _ => h.up (by simp [hrelay])
      unread := ?_
      passed := fun hreachable => absurd rfl hreachable
      unsent := fun _ => h.unsent hunsent
      unreachable := fun _ => ⟨error, List.nil_prefix⟩
      down := fun hresult => absurd hresult hclient }⟩
    rintro ⟨⟩

theorem terminate :
    s.terminate.Sound r sent relayed handed handled := by
  refine h.edge h.produced.terminate (fun _ _ hcarries => hcarries.close) ?_ ?_
  · intro hwrites
    exact absurd rfl hwrites.1
  · intro hunsent
    rw [h.unsent hunsent]
    rfl

/-- The arm of an output. -/
theorem forward (hchild : s.child = some child) (hreads : s.edge.reads channel = true) (n : Nat)
    (cut : Option Nat) (hn : n ≤ chunk) :
    (s.forward child channel ((child.output channel).unread.take n) cut).Sound r
      (sent ++ [⟨channel.tag, (child.output channel).unread.take n⟩]) relayed handed handled := by
  have hproduced := h.produced
  rw [hchild] at hproduced
  have hsent : s.relay.Sent := by
    by_contra hunsent
    cases hchild.symm.trans (h.unsent hunsent)
  have hwrites : s.edge.Writes := by
    constructor <;> intro hedge <;> rw [hedge] at hreads <;> cases channel <;> cases hreads
  have hfits : (⟨channel.tag, (child.output channel).unread.take n⟩ : Frame).payload.length ≤
      maxFrame := by
    have hmax : chunk ≤ maxFrame := by decide
    exact (List.length_take_le _ _).trans (hn.trans hmax)
  simp only [Pipeline.forward, Pipe.writeFrame_of_fits hfits]
  have hnext := hproduced.forward hreads n
  split
  · next hok =>
    obtain rfl := Option.isNone_iff_eq_none.1 hok
    refine h.send hnext ?_ hwrites hsent
    intro rest hcarries
    obtain ⟨missing, hput, hall⟩ := hcarries.put hfits none
    exact ⟨missing, hput, fun _ => hall rfl⟩
  · refine h.send hnext.terminate ?_ hwrites hsent
    intro rest hcarries
    obtain ⟨missing, hput, _⟩ := hcarries.put hfits cut
    exact ⟨missing, hput.close, fun hwrites => absurd rfl hwrites.1⟩

/-- EXIT is written. -/
theorem waited (hchild : s.child = some child) {status : Option Int32}
    (hstatus : child.status = some status) (hedge : s.edge = .waiting) (cut : Option Nat) :
    { s with
      edge := .returned
      up := (s.up.writeFrame (exitFrame (status.getD (-1))) cut).1.close }.Sound r
        (sent ++ [exitFrame (status.getD (-1))]) relayed handed handled := by
  have hproduced := h.produced
  rw [hchild, hedge] at hproduced
  have hsent : s.relay.Sent := by
    by_contra hunsent
    cases hchild.symm.trans (h.unsent hunsent)
  have hnext := hproduced.waited hstatus
  rw [← hchild] at hnext
  refine h.send hnext ?_ (by simp [RunExec.Writes, hedge]) hsent
  intro rest hcarries
  obtain ⟨missing, hput, _⟩ := hcarries.put (exitFrame_fits (status.getD (-1))) cut
  rw [Pipe.writeFrame_of_fits (exitFrame_fits _)]
  exact ⟨missing, hput.close, fun hwrites => absurd rfl hwrites.1⟩

/-- The Edge tells the Client that it cannot spawn the child. -/
theorem spawnFails (hedge : s.edge = .idle) (error : String) (cut₁ cut₂ : Option Nat) :
    ∃ sent, { s with
      edge := .returned
      up := (s.up.writeBoth (spawnFailed r error) (exitFrame (-1)) cut₁ cut₂).close }.Sound r sent
        relayed handed handled := by
  obtain ⟨hchild, rfl⟩ := (hedge ▸ h.produced).of_idle
  have hrefused : ∀ part, part <+: Pipe.fitting [spawnFailed r error, exitFrame (-1)] →
      Produced r .returned s.child part := by
    intro part hpart
    rw [hchild]
    exact .refused .returned error part (.inl rfl) hpart
  by_cases hrelay : s.relay = .returned
  · exact ⟨[], { h with
      produced := hrefused [] List.nil_prefix
      up := fun hreturned => absurd hrelay hreturned }⟩
  · obtain ⟨rest, missing, hrest, hcarries, hmissing⟩ := h.up hrelay
    obtain rfl := hmissing (by simp [RunExec.Writes, hedge])
    obtain ⟨rfl, rfl⟩ := List.append_eq_nil_iff.1 hrest.symm
    obtain ⟨part, missing, hpart, hboth⟩ :=
      hcarries.writeBoth (spawnFailed r error) (exitFrame_fits (-1)) cut₁ cut₂
    exact ⟨part, { h with
      produced := hrefused part hpart
      ofSent := List.nil_prefix
      up := fun _ => ⟨part, missing, rfl, hboth.close, fun hw => absurd rfl hw.1⟩ }⟩

/-- A child that changes by itself. -/
theorem childMoves (hchild : s.child = some child) {child' : Child}
    (hproduced : Produced r s.edge (some child) sent → Produced r s.edge (some child') sent) :
    { s with child := some child' }.Sound r sent relayed handed handled := by
  refine h.edge (hproduced (hchild ▸ h.produced)) (fun _ _ hcarries => hcarries) id ?_
  intro hunsent
  cases hchild.symm.trans (h.unsent hunsent)

/-- Every step keeps the account. -/
theorem step {e : Event} (hstep : s.Step r e t) :
    ∃ sent relayed handed handled, t.Sound r sent relayed handed handled := by
  have hkeep : ∀ rest missing, s.up.Carries rest missing → s.up.Carries rest missing :=
    fun _ _ hcarries => hcarries
  cases hstep with
  | reach hrelay =>
    refine ⟨sent, relayed, handed, handled, { h with
      up := fun _ => h.up (by simp [hrelay])
      unread := ?_
      passed := fun _ => h.passed (by simp [hrelay])
      unsent := fun hunsent => absurd (.inl rfl) hunsent
      unreachable := ?_
      down := ?_ }⟩
    · rintro ⟨⟩
    · rintro ⟨⟩
    · intro hclient
      obtain ⟨rest, missing, hhanded, hcarries, hmissing⟩ := h.down hclient
      exact ⟨rest, missing, hhanded, hcarries, fun _ => hmissing (.inl hrelay)⟩
  | unreachable error cut₁ cut₂ hrelay =>
    obtain ⟨handed, hnext⟩ := h.refuse hrelay error cut₁ cut₂
    exact ⟨sent, relayed, handed, handled, hnext⟩
  | spawn hedge hsent =>
    obtain ⟨_, rfl⟩ := (hedge ▸ h.produced).of_idle
    have hstreaming : Produced r (.streaming false false) (some .spawned) [] :=
      .streaming .spawned [] false false .spawned (by simp) (by simp)
    exact ⟨_, _, _, _, h.edge hstreaming hkeep (fun _ => by simp [RunExec.Writes, hedge])
      (fun hunsent => absurd hsent hunsent)⟩
  | spawnFails error cut₁ cut₂ hedge hsent =>
    obtain ⟨sent, hnext⟩ := h.spawnFails hedge error cut₁ cut₂
    exact ⟨sent, relayed, handed, handled, hnext⟩
  | output child channel count cut hchild hreads hsome =>
    exact ⟨_, _, _, _, h.forward hchild hreads (min count chunk) cut (Nat.min_le_right _ _)⟩
  | outputEnds child channel hchild hreads hempty hclosed =>
    have hended := Produced.ended (hchild ▸ h.produced) ⟨hclosed, hempty⟩
    refine ⟨_, _, _, _, h.edge (hchild ▸ hended) hkeep ?_ h.unsent⟩
    intro _
    constructor <;> intro hedge <;> rw [hedge] at hreads <;> cases channel <;> cases hreads
  | cancelled | outputFails | waitFails => exact ⟨_, _, _, _, h.terminate⟩
  | drained hedge =>
    exact ⟨_, _, _, _, h.edge (hedge ▸ h.produced).drained hkeep
      (fun _ => by simp [RunExec.Writes, hedge]) h.unsent⟩
  | waited child status cut hchild hstatus hedge =>
    exact ⟨_, _, _, _, h.waited hchild hstatus hedge cut⟩
  | upArrives n =>
    exact ⟨_, _, _, _, h.edge h.produced (fun _ _ hcarries => hcarries.arrive n) id h.unsent⟩
  | relayPending cut hrelay hpoll =>
    refine ⟨sent, relayed, handed, handled, { h with up := ?_ }⟩
    intro hreturned
    obtain ⟨rest, missing, hsent, hcarries, hmissing⟩ := h.up hreturned
    exact ⟨rest, missing, hsent, hcarries.poll_pending hpoll, hmissing⟩
  | relay cut result hrelay hpoll =>
    obtain ⟨relayed, handed, hnext⟩ := h.relay hrelay hpoll cut
    exact ⟨sent, relayed, handed, handled, hnext⟩
  | clientLeft hrelay => exact ⟨_, _, _, _, h.hangUp (by simp [hrelay])⟩
  | relayDies hrelay =>
    exact ⟨_, _, _, _, h.hangUp (by rcases hrelay with hrelay | hrelay <;> simp [hrelay])⟩
  | downArrives n =>
    refine ⟨sent, relayed, handed, handled, { h with down := ?_ }⟩
    intro hclient
    obtain ⟨rest, missing, hhanded, hcarries, hmissing⟩ := h.down hclient
    exact ⟨rest, missing, hhanded, hcarries.arrive n, hmissing⟩
  | clientPending hclient hpoll =>
    refine ⟨sent, relayed, handed, handled, { h with down := ?_ }⟩
    intro _
    obtain ⟨rest, missing, hhanded, hcarries, hmissing⟩ := h.down hclient
    exact ⟨rest, missing, hhanded, hcarries.poll_pending hpoll, hmissing⟩
  | client result hclient hpoll =>
    obtain ⟨handled, hnext⟩ := h.client hclient hpoll
    exact ⟨sent, relayed, handed, handled, hnext⟩
  | dropped hedge hsent =>
    exact ⟨_, _, _, _, h.edge (h.produced.stop (.inl rfl)) (fun _ _ hcarries => hcarries.close)
      (fun hwrites => absurd rfl hwrites.1) h.unsent⟩
  | edgeDies hedge =>
    exact ⟨_, _, _, _, h.edge (h.produced.stop (.inr rfl)) (fun _ _ hcarries => hcarries.lose)
      (fun hwrites => absurd rfl hwrites.2) h.unsent⟩
  | upLost =>
    exact ⟨_, _, _, _, h.edge h.produced (fun _ _ hcarries => hcarries.lose) id h.unsent⟩
  | downLost =>
    refine ⟨sent, relayed, handed, handled, { h with down := ?_ }⟩
    intro hclient
    obtain ⟨rest, missing, hhanded, hcarries, hmissing⟩ := h.down hclient
    exact ⟨rest, missing, hhanded, hcarries.lose, hmissing⟩
  | clientDies hclient =>
    refine ⟨sent, relayed, handed, handled, { h with down := ?_, result := ?_ }⟩
    · rintro ⟨⟩
    · rintro code ⟨⟩
  | childWrites child channel bytes hchild hopen =>
    exact ⟨_, _, _, _, h.childMoves hchild (fun hproduced => hproduced.write hopen bytes)⟩
  | childCloses child channel hchild =>
    exact ⟨_, _, _, _, h.childMoves hchild (fun hproduced => hproduced.close channel)⟩
  | childExits child code hchild hstatus =>
    exact ⟨_, _, _, _, h.childMoves hchild (fun hproduced => hproduced.exit hstatus code)⟩

end Pipeline.Sound

theorem sound_of_reachable (h : (pipeline r).Reachable s) :
    ∃ sent relayed handed handled, s.Sound r sent relayed handed handled := by
  refine h.invariant (P := fun s => ∃ sent relayed handed handled,
    Pipeline.Sound r s sent relayed handed handled) ?_ ?_
  · rintro _ rfl
    exact ⟨[], [], [], [], .start⟩
  · rintro s t _ ⟨sent, relayed, handed, handled, hsound⟩ ⟨e, hperform⟩
    exact hsound.step (.of_perform hperform)

/-! ## A sample -/

def sampleRequest : Request := ⟨"edge", "greet"⟩

/-- The child writes "hi" and exits with code 3. -/
def sampleRun : List Event :=
  [.reach, .spawn, .childWrites .stdout [104, 105], .childCloses .stdout, .childCloses .stderr,
    .childExits (some 3), .output .stdout 10 none, .outputEnds .stdout, .outputEnds .stderr, .drained,
    .waited none, .upArrives 100, .relay none, .relay none, .downArrives 100, .client, .client]

/-- What the run leads to. -/
structure Sample (s : Pipeline) (child : Child) : Prop where
  edge : s.edge = .returned
  relay : s.relay = .returned
  up : s.up.reader.coming = []
  down : s.down.reader.coming = []
  result : s.client.result = some (.ok 3)
  printed : s.client.printed .stdout = [104, 105]
  status : child.status = some (some 3)

theorem exists_sample : ∃ s, runAll (Pipeline.perform sampleRequest) .start sampleRun = some s ∧
    (pipeline sampleRequest).Reachable s ∧ ∃ child, s.child = some child ∧ Sample s child := by
  have hrun : (runAll (Pipeline.perform sampleRequest) .start sampleRun).any (fun s =>
      s.child.any (fun child => s.edge = .returned ∧ s.relay = .returned ∧
        s.up.reader.coming = [] ∧ s.down.reader.coming = [] ∧
        s.client.result.any (fun result => result.toOption = some 3) ∧
        s.client.printed .stdout = [104, 105] ∧ child.status = some (some 3))) = true := by
    decide +kernel
  obtain ⟨s, hs, hchecked⟩ := (Option.any_eq_true _ _).1 hrun
  obtain ⟨child, hchild, hchecked⟩ := (Option.any_eq_true _ _).1 hchecked
  obtain ⟨hedge, hrelay, hup, hdown, hresult, hprinted, hstatus⟩ := of_decide_eq_true hchecked
  obtain ⟨result, hsome, hcode⟩ := (Option.any_eq_true _ _).1 hresult
  have hok : result = .ok 3 := Checked.toOption_eq_some.1 (of_decide_eq_true hcode)
  have hinit : (pipeline sampleRequest).Reachable .start := ⟨_, rfl, .refl⟩
  have hsteps : (pipeline sampleRequest).Steps .start s :=
    steps_of_runAll (fun a b e _ hperform => ⟨e, hperform⟩) hinit hs
  exact ⟨s, hs, hinit.steps hsteps, child, hchild, hedge, hrelay, hup, hdown, by rw [hsome, hok],
    hprinted, hstatus⟩

/-! ## Results -/

/-- EXIT comes last, so whoever has got it has got everything. -/
theorem complete_of_exit {part before body : List Frame} {payload : List UInt8} {code last : Int32}
    (hpart : part <+: body ++ [exitFrame last]) (hplain : ∀ frame ∈ body, frame.tag ≠ .exit)
    (hexit : part = before ++ [⟨.exit, payload⟩]) (hcode : decodeExit payload = .ok code) :
    part = body ++ [exitFrame last] ∧ code = last := by
  rcases List.prefix_concat_iff.1 hpart with hall | hshort
  · refine ⟨hall, ?_⟩
    obtain ⟨_, hlast⟩ := List.append_inj' (hexit.symm.trans hall) rfl
    have hpayload : payload = (exitFrame last).payload :=
      congrArg Frame.payload (List.cons.inj hlast).1
    rw [hpayload, decodeExit_exitFrame] at hcode
    exact (Except.ok.inj hcode).symm
  · have hmem : (⟨.exit, payload⟩ : Frame) ∈ body := hshort.subset (by simp [hexit])
    exact absurd rfl (hplain _ hmem)

/-- The text of a frame that `write_frame` does not refuse. -/
def message (frame : Frame) : List UInt8 :=
  if frame.payload.length ≤ maxFrame then frame.payload else []

/-- A Client that has been told of a failure. -/
theorem told_of_failure {handled before : List Frame} {frame : Frame} {payload : List UInt8}
    {code last : Int32} (htag : frame.tag = .stderr)
    (hpart : handled <+: Pipe.fitting [frame, exitFrame last])
    (hexit : handled = before ++ [⟨.exit, payload⟩]) (hcode : decodeExit payload = .ok code) :
    code = last ∧ outputOf .stdout handled = [] ∧ outputOf .stderr handled = message frame := by
  have hfitting : Pipe.fitting [frame, exitFrame last] =
      Pipe.fitting [frame] ++ [exitFrame last] := by
    by_cases hfits : frame.payload.length ≤ maxFrame <;> simp [Pipe.fitting, hfits, exitFrame_fits]
  rw [hfitting] at hpart
  have hplain : ∀ other ∈ Pipe.fitting [frame], other.tag ≠ .exit := by
    intro other hother
    rw [List.mem_singleton.1 (List.mem_filter.1 hother).1, htag]
    decide
  obtain ⟨rfl, rfl⟩ := complete_of_exit hpart hplain hexit hcode
  have hlast : (exitFrame code).tag = .exit := rfl
  by_cases hfits : frame.payload.length ≤ maxFrame
  · simp [Pipe.fitting, message, hfits, htag, hlast, Channel.tag]
  · simp [Pipe.fitting, message, hfits, hlast, Channel.tag]

/-- **The Client reports what the child did.** What `exec` prints is at any time a first part of what
    the child has written to each of its outputs. If `exec` returns a code, then it has printed all that
    was ever written there, and the code is the child's, or -1 if a signal ended it; or there was no
    child, it has printed the reason, and the code is -1 if the child could not be spawned and 1 if the
    Edge could not be reached. -/
theorem exec_reports_the_child (h : (pipeline r).Reachable s) :
    (∀ child, s.child = some child →
      ∀ channel, s.client.printed channel <+: (child.output channel).written) ∧
    ∀ code, s.client.result = some (.ok code) →
      (∃ child status, s.child = some child ∧ child.status = some status ∧
        code = status.getD (-1) ∧ ∀ channel, (child.output channel).closed = true ∧
          s.client.printed channel = (child.output channel).written) ∨
      s.child = none ∧ s.client.printed .stdout = [] ∧ ∃ error,
        code = -1 ∧ s.client.printed .stderr = message (spawnFailed r error) ∨
        code = 1 ∧ s.client.printed .stderr = message (setupFailed r error) := by
  obtain ⟨sent, relayed, handed, handled, hsound⟩ := sound_of_reachable h
  have hreceived : s.relay ≠ .unreachable → handled <+: sent := by
    intro hrelay
    exact (hsound.passed hrelay ▸ hsound.ofHanded).trans hsound.ofSent
  have hproduced := hsound.produced
  refine ⟨?_, ?_⟩
  · intro child hchild channel
    have hsent : s.relay ≠ .unreachable := by
      intro hrelay
      cases hchild.symm.trans (hsound.unsent (by simp [RelayExec.Sent, hrelay]))
    rw [hsound.printed]
    refine (outputOf_mono (hreceived hsent)).trans ?_
    rw [hchild] at hproduced
    generalize s.edge = edge at hproduced
    cases hproduced with
    | streaming _ _ _ _ hs | waiting _ _ hs | stopped _ _ _ _ hs => exact ⟨_, hs.output channel⟩
    | finished _ _ part status _ hs hall _ =>
      have hexit : (exitFrame (status.getD (-1))).tag ≠ channel.tag := (channel.tag_ne_exit).symm
      simp [hexit, ← hs.output channel]
  · intro code hresult
    obtain ⟨before, payload, hexit, hcode⟩ := hsound.result code hresult
    simp only [hsound.printed]
    by_cases hrelay : s.relay = .unreachable
    · obtain ⟨error, hpart⟩ := hsound.unreachable hrelay
      obtain ⟨rfl, hstdout, hstderr⟩ :=
        told_of_failure rfl (hsound.ofHanded.trans hpart) hexit hcode
      have hnone := hsound.unsent (by simp [RelayExec.Sent, hrelay])
      exact .inr ⟨hnone, hstdout, error, .inr ⟨rfl, hstderr⟩⟩
    have hpart := hreceived hrelay
    have hmem : (⟨.exit, payload⟩ : Frame) ∈ sent := hpart.subset (by simp [hexit])
    generalize hedge : s.edge = edge at hproduced
    generalize hspawned : s.child = spawned at hproduced
    cases hproduced with
    | idle => cases hmem
    | streaming _ _ _ _ hs | waiting _ _ hs | stopped _ _ _ _ hs => exact absurd rfl (hs.plain _ hmem)
    | refused _ error _ _ hrefused =>
      obtain ⟨rfl, hstdout, hstderr⟩ := told_of_failure rfl (hpart.trans hrefused) hexit hcode
      exact .inr ⟨rfl, hstdout, error, .inl ⟨rfl, hstderr⟩⟩
    | finished _ child part status _ hs hall hstatus =>
      obtain ⟨rfl, rfl⟩ := complete_of_exit hpart hs.plain hexit hcode
      refine .inl ⟨child, status, rfl, hstatus, rfl, ?_⟩
      intro channel
      have htag : (exitFrame (status.getD (-1))).tag ≠ channel.tag := (channel.tag_ne_exit).symm
      obtain ⟨hclosed, hempty⟩ := hall channel
      refine ⟨hclosed, ?_⟩
      rw [← hs.output channel, hempty]
      simp [htag]

/-- A child that wrote "hi" and exited with code 3. -/
theorem exec_reports_three : ∃ s child, (pipeline sampleRequest).Reachable s ∧ s.child = some child ∧
    s.client.result = some (.ok 3) ∧ s.client.printed .stdout = [104, 105] ∧
    (child.output .stdout).written = [104, 105] := by
  obtain ⟨s, _, hr, child, hchild, hsample⟩ := exists_sample
  rcases (exec_reports_the_child hr).2 3 hsample.result with
    ⟨child', _, hchild', _, _, hprinted⟩ | ⟨hnone, _⟩
  · cases hchild.symm.trans hchild'
    exact ⟨s, child, hr, hchild, hsample.result, hsample.printed,
      (hprinted .stdout).2.symm.trans hsample.printed⟩
  · cases hchild.symm.trans hnone

end AgentScale.Exec
