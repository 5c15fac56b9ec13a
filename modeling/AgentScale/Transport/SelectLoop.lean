import AgentScale.Library.Transition
import AgentScale.Transport.Frame

set_option autoImplicit false

/-! # Framed readers in `select!` loops

A loop around `tokio::select!` waits for several branches at once: some of them are `read_frame` on a
stream, the others anything. When one branch completes, the futures of all others are dropped, and a
`read_frame` that has taken part of a frame loses it. A run records the branches that have completed;
`Loop.Leads` is what the arms make of them. -/

namespace AgentScale.Transport

open Framing Transition

/-- What the arm of a branch comes to: the loop goes on, or the function returns. -/
inductive Verdict (σ : Type) where
  | next (state : σ)
  | stop (result : Except String Unit)

/-- A loop with framed readers `ι`, local variables `σ`, and completions `ο` of the other branches. -/
structure Loop (ι σ ο : Type) where
  initial : σ
  wire : ι → Wire
  /-- The precondition of a reader's branch. -/
  enabled : σ → ι → Bool
  /-- The arm of a reader's branch, after `frame?`. -/
  handle : σ → ι → Option Frame → Verdict σ
  /-- The arm of another branch, `none` if its precondition does not hold. -/
  other : σ → ο → Option (Verdict σ)

/-- A branch that has completed: a reader with what it has returned, or another one. -/
inductive Completed (ι ο : Type) where
  | read (i : ι) (result : Except String (Option Frame))
  | other (o : ο)

structure Running (ι σ ο : Type) where
  state : σ
  readers : ι → Reader
  /-- The branches that have completed so far. -/
  completed : List (Completed ι ο)
  stopped : Option (Except String Unit)

variable {ι σ ο : Type} [DecidableEq ι] (L : Loop ι σ ο)

def Completed.result (i : ι) : Completed ι ο → Option (Except String (Option Frame))
  | .read j result => if j = i then some result else none
  | .other _ => none

/-- What the `read_frame` of a reader has returned so far. -/
def Running.results (s : Running ι σ ο) (i : ι) : List (Except String (Option Frame)) :=
  s.completed.filterMap (Completed.result i)

/-- A branch completes: all futures are dropped, and its arm is executed. -/
def Running.conclude (s : Running ι σ ο) (c : Completed ι ο) : Verdict σ → Running ι σ ο
  | .next state => ⟨state, fun i => (s.readers i).drop, s.completed ++ [c], s.stopped⟩
  | .stop result => ⟨s.state, fun i => (s.readers i).drop, s.completed ++ [c], some result⟩

/-- The arm of a reader's branch. -/
def Loop.read (state : σ) (i : ι) : Except String (Option Frame) → Verdict σ
  | .error error => .stop (.error error)
  | .ok frame => L.handle state i frame

/-- The arm of any branch. -/
def Loop.arm (state : σ) : Completed ι ο → Option (Verdict σ)
  | .read i result => some (L.read state i result)
  | .other o => L.other state o

/-- Poll a reader. If it is ready, its branch completes. -/
def Running.poll (s : Running ι σ ο) (i : ι) : Running ι σ ο :=
  let polled := { s with
    readers := Function.update s.readers i ((s.readers i).poll (L.wire i)).1 }
  match ((s.readers i).poll (L.wire i)).2 with
  | none => polled
  | some result => polled.conclude (.read i result) (L.read s.state i result)

/-- A step of the loop or of its surroundings. `allowed` restricts when a branch may complete: that of
    a reader, or another one. -/
inductive Running.Step (allowed : Running ι σ ο → Option ι → Prop) :
    Running ι σ ο → Running ι σ ο → Prop
  | arrive (s : Running ι σ ο) (i : ι) (n : Nat) :
      Step allowed s { s with readers := Function.update s.readers i ((s.readers i).arrive n) }
  | poll (s : Running ι σ ο) (i : ι) (hrunning : s.stopped = none)
      (henabled : L.enabled s.state i = true)
      (hallowed : ((s.readers i).poll (L.wire i)).2 ≠ none → allowed s (some i)) :
      Step allowed s (s.poll L i)
  | other (s : Running ι σ ο) (o : ο) (verdict : Verdict σ) (hrunning : s.stopped = none)
      (henabled : L.other s.state o = some verdict) (hallowed : allowed s none) :
      Step allowed s (s.conclude (.other o) verdict)
  /-- An arm or a branch runs into an I/O error, and the function returns. -/
  | fail (s : Running ι σ ο) (result : Except String Unit) (hrunning : s.stopped = none) :
      Step allowed s { s with stopped := some result }

/-- The loop, with peers that write the frames `sent` and then end their stream or not. -/
def selectWhere (allowed : Running ι σ ο → Option ι → Prop) (sent : ι → List Frame)
    (closes : ι → Bool) : System (Running ι σ ο) where
  init s := s.state = L.initial ∧ (∀ i, Reader.opened (sent i) (closes i) = .ok (s.readers i)) ∧
    s.completed = [] ∧ s.stopped = none
  step := Running.Step L allowed

/-- What the arms make of the branches that have completed: the local variables, and the result of an arm
    that has returned. -/
inductive Loop.Leads : List (Completed ι ο) → σ → Option (Except String Unit) → Prop
  | start : Leads [] L.initial none
  | next {completed : List (Completed ι ο)} {state state' : σ} (c : Completed ι ο)
      (before : Leads completed state none) (arm : L.arm state c = some (.next state')) :
      Leads (completed ++ [c]) state' none
  | stop {completed : List (Completed ι ο)} {state : σ} {result : Except String Unit}
      (c : Completed ι ο) (before : Leads completed state none)
      (arm : L.arm state c = some (.stop result)) : Leads (completed ++ [c]) state (some result)

/-- The local variables are what the arms have made of the completed branches, and if an arm has returned,
    the loop has stopped with its result. -/
def Running.Accounted (s : Running ι σ ο) : Prop :=
  ∃ ended, L.Leads s.completed s.state ended ∧ (ended = none ∨ ended = s.stopped)

/-- No reader has taken part of a frame, apart from the one whose branch completes. -/
def BetweenFrames (s : Running ι σ ο) (completing : Option ι) : Prop :=
  ∀ i, completing ≠ some i → (s.readers i).taken = []

/-- The reader has handed over the first of the frames that were sent, in order and unaltered, and
    nothing else but the end of the stream after the last one. The bytes of the other frames are still
    there, and the next poll hands the next frame over if it has arrived. -/
def InSync (wire : Wire) (sent : List Frame) (r : Reader)
    (results : List (Except String (Option Frame))) : Prop :=
  ∃ handled remaining ends, sent = handled ++ remaining ∧
    results = handled.map (fun frame => .ok (some frame)) ++ List.replicate ends (.ok none) ∧
    (0 < ends → remaining = []) ∧
    r.taken ++ r.arrived ++ r.coming = remaining.flatMap encode ∧
    (∀ first later, remaining = first :: later →
      (encode first).length ≤ r.taken.length + r.arrived.length →
      (r.poll wire).2 = some (.ok (some first))) ∧
    (remaining = [] → r.closes = true → (r.poll wire).2 = some (.ok none))

/-! ## One poll -/

variable {L} {wire : Wire} {r : Reader} {remaining : List Frame}

theorem Reader.poll_eq_ready {result : Except String Frame} {rest : List UInt8}
    (h : Framing.poll (stage maxFrame) r.taken r.arrived = .ready result rest) :
    r.poll wire = ({ r with arrived := rest, taken := [] }, some (result.map some)) := by
  rw [Reader.poll, h]

theorem Reader.poll_eq_end {taken : List UInt8}
    (h : Framing.poll (stage maxFrame) r.taken r.arrived = .pending taken)
    (hend : r.closes = true ∧ r.coming = []) :
    r.poll wire = ({ r with arrived := [], taken := [] }, some (wire.atEnd taken)) := by
  rw [Reader.poll, h]
  exact if_pos hend

theorem Reader.poll_eq_wait {taken : List UInt8}
    (h : Framing.poll (stage maxFrame) r.taken r.arrived = .pending taken)
    (hend : ¬ (r.closes = true ∧ r.coming = [])) :
    r.poll wire = ({ r with arrived := [], taken := taken }, none) := by
  rw [Reader.poll, h]
  exact if_neg hend

theorem Reader.poll_closes (wire : Wire) (r : Reader) : (r.poll wire).1.closes = r.closes := by
  unfold Reader.poll
  split
  · rfl
  · split <;> rfl

/-- What a reader does that is in sync with the frames to come: hand over the next one, report the end
    of the stream after the last, or wait. -/
theorem Reader.poll_cases (wire : Wire) (h : Synced encode remaining r.taken r.arrived r.coming)
    (hall : ∀ frame ∈ remaining, Recognises (stage maxFrame) encode frame) :
    (∃ first later, remaining = first :: later ∧ (r.poll wire).2 = some (.ok (some first)) ∧
      Synced encode later (r.poll wire).1.taken (r.poll wire).1.arrived (r.poll wire).1.coming) ∨
    (remaining = [] ∧ r.closes = true ∧ (r.poll wire).2 = some (.ok none) ∧
      Synced encode [] (r.poll wire).1.taken (r.poll wire).1.arrived (r.poll wire).1.coming) ∨
    ((r.poll wire).2 = none ∧ Synced encode remaining (r.poll wire).1.taken
        (r.poll wire).1.arrived (r.poll wire).1.coming ∧
      (∀ first later, remaining = first :: later →
        r.taken.length + r.arrived.length < (encode first).length) ∧
      (remaining = [] → r.closes = false)) := by
  by_cases hshort : ∀ first later, remaining = first :: later →
      r.taken.length + r.arrived.length < (encode first).length
  · obtain ⟨hpoll, hsync⟩ := h.poll_pending hall hshort
    by_cases hend : r.closes = true ∧ r.coming = []
    · -- at the end of the stream nothing is missing, so there was no frame left
      have hnil : remaining = [] := by
        cases remaining with
        | nil => rfl
        | cons first later =>
          have hlen := congrArg List.length h.stream
          have hfirst := hshort first later rfl
          simp only [hend.2, List.append_nil, List.length_append, List.flatMap_cons] at hlen
          omega
      subst hnil
      obtain ⟨htaken, harrived, hcoming⟩ := h.nil_iff
      rw [Reader.poll_eq_end hpoll hend]
      refine .inr (.inl ⟨rfl, hend.1, ?_, ⟨hcoming, fun _ _ hnil => by cases hnil⟩⟩)
      rw [htaken, harrived]
      rfl
    · rw [Reader.poll_eq_wait hpoll hend]
      refine .inr (.inr ⟨rfl, hsync, hshort, ?_⟩)
      rintro rfl
      obtain ⟨_, _, hcoming⟩ := h.nil_iff
      simpa [hcoming] using hend
  · obtain ⟨first, later, rfl, hlen⟩ : ∃ first later, remaining = first :: later ∧
        (encode first).length ≤ r.taken.length + r.arrived.length := by
      by_contra hnone
      refine hshort (fun first later hremaining => Nat.lt_of_not_le (fun hle => hnone ?_))
      exact ⟨first, later, hremaining, hle⟩
    obtain ⟨left, hpoll, hsync⟩ := h.poll_ready hall hlen
    rw [Reader.poll_eq_ready hpoll]
    exact .inl ⟨first, later, rfl, rfl, hsync⟩

/-- What a reader has handed over and what is left of the stream make up what was sent. -/
def Progress (sent : List Frame) (r : Reader) (results : List (Except String (Option Frame))) : Prop :=
  ∃ handled remaining ends, sent = handled ++ remaining ∧
    results = handled.map (fun frame => .ok (some frame)) ++ List.replicate ends (.ok none) ∧
    (0 < ends → remaining = [] ∧ r.closes = true) ∧
    Synced encode remaining r.taken r.arrived r.coming

variable {sent : List Frame} {results : List (Except String (Option Frame))}

theorem Progress.inSync (wire : Wire) (h : Progress sent r results)
    (hall : ∀ frame ∈ sent, Recognises (stage maxFrame) encode frame) :
    InSync wire sent r results := by
  obtain ⟨handled, remaining, ends, rfl, hresults, hends, hsync⟩ := h
  have hrec : ∀ frame ∈ remaining, Recognises (stage maxFrame) encode frame :=
    fun frame hframe => hall frame (List.mem_append_right _ hframe)
  refine ⟨handled, remaining, ends, rfl, hresults, fun h => (hends h).1, hsync.stream, ?_, ?_⟩
  · rintro first later rfl hlen
    rcases Reader.poll_cases wire hsync hrec with ⟨first', later', heq, hpoll, _⟩ | ⟨heq, _⟩ |
      ⟨_, _, hshort, _⟩
    · obtain ⟨rfl, rfl⟩ := List.cons.inj heq
      exact hpoll
    · cases heq
    · exact absurd hlen (Nat.not_le.2 (hshort first later rfl))
  · rintro rfl hcloses
    rcases Reader.poll_cases wire hsync hrec with ⟨_, _, heq, _⟩ | ⟨_, _, hpoll, _⟩ | ⟨_, _, _, hopen⟩
    · cases heq
    · exact hpoll
    · rw [hopen rfl] at hcloses
      cases hcloses

theorem Progress.arrive (h : Progress sent r results) (n : Nat) :
    Progress sent (r.arrive n) results := by
  obtain ⟨handled, remaining, ends, hsent, hresults, hends, hsync⟩ := h
  exact ⟨handled, remaining, ends, hsent, hresults, hends, hsync.arrive n⟩

/-- Dropping a future that has taken nothing loses nothing. -/
theorem Progress.drop (h : Progress sent r results) (htaken : r.taken = []) :
    Progress sent r.drop results := by
  have hsame : r.drop = r := by
    rw [Reader.drop, ← htaken]
  rwa [hsame]

/-- The peer writes further frames. -/
theorem Progress.feed (h : Progress sent r results) (hopen : r.closes = false) {frames : List Frame}
    (hframes : ∀ frame ∈ frames, encode frame ≠ []) :
    Progress (sent ++ frames) { r with coming := r.coming ++ frames.flatMap encode } results := by
  obtain ⟨handled, remaining, ends, rfl, hresults, hends, hsync⟩ := h
  refine ⟨handled, remaining ++ frames, ends, by simp, hresults, fun hlt => ?_, hsync.append hframes⟩
  cases hopen.symm.trans (hends hlt).2

/-- A poll that does not complete. -/
theorem Progress.poll_pending (wire : Wire) (h : Progress sent r results)
    (hall : ∀ frame ∈ sent, Recognises (stage maxFrame) encode frame)
    (hpoll : (r.poll wire).2 = none) : Progress sent (r.poll wire).1 results := by
  obtain ⟨handled, remaining, ends, rfl, hresults, hends, hsync⟩ := h
  have hrec : ∀ frame ∈ remaining, Recognises (stage maxFrame) encode frame :=
    fun frame hframe => hall frame (List.mem_append_right _ hframe)
  rcases Reader.poll_cases wire hsync hrec with ⟨_, _, _, hready, _⟩ | ⟨_, _, hready, _⟩ |
    ⟨_, hnext, _⟩
  · rw [hready] at hpoll
    cases hpoll
  · rw [hready] at hpoll
    cases hpoll
  · refine ⟨handled, remaining, ends, rfl, hresults, ?_, hnext⟩
    rwa [Reader.poll_closes]

/-- A poll that completes hands over the next frame or the end of the stream. -/
theorem Progress.poll_ready (wire : Wire) (h : Progress sent r results)
    (hall : ∀ frame ∈ sent, Recognises (stage maxFrame) encode frame)
    {result : Except String (Option Frame)} (hpoll : (r.poll wire).2 = some result) :
    Progress sent (r.poll wire).1 (results ++ [result]) := by
  obtain ⟨handled, remaining, ends, rfl, rfl, hends, hsync⟩ := h
  have hrec : ∀ frame ∈ remaining, Recognises (stage maxFrame) encode frame :=
    fun frame hframe => hall frame (List.mem_append_right _ hframe)
  rcases Reader.poll_cases wire hsync hrec with ⟨first, later, rfl, hready, hnext⟩ |
    ⟨rfl, hcloses, hready, hnext⟩ | ⟨hready, _⟩
  · cases hready.symm.trans hpoll
    have hnoends : ends = 0 := by
      by_contra hne
      cases (hends (Nat.pos_of_ne_zero hne)).1
    subst hnoends
    refine ⟨handled ++ [first], later, 0, by simp, by simp, fun hlt => absurd hlt (by omega), hnext⟩
  · cases hready.symm.trans hpoll
    refine ⟨handled, [], ends + 1, rfl, ?_, fun _ => ⟨rfl, by rwa [Reader.poll_closes]⟩, hnext⟩
    rw [List.replicate_succ', List.append_assoc]
  · rw [hready] at hpoll
    cases hpoll

/-- A reader that is ready keeps nothing. -/
theorem Reader.poll_taken (wire : Wire) (r : Reader) (h : (r.poll wire).2 ≠ none) :
    (r.poll wire).1.taken = [] := by
  unfold Reader.poll at h ⊢
  split
  · rfl
  · split
    · rfl
    · rename_i hpoll hend
      simp [hpoll, hend] at h

/-! ## The loop -/

section Steps

variable {sent : ι → List Frame} {closes : ι → Bool} {s t : Running ι σ ο}

omit [DecidableEq ι] in
@[simp] theorem Running.conclude_readers (s : Running ι σ ο) (c : Completed ι ο) (verdict : Verdict σ) :
    (s.conclude c verdict).readers = fun i => (s.readers i).drop := by
  cases verdict <;> rfl

@[simp] theorem Running.results_readers (s : Running ι σ ο) (readers : ι → Reader) (i : ι) :
    Running.results { s with readers := readers } i = s.results i := rfl

@[simp] theorem Running.conclude_results (s : Running ι σ ο) (c : Completed ι ο) (verdict : Verdict σ)
    (i : ι) : (s.conclude c verdict).results i = s.results i ++ (c.result i).toList := by
  cases hresult : c.result i <;> cases verdict <;>
    simp [Running.results, Running.conclude, hresult]

/-- Every step whose completion meets the condition keeps all readers in sync. -/
theorem Running.Step.progress (hstep : Running.Step L BetweenFrames s t)
    (hall : ∀ i, ∀ frame ∈ sent i, Recognises (stage maxFrame) encode frame)
    (h : ∀ i, Progress (sent i) (s.readers i) (s.results i)) (j : ι) :
    Progress (sent j) (t.readers j) (t.results j) := by
  cases hstep with
  | arrive i n =>
    by_cases hj : j = i
    · subst hj
      simpa using (h j).arrive n
    · simpa [Function.update_of_ne hj] using h j
  | poll i _ _ hallowed =>
    unfold Running.poll
    cases hpoll : ((s.readers i).poll (L.wire i)).2 with
    | none =>
      by_cases hj : j = i
      · subst hj
        simpa using (h j).poll_pending (L.wire j) (hall j) hpoll
      · simpa [Function.update_of_ne hj] using h j
    | some result =>
      have hready : ((s.readers i).poll (L.wire i)).2 ≠ none := by simp [hpoll]
      simp only [conclude_readers, conclude_results]
      by_cases hj : j = i
      · subst hj
        simp only [Function.update_self, Completed.result, if_pos, Option.toList_some]
        exact ((h j).poll_ready (L.wire j) (hall j) hpoll).drop (Reader.poll_taken _ _ hready)
      · simp only [Function.update_of_ne hj, Completed.result, if_neg (Ne.symm hj)]
        have hne : (some i : Option ι) ≠ some j := fun heq => hj (Option.some.inj heq).symm
        simpa using (h j).drop (hallowed hready j hne)
  | other o verdict _ _ hallowed =>
    simp only [conclude_readers, conclude_results]
    simpa [Completed.result] using (h j).drop (hallowed j (by simp))
  | fail result _ => exact h j

/-- In every state reached by completions that all find the other readers between frames, every reader
    is in sync. -/
theorem inSync_of_reachable (hs : (selectWhere L BetweenFrames sent closes).Reachable s) (i : ι) :
    InSync (L.wire i) (sent i) (s.readers i) (s.results i) := by
  have hboth : (∀ i, ∀ frame ∈ sent i, Recognises (stage maxFrame) encode frame) ∧
      ∀ i, Progress (sent i) (s.readers i) (s.results i) := by
    refine hs.invariant (P := fun s => (∀ i, ∀ frame ∈ sent i,
      Recognises (stage maxFrame) encode frame) ∧
        ∀ i, Progress (sent i) (s.readers i) (s.results i)) ?_ ?_
    · rintro s ⟨_, hopened, hcompleted, _⟩
      refine ⟨fun i => (opened_eq_ok (hopened i)).1, fun i => ?_⟩
      have hsync := (opened_eq_ok (hopened i)).2.2
      exact ⟨[], sent i, 0, rfl, by simp [Running.results, hcompleted], fun hlt => absurd hlt (by omega),
        hsync⟩
    · rintro s t _ ⟨hall, h⟩ hstep
      exact ⟨hall, fun j => hstep.progress hall h j⟩
  exact (hboth.2 i).inSync _ (hboth.1 i)

variable {allowed : Running ι σ ο → Option ι → Prop}

omit [DecidableEq ι] in
theorem Running.Accounted.conclude {c : Completed ι ο} {verdict : Verdict σ}
    (h : s.Accounted L) (hrunning : s.stopped = none) (harm : L.arm s.state c = some verdict) :
    (s.conclude c verdict).Accounted L := by
  obtain ⟨ended, hleads, hended⟩ := h
  obtain rfl : ended = none := by
    rcases hended with hnone | hstopped
    · exact hnone
    · exact hstopped.trans hrunning
  cases verdict with
  | next state => exact ⟨none, .next c hleads harm, .inl rfl⟩
  | stop result => exact ⟨some result, .stop c hleads harm, .inr rfl⟩

theorem Running.Step.accounted (hstep : Running.Step L allowed s t) (h : s.Accounted L) :
    t.Accounted L := by
  cases hstep with
  | arrive i n => exact h
  | poll i hrunning _ _ =>
    unfold Running.poll
    cases ((s.readers i).poll (L.wire i)).2 with
    | none => exact h
    | some result => exact Running.Accounted.conclude (s := { s with readers := _ }) h hrunning rfl
  | other o verdict hrunning henabled _ => exact h.conclude hrunning henabled
  | fail result hrunning =>
    obtain ⟨ended, hleads, hended⟩ := h
    refine ⟨ended, hleads, .inl ?_⟩
    rcases hended with hnone | hstopped
    · exact hnone
    · exact hstopped.trans hrunning

omit [DecidableEq ι] in
theorem Running.accounted_of_init (hs : s.state = L.initial) (hcompleted : s.completed = []) :
    s.Accounted L := by
  refine ⟨none, ?_, .inl rfl⟩
  rw [hs, hcompleted]
  exact .start

/-- In every state the local variables are what the arms have made of the completed branches. -/
theorem accounted_of_reachable (hs : (selectWhere L allowed sent closes).Reachable s) :
    s.Accounted L := by
  refine hs.invariant ?_ ?_
  · rintro s ⟨hstate, _, hcompleted, _⟩
    exact Running.accounted_of_init hstate hcompleted
  · rintro s t _ h hstep
    exact hstep.accounted h

/-- A step leaves the local variables as they are, or they are what an arm has made of them. -/
theorem Running.Step.state (hstep : Running.Step L allowed s t) :
    t.state = s.state ∨ ∃ c, L.arm s.state c = some (.next t.state) := by
  have hconclude : ∀ (s : Running ι σ ο) (c : Completed ι ο) (verdict : Verdict σ),
      L.arm s.state c = some verdict → (s.conclude c verdict).state = s.state ∨
        ∃ d, L.arm s.state d = some (.next (s.conclude c verdict).state) := by
    intro s c verdict harm
    cases verdict with
    | next state => exact .inr ⟨c, harm⟩
    | stop result => exact .inl rfl
  cases hstep with
  | arrive i n => exact .inl rfl
  | poll i =>
    unfold Running.poll
    cases ((s.readers i).poll (L.wire i)).2 with
    | none => exact .inl rfl
    | some result =>
      exact hconclude { s with readers := Function.update s.readers i _ } (.read i result) _ rfl
  | other o verdict _ henabled => exact hconclude s (.other o) verdict henabled
  | fail result => exact .inl rfl

theorem Running.Step.readers_closes (hstep : Running.Step L allowed s t) (j : ι) :
    (t.readers j).closes = (s.readers j).closes := by
  have hupdate : ∀ i r, r.closes = (s.readers i).closes →
      (Function.update s.readers i r j).closes = (s.readers j).closes := by
    intro i r hr
    by_cases hj : j = i
    · rw [hj, Function.update_self, hr]
    · rw [Function.update_of_ne hj]
  cases hstep with
  | arrive i n => exact hupdate i _ rfl
  | poll i =>
    have hpolled := hupdate i _ (Reader.poll_closes (L.wire i) (s.readers i))
    unfold Running.poll
    cases ((s.readers i).poll (L.wire i)).2 with
    | none => exact hpolled
    | some result =>
      rw [Running.conclude_readers]
      exact hpolled
  | other o verdict =>
    rw [Running.conclude_readers]
    rfl
  | fail result => rfl

/-- Once the function has returned, its local variables stay as they are. -/
theorem state_of_stopped (hst : (selectWhere L allowed sent closes).Steps s t) (hs : s.stopped ≠ none) :
    t.state = s.state := by
  have hboth : t.state = s.state ∧ t.stopped ≠ none := by
    induction hst with
    | refl => exact ⟨rfl, hs⟩
    | tail _ hstep ih =>
      obtain ⟨hstate, hstopped⟩ := ih
      cases hstep with
      | arrive i n => exact ⟨hstate, hstopped⟩
      | poll i hrunning => exact absurd hrunning hstopped
      | other o verdict hrunning => exact absurd hrunning hstopped
      | fail result hrunning => exact absurd hrunning hstopped
  exact hboth.1

end Steps

/-! ## Runs of a loop with one reader -/

inductive LoopEvent (ο : Type) where
  | arrive (n : Nat)
  | poll
  | other (o : ο)

/-- Perform an event, if it is possible between frames. -/
def Running.perform (L : Loop Unit σ ο) (s : Running Unit σ ο) : LoopEvent ο → Option (Running Unit σ ο)
  | .arrive n => some { s with readers := Function.update s.readers () ((s.readers ()).arrive n) }
  | .poll => if s.stopped = none ∧ L.enabled s.state () = true then some (s.poll L ()) else none
  | .other o =>
    if s.stopped = none ∧ (s.readers ()).taken = [] then
      (L.other s.state o).map (s.conclude (.other o))
    else none

theorem Running.step_of_perform {L : Loop Unit σ ο} {s t : Running Unit σ ο} {e : LoopEvent ο}
    (h : s.perform L e = some t) : Running.Step L BetweenFrames s t := by
  cases e with
  | arrive n => exact Option.some.inj h ▸ .arrive s () n
  | poll =>
    obtain ⟨⟨hrunning, henabled⟩, hsome⟩ := Option.ite_none_right_eq_some.1 h
    exact Option.some.inj hsome ▸ .poll s () hrunning henabled (fun _ i hi => absurd rfl hi)
  | other o =>
    obtain ⟨⟨hrunning, htaken⟩, hsome⟩ := Option.ite_none_right_eq_some.1 h
    obtain ⟨verdict, hother, rfl⟩ := Option.map_eq_some_iff.1 hsome
    exact .other s o verdict hrunning hother (fun _ _ => htaken)

/-- A state that is computed and passes a check is reachable. -/
theorem Loop.exists_reachable (L : Loop Unit σ ο) {sent : Unit → List Frame} {closes : Unit → Bool}
    {s : Running Unit σ ο} (hs : (selectWhere L BetweenFrames sent closes).init s)
    (events : List (LoopEvent ο)) (check : Running Unit σ ο → Bool)
    (h : (runAll (Running.perform L) s events).any check = true) :
    ∃ t, (selectWhere L BetweenFrames sent closes).Reachable t ∧ check t = true :=
  Transition.exists_reachable (fun _ _ _ => Running.step_of_perform) hs h

end AgentScale.Transport
