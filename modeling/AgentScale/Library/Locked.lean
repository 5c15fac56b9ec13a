import AgentScale.Library.Transition
import Mathlib.Logic.Function.Basic

set_option autoImplicit false

/-! # A value behind a lock

Any number of processes work on one stored value. A call takes a lock, loads the value, computes what to
store and what to answer, stores and lets go of the lock. The lock is shared by calls that store nothing
and exclusive for the others. A process may give up a call at any point, by an error or because it is
killed; its lock is released then.

The calls that have stored something form a history. `Linear` says that the value is the one this history
leads to, and that every answer is the one a call gives at some moment between its start and its end, in
this history. It holds in every reachable state (`linear_of_reachable`). -/

namespace Locked

open Transition

variable {ι ν ω ρ : Type*}

/-- What calls do: the value to store, if any, and the answer. -/
structure Calls (ν ω ρ : Type*) where
  run : ω → ν → Option ν × ρ
  exclusive : ω → Bool
  stores_exclusive : ∀ op v, exclusive op = false → (run op v).1 = none

/-- Where a process is in a call. `since` is the length of the history when the call started. -/
inductive Stage (ν ω ρ : Type*) where
  | idle
  | called (op : ω) (since : Nat)
  | holding (op : ω) (since : Nat)
  | loaded (op : ω) (since : Nat) (value : ν)
  /-- The new value is stored; the call is number `pos` of the history. -/
  | stored (op : ω) (since pos : Nat) (answer : ρ)

/-- The call that holds the lock. -/
def Stage.holds : Stage ν ω ρ → Option ω
  | .holding op _ | .loaded op _ _ | .stored op _ _ _ => some op
  | .idle | .called _ _ => none

/-- A call that has been answered, as of `pos` calls of the history. -/
structure Answer (ω ρ : Type*) where
  op : ω
  since : Nat
  pos : Nat
  answer : ρ

structure State (ι ν ω ρ : Type*) where
  value : ν
  stage : ι → Stage ν ω ρ
  history : List ω
  answers : List (Answer ω ρ)

variable (C : Calls ν ω ρ)

/-- The value after a call that is not disturbed. -/
def Calls.next (v : ν) (op : ω) : ν := (C.run op v).1.getD v

/-- The value after a history. -/
def Calls.replay (v : ν) (history : List ω) : ν := history.foldl C.next v

/-- The lock is free for a call. -/
def State.Free (s : State ι ν ω ρ) (i : ι) (op : ω) : Prop :=
  ∀ j, j ≠ i → ∀ other, (s.stage j).holds = some other →
    C.exclusive op = false ∧ C.exclusive other = false

variable [DecidableEq ι]

def State.move (s : State ι ν ω ρ) (i : ι) (stage : Stage ν ω ρ) : State ι ν ω ρ :=
  { s with stage := Function.update s.stage i stage }

inductive Step : State ι ν ω ρ → State ι ν ω ρ → Prop
  | call (s : State ι ν ω ρ) (i : ι) (op : ω) (h : s.stage i = .idle) :
      Step s (s.move i (.called op s.history.length))
  | acquire (s : State ι ν ω ρ) (i : ι) (op : ω) (since : Nat) (h : s.stage i = .called op since)
      (hfree : s.Free C i op) : Step s (s.move i (.holding op since))
  | load (s : State ι ν ω ρ) (i : ι) (op : ω) (since : Nat) (h : s.stage i = .holding op since) :
      Step s (s.move i (.loaded op since s.value))
  | reply (s : State ι ν ω ρ) (i : ι) (op : ω) (since : Nat) (v : ν)
      (h : s.stage i = .loaded op since v) (hnone : (C.run op v).1 = none) :
      Step s { s.move i .idle with
        answers := ⟨op, since, s.history.length, (C.run op v).2⟩ :: s.answers }
  | store (s : State ι ν ω ρ) (i : ι) (op : ω) (since : Nat) (v w : ν)
      (h : s.stage i = .loaded op since v) (hsome : (C.run op v).1 = some w) :
      Step s { s.move i (.stored op since s.history.length (C.run op v).2) with
        value := w, history := s.history ++ [op] }
  | acknowledge (s : State ι ν ω ρ) (i : ι) (op : ω) (since pos : Nat) (answer : ρ)
      (h : s.stage i = .stored op since pos answer) :
      Step s { s.move i .idle with answers := ⟨op, since, pos, answer⟩ :: s.answers }
  | abandon (s : State ι ν ω ρ) (i : ι) : Step s (s.move i .idle)

/-- Processes that start with a given value. -/
def system (ι : Type*) [DecidableEq ι] (init : ν) : System (State ι ν ω ρ) where
  init s := s = ⟨init, fun _ => .idle, [], []⟩
  step := Step C

/-! ## The history -/

/-- The answer of a call as number `pos` of a history, or after the first `pos` calls of it if it stores
    nothing. -/
structure Answer.Fits (init : ν) (history : List ω) (a : Answer ω ρ) : Prop where
  since_le : a.since ≤ a.pos
  pos_le : a.pos ≤ history.length
  answer : a.answer = (C.run a.op (C.replay init (history.take a.pos))).2
  stored : (C.run a.op (C.replay init (history.take a.pos))).1.isSome = true →
    history[a.pos]? = some a.op

variable {C} {init : ν} {s t : State ι ν ω ρ} {history : List ω}

theorem Calls.replay_snoc (op : ω) :
    C.replay init (history ++ [op]) = C.next (C.replay init history) op := by
  simp [Calls.replay]

theorem Answer.Fits.snoc {a : Answer ω ρ} (h : a.Fits C init history) (op : ω) :
    a.Fits C init (history ++ [op]) := by
  have htake : (history ++ [op]).take a.pos = history.take a.pos :=
    List.take_append_of_le_length h.pos_le
  refine ⟨h.since_le, Nat.le_trans h.pos_le (by simp), by rw [htake]; exact h.answer, ?_⟩
  intro hsome
  rw [htake] at hsome
  have hstored := h.stored hsome
  obtain ⟨hlt, _⟩ := List.getElem?_eq_some_iff.1 hstored
  rw [List.getElem?_append_left hlt]
  exact hstored

/-- Every call of a history has stored something in its turn. -/
inductive Legal (C : Calls ν ω ρ) (init : ν) : List ω → Prop
  | nil : Legal C init []
  | snoc (history : List ω) (op : ω) (hlegal : Legal C init history)
      (hstores : (C.run op (C.replay init history)).1.isSome = true) : Legal C init (history ++ [op])

/-- The first calls of a history. -/
theorem Legal.take (h : Legal C init history) (n : Nat) : Legal C init (history.take n) := by
  induction h with
  | nil => simpa using Legal.nil
  | snoc history op hlegal hstores ih =>
    by_cases hn : n ≤ history.length
    · rwa [List.take_append_of_le_length hn]
    · rw [List.take_of_length_le (by simp; omega)]
      exact .snoc history op hlegal hstores

/-- What a stage says about the history. -/
def Stage.Fits (init v : ν) (history : List ω) : Stage ν ω ρ → Prop
  | .idle => True
  | .called _ since | .holding _ since => since ≤ history.length
  | .loaded _ since w => since ≤ history.length ∧ w = v
  | .stored op since pos answer => (⟨op, since, pos, answer⟩ : Answer ω ρ).Fits C init history

/-- The value is that of the history, every answer fits into it, and an exclusive call is alone. -/
structure Linear (C : Calls ν ω ρ) (init : ν) (s : State ι ν ω ρ) : Prop where
  value : s.value = C.replay init s.history
  legal : Legal C init s.history
  answers : ∀ a ∈ s.answers, a.Fits C init s.history
  stages : ∀ i, (s.stage i).Fits (C := C) init s.value s.history
  alone : ∀ i op, (s.stage i).holds = some op → s.Free C i op

theorem State.move_stage (i j : ι) (stage : Stage ν ω ρ) :
    (s.move i stage).stage j = if j = i then stage else s.stage j := by
  simp [State.move, Function.update_apply]

/-- A process that moves without storing. -/
theorem Linear.move (h : Linear C init s) (i : ι) {stage : Stage ν ω ρ}
    (hfits : stage.Fits (C := C) init s.value s.history)
    (hholds : ∀ op, stage.holds = some op → s.Free C i op) : Linear C init (s.move i stage) where
  __ := h
  stages j := by
    rw [State.move_stage]
    split
    · exact hfits
    · exact h.stages j
  alone j op hop k hk other hother := by
    rw [State.move_stage] at hop hother
    by_cases hj : j = i
    · subst hj
      rw [if_pos rfl] at hop
      rw [if_neg hk] at hother
      exact hholds op hop k hk other hother
    · rw [if_neg hj] at hop
      by_cases hk' : k = i
      · -- the call that moves was given the lock beside the other one
        subst hk'
        rw [if_pos rfl] at hother
        exact (hholds other hother j hj op hop).symm
      · rw [if_neg hk'] at hother
        exact h.alone j op hop k hk other hother

omit [DecidableEq ι] in
theorem Linear.record (h : Linear C init s) {a : Answer ω ρ} (ha : a.Fits C init s.history) :
    Linear C init { s with answers := a :: s.answers } := by
  refine { h with answers := ?_ }
  intro b hb
  rcases List.mem_cons.1 hb with rfl | hb
  · exact ha
  · exact h.answers b hb

/-- A call stores: it is alone, so nobody else has loaded the value. -/
theorem Linear.store (h : Linear C init s) {i : ι} {op : ω} {since : Nat} {v w : ν}
    (hi : s.stage i = .loaded op since v) (hsome : (C.run op v).1 = some w) :
    Linear C init { s.move i (.stored op since s.history.length (C.run op v).2) with
      value := w, history := s.history ++ [op] } := by
  obtain ⟨hsince, rfl⟩ : since ≤ s.history.length ∧ v = s.value := by
    simpa [hi, Stage.Fits] using h.stages i
  have hexclusive : C.exclusive op = true := by
    by_contra hshared
    cases hsome.symm.trans (C.stores_exclusive op s.value (by simpa using hshared))
  have halone : ∀ j, j ≠ i → (s.stage j).holds = none := by
    intro j hj
    by_contra hholds
    obtain ⟨other, hother⟩ := Option.ne_none_iff_exists'.1 hholds
    have hboth := h.alone i op (by rw [hi]; rfl) j hj other hother
    rw [hexclusive] at hboth
    cases hboth.1
  have hfits : (⟨op, since, s.history.length, (C.run op s.value).2⟩ : Answer ω ρ).Fits C init
      (s.history ++ [op]) := by
    refine ⟨hsince, by simp, ?_, ?_⟩
    · simp [h.value]
    · simp
  have hlegal : Legal C init (s.history ++ [op]) :=
    .snoc s.history op h.legal (by rw [← h.value, hsome]; rfl)
  refine ⟨?_, hlegal, fun a ha => (h.answers a ha).snoc op, ?_, ?_⟩
  · rw [Calls.replay_snoc, ← h.value, Calls.next, hsome]
    rfl
  · intro j
    simp only [State.move_stage]
    split
    · exact hfits
    · next hj =>
      -- the others have not got the lock, so they have not loaded anything
      have hstage := h.stages j
      have hnone := halone j hj
      cases hstage' : s.stage j with
      | idle => trivial
      | called op' since' =>
        rw [hstage'] at hstage
        exact Nat.le_trans hstage (by simp)
      | holding | loaded | stored => simp [hstage', Stage.holds] at hnone
  · intro j op' hop k hk other hother
    simp only [State.move_stage] at hop hother
    by_cases hj : j = i
    · subst hj
      rw [if_neg hk, halone k hk] at hother
      cases hother
    · rw [if_neg hj, halone j hj] at hop
      cases hop

theorem Linear.step (h : Linear C init s) (hstep : Step C s t) : Linear C init t := by
  cases hstep with
  | call i op hi =>
    refine h.move i (Nat.le_refl _) ?_
    rintro _ ⟨⟩
  | acquire i op since hi hfree =>
    have hfits : since ≤ s.history.length := by simpa [hi, Stage.Fits] using h.stages i
    refine h.move i hfits ?_
    rintro _ ⟨⟩
    exact hfree
  | load i op since hi =>
    have hfits : since ≤ s.history.length := by simpa [hi, Stage.Fits] using h.stages i
    refine h.move i ⟨hfits, rfl⟩ ?_
    rintro _ ⟨⟩
    exact h.alone i op (by rw [hi]; rfl)
  | reply i op since v hi hnone =>
    obtain ⟨hsince, rfl⟩ : since ≤ s.history.length ∧ v = s.value := by
      simpa [hi, Stage.Fits] using h.stages i
    have hmoved : Linear C init (s.move i .idle) := h.move i trivial (by rintro _ ⟨⟩)
    refine hmoved.record ⟨hsince, Nat.le_refl _, ?_, ?_⟩
    · simp [State.move, h.value]
    · simp [State.move, ← h.value, hnone]
  | store i op since v w hi hsome => exact h.store hi hsome
  | acknowledge i op since pos answer hi =>
    have hfits : (⟨op, since, pos, answer⟩ : Answer ω ρ).Fits C init s.history := by
      simpa [hi, Stage.Fits] using h.stages i
    have hmoved : Linear C init (s.move i .idle) := h.move i trivial (by rintro _ ⟨⟩)
    exact hmoved.record hfits
  | abandon i => exact h.move i trivial (by rintro _ ⟨⟩)

theorem linear_of_reachable (h : (system C ι init).Reachable s) : Linear C init s := by
  refine h.invariant (P := Linear C init) ?_ (fun a b _ ha hab => ha.step hab)
  rintro _ rfl
  refine ⟨rfl, .nil, by simp, fun _ => trivial, ?_⟩
  rintro _ _ ⟨⟩

/-- A call that finds the lock free and is not disturbed is answered. -/
theorem exists_answered (h : (system C ι init).Reachable s) (i : ι) (op : ω) (hidle : s.stage i = .idle)
    (hfree : s.Free C i op) :
    ∃ t, (system C ι init).Reachable t ∧ t.stage = s.stage ∧ t.value = C.next s.value op ∧
      t.history = s.history ++ (if (C.run op s.value).1.isSome then [op] else []) ∧
      t.answers = ⟨op, s.history.length, s.history.length, (C.run op s.value).2⟩ :: s.answers := by
  have hself : Function.update s.stage i .idle = s.stage := by
    rw [← hidle]
    exact Function.update_eq_self i s.stage
  have hcalled := h.step (.call s i op hidle)
  have hheld := hcalled.step (.acquire _ i op s.history.length (by simp [State.move]) (by
    intro j hj other hother
    rw [State.move_stage, if_neg hj] at hother
    exact hfree j hj other hother))
  have hloaded := hheld.step (.load _ i op s.history.length (by simp [State.move]))
  cases hrun : (C.run op s.value).1 with
  | none =>
    refine ⟨_, hloaded.step (.reply _ i op s.history.length s.value (by simp [State.move]) hrun),
      ?_, ?_, ?_, rfl⟩
    · simpa [State.move] using hself
    · simp [State.move, Calls.next, hrun]
    · simp [State.move]
  | some w =>
    have hstored := hloaded.step
      (.store _ i op s.history.length s.value w (by simp [State.move]) hrun)
    refine ⟨_, hstored.step (.acknowledge _ i op s.history.length s.history.length
      (C.run op s.value).2 (by simp [State.move])), ?_, ?_, ?_, rfl⟩
    · simpa [State.move] using hself
    · simp [State.move, Calls.next, hrun]
    · simp [State.move]

end Locked
