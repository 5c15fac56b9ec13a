import Mathlib.Algebra.Ring.Nat
import Mathlib.Logic.Relation

set_option autoImplicit false

/-! # Transition systems

A system is a predicate of initial states and a step relation. `Reachable` is what any finite run of
steps reaches. Two rules carry every safety argument: an inductive invariant holds in every reachable
state (`Reachable.invariant`), and a fact that every step keeps, once established, holds from then on
(`Steps.preserves`). A run can be computed from a list of events (`steps_of_runAll`). A simulation
transports reachability to a more abstract system (`Simulation.reachable`). -/

namespace Transition

/-- Initial states and steps. -/
structure System (σ : Type*) where
  init : σ → Prop
  step : σ → σ → Prop

variable {σ τ : Type*}

/-- Any finite number of steps. -/
abbrev System.Steps (S : System σ) : σ → σ → Prop := Relation.ReflTransGen S.step

/-- A state that some run from an initial state reaches. -/
def System.Reachable (S : System σ) (s : σ) : Prop := ∃ s₀, S.init s₀ ∧ S.Steps s₀ s

variable {S : System σ} {s t : σ}

theorem System.Reachable.step (h : S.Reachable s) (hst : S.step s t) : S.Reachable t := by
  obtain ⟨s₀, h0, hs⟩ := h
  exact ⟨s₀, h0, hs.tail hst⟩

theorem System.Reachable.steps (h : S.Reachable s) (hst : S.Steps s t) : S.Reachable t := by
  obtain ⟨s₀, h0, hs⟩ := h
  exact ⟨s₀, h0, hs.trans hst⟩

/-- A fact kept by every step from a reachable state holds at the end of a run. -/
theorem System.Steps.preserves {P : σ → Prop} (hst : S.Steps s t) (hr : S.Reachable s)
    (hstep : ∀ a b, S.Reachable a → P a → S.step a b → P b) (hs : P s) : P t := by
  have hboth : S.Reachable t ∧ P t := by
    induction hst with
    | refl => exact ⟨hr, hs⟩
    | tail _ hab ih => exact ⟨ih.1.step hab, hstep _ _ ih.1 ih.2 hab⟩
  exact hboth.2

/-- An inductive invariant holds in every reachable state. -/
theorem System.Reachable.invariant {P : σ → Prop} (h : S.Reachable s)
    (hinit : ∀ a, S.init a → P a) (hstep : ∀ a b, S.Reachable a → P a → S.step a b → P b) : P s := by
  obtain ⟨s₀, h0, hs⟩ := h
  exact System.Steps.preserves hs ⟨s₀, h0, .refl⟩ hstep (hinit s₀ h0)

/-! ## Runs that are computed -/

/-- Perform events in order, as long as each of them is possible. -/
def runAll {ε : Type*} (perform : σ → ε → Option σ) : σ → List ε → Option σ
  | s, [] => some s
  | s, e :: rest => (perform s e).bind (fun t => runAll perform t rest)

/-- When every performed event is a step, a performed list of events is a run. -/
theorem steps_of_runAll {ε : Type*} {perform : σ → ε → Option σ}
    (hperform : ∀ a b e, S.Reachable a → perform a e = some b → S.step a b) {events : List ε}
    (hr : S.Reachable s) (h : runAll perform s events = some t) : S.Steps s t := by
  induction events generalizing s with
  | nil => exact Option.some.inj h ▸ .refl
  | cons e rest ih =>
    obtain ⟨a, hfirst, hrest⟩ := Option.bind_eq_some_iff.1 h
    have hstep := hperform s a e hr hfirst
    exact .head hstep (ih (hr.step hstep) hrest)

/-- A state that is computed and passes a check is reachable. -/
theorem exists_reachable {ε : Type*} {perform : σ → ε → Option σ}
    (hperform : ∀ a b e, perform a e = some b → S.step a b) (hinit : S.init s) {events : List ε}
    {check : σ → Bool} (h : (runAll perform s events).any check = true) :
    ∃ t, S.Reachable t ∧ check t = true := by
  obtain ⟨t, hrun, hcheck⟩ := (Option.any_eq_true _ _).1 h
  have hs : S.Reachable s := ⟨s, hinit, .refl⟩
  exact ⟨t, hs.steps (steps_of_runAll (fun a b e _ => hperform a b e) hs hrun), hcheck⟩

/-- A bound on the length of a run. From a state with the invariant, each event that counts takes at
    least one from the weight of the state, and each event adds at most its cost. -/
theorem count_of_runAll {ε : Type*} {perform : σ → ε → Option σ} {weight : σ → Nat} {cost : ε → Nat}
    {counts : ε → Bool} {I : σ → Prop} (hstep : ∀ a b e, I a → perform a e = some b →
      I b ∧ weight b + (if counts e then 1 else 0) ≤ weight a + cost e) {events : List ε} (hs : I s)
    (h : runAll perform s events = some t) :
    weight t + events.countP counts ≤ weight s + (events.map cost).sum := by
  induction events generalizing s with
  | nil => simp [Option.some.inj h]
  | cons e rest ih =>
    obtain ⟨a, hfirst, hrest⟩ := Option.bind_eq_some_iff.1 h
    obtain ⟨ha, hle⟩ := hstep s a e hs hfirst
    have hlater := ih ha hrest
    rw [List.countP_cons, List.map_cons, List.sum_cons]
    omega

/-! ## Simulations -/

/-- Every step of the concrete system `S` is matched by a run of the abstract system `A`. -/
structure Simulation (S : System σ) (A : System τ) (R : σ → τ → Prop) : Prop where
  init : ∀ s, S.init s → ∃ a, A.init a ∧ R s a
  step : ∀ s t a, S.Reachable s → A.Reachable a → R s a → S.step s t → ∃ b, A.Steps a b ∧ R t b

theorem Simulation.reachable {A : System τ} {R : σ → τ → Prop} (h : Simulation S A R)
    (hs : S.Reachable s) : ∃ a, A.Reachable a ∧ R s a := by
  refine hs.invariant (P := fun s => ∃ a, A.Reachable a ∧ R s a) ?_ ?_
  · intro s hs
    obtain ⟨a, ha, hra⟩ := h.init s hs
    exact ⟨a, ⟨a, ha, .refl⟩, hra⟩
  · rintro s t hrs ⟨a, hra, hsa⟩ hst
    obtain ⟨b, hab, hrb⟩ := h.step s t a hrs hra hsa hst
    exact ⟨b, hra.steps hab, hrb⟩

/-- A run of the concrete system is matched by a run of the abstract one. -/
theorem Simulation.steps {A : System τ} {R : σ → τ → Prop} {a : τ} (h : Simulation S A R)
    (hs : S.Reachable s) (ha : A.Reachable a) (hsa : R s a) (hst : S.Steps s t) :
    ∃ b, A.Steps a b ∧ R t b := by
  refine System.Steps.preserves (P := fun t => ∃ b, A.Steps a b ∧ R t b) hst hs ?_ ⟨a, .refl, hsa⟩
  rintro t u ht ⟨b, hab, htb⟩ htu
  obtain ⟨c, hbc, huc⟩ := h.step t u b ht (ha.steps hab) htb htu
  exact ⟨c, hab.trans hbc, huc⟩

end Transition
