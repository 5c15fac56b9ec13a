import Mathlib.Algebra.Group.Int.Defs
import Mathlib.Algebra.Group.Nat.Defs
import Mathlib.Order.MinMax
import Mathlib.Tactic.Common

set_option autoImplicit false

/-! # Checked computations and bounded integers

`Except` is the result type of every fallible computation. `ensure` is the guard that fails with a
given error; `of_bind` peels a successful computation apart step by step and `bind_ok` puts one
together, so that a proof about a long `do` block never has to unfold the monad.

The fixed-width integers are kept as `Nat` and `Int`; the arithmetic that observes the width is
written out (`U64.checkedAdd`, `U64.saturatingAdd`, `I64.saturatingAdd`, `I64.saturatingSub`). -/

namespace Checked

variable {ε ε' α β : Type}

/-- Fail with `e` unless `p` holds. -/
def ensure (p : Prop) [Decidable p] (e : ε) : Except ε Unit :=
  if p then .ok () else .error e

@[simp] theorem ensure_eq_ok {p : Prop} [Decidable p] {e : ε} {u : Unit} :
    ensure p e = .ok u ↔ p := by
  unfold ensure
  by_cases hp : p
  · simp [hp]
  · simp [hp]

theorem ensure_of {p : Prop} [Decidable p] {e : ε} (hp : p) : ensure p e = .ok () :=
  ensure_eq_ok.2 hp

variable {f : α → Except ε β} {x : Except ε α}

/-- A successful sequence is a success followed by a success. -/
theorem bind_eq_ok {b : β} :
    (x >>= f) = .ok b ↔ ∃ a, x = .ok a ∧ f a = .ok b := by
  cases x with
  | error e => simp [bind, Except.bind]
  | ok a => simp [bind, Except.bind]

theorem of_bind {b : β} (h : (x >>= f) = .ok b) :
    ∃ a, x = .ok a ∧ f a = .ok b :=
  bind_eq_ok.1 h

variable {a : α}

theorem bind_ok {b : β} (hx : x = .ok a) (h : f a = .ok b) : (x >>= f) = .ok b :=
  bind_eq_ok.2 ⟨a, hx, h⟩

@[simp] theorem pure_eq_ok {a b : α} : (pure a : Except ε α) = .ok b ↔ a = b := by
  simp [pure, Except.pure]

@[simp] theorem ok_bind : ((Except.ok a : Except ε α) >>= f) = f a := rfl

@[simp] theorem error_bind {e : ε} :
    ((Except.error e : Except ε α) >>= f) = .error e := rfl

/-- The value of an optional computation, or the given error. -/
def okOr (o : Option α) (e : ε) : Except ε α :=
  match o with
  | some a => .ok a
  | none => .error e

@[simp] theorem okOr_eq_ok {o : Option α} {e : ε} : okOr o e = .ok a ↔ o = some a := by
  cases o with
  | none => simp [okOr]
  | some b => simp [okOr]

theorem map_eq_ok {g : α → β} {b : β} (h : x.map g = .ok b) : ∃ a, x = .ok a ∧ b = g a := by
  cases x with
  | error e => exact absurd h (by simp [Except.map])
  | ok a => exact ⟨a, rfl, (Except.ok.inj h).symm⟩

@[simp] theorem mapError_eq_ok {f : ε → ε'} :
    x.mapError f = .ok a ↔ x = .ok a := by
  cases x with
  | error e => simp [Except.mapError]
  | ok b => simp [Except.mapError]

theorem toOption_eq_some : x.toOption = some a ↔ x = .ok a := by
  cases x with
  | error e => simp [Except.toOption]
  | ok b => simp [Except.toOption]

theorem mapM_cons_eq_ok {l : List α} {bs : List β} :
    (a :: l).mapM f = .ok bs ↔ ∃ b rest, f a = .ok b ∧ l.mapM f = .ok rest ∧ bs = b :: rest := by
  rw [List.mapM_cons, bind_eq_ok]
  constructor
  · rintro ⟨b, hb, h⟩
    obtain ⟨rest, hrest, h⟩ := of_bind h
    exact ⟨b, rest, hb, hrest, (pure_eq_ok.1 h).symm⟩
  · rintro ⟨b, rest, hb, hrest, rfl⟩
    exact ⟨b, hb, bind_ok hrest rfl⟩

/-- A loop succeeds when all its computations do. -/
theorem mapM_eq_ok {l : List α} :
    (∃ bs, l.mapM f = .ok bs) ↔ ∀ a ∈ l, ∃ b, f a = .ok b := by
  induction l with
  | nil => exact ⟨fun _ => by simp, fun _ => ⟨[], rfl⟩⟩
  | cons a rest ih =>
    rw [List.forall_mem_cons, ← ih]
    constructor
    · rintro ⟨_, h⟩
      obtain ⟨b, bs, hb, hbs, _⟩ := mapM_cons_eq_ok.1 h
      exact ⟨⟨b, hb⟩, bs, hbs⟩
    · rintro ⟨⟨b, hb⟩, bs, hbs⟩
      exact ⟨b :: bs, mapM_cons_eq_ok.2 ⟨b, bs, hb, hbs, rfl⟩⟩

/-- Run `f` over a list, threading the accumulator and stopping at the first error. -/
def foldAll {σ : Type} (f : σ → α → Except ε σ) : σ → List α → Except ε σ
  | s, [] => .ok s
  | s, a :: rest => f s a >>= fun s' => foldAll f s' rest

/-- What each step of `foldAll` keeps, of the elements so far, holds of the whole list. -/
theorem foldAll_induct {σ : Type} {f : σ → α → Except ε σ} {xs : List α} (P : List α → σ → Prop)
    (hstep : ∀ seen, ∀ a ∈ xs, ∀ s s', P seen s → f s a = .ok s' → P (seen ++ [a]) s')
    (seen : List α) {s s' : σ} (hs : P seen s) (h : foldAll f s xs = .ok s') : P (seen ++ xs) s' := by
  induction xs generalizing seen s with
  | nil =>
    rw [List.append_nil, ← Except.ok.inj h]
    exact hs
  | cons a xs ih =>
    obtain ⟨t, ht, h⟩ := of_bind h
    rw [← List.singleton_append, ← List.append_assoc]
    exact ih (fun seen b hb => hstep seen b (List.mem_cons_of_mem _ hb)) _
      (hstep seen a List.mem_cons_self s t hs ht) h

end Checked

/-! ## 64-bit integers -/

namespace U64

/-- `u64::MAX`. -/
def maxValue : Nat := 2 ^ 64 - 1

def checkedAdd (a b : Nat) : Option Nat :=
  if a + b ≤ maxValue then some (a + b) else none

def saturatingAdd (a b : Nat) : Nat := min (a + b) maxValue

theorem checkedAdd_eq_some {a b c : Nat} : checkedAdd a b = some c ↔ a + b ≤ maxValue ∧ c = a + b := by
  unfold checkedAdd
  by_cases h : a + b ≤ maxValue
  · simp [h, eq_comm]
  · simp [h]

theorem saturatingAdd_eq {a b : Nat} (h : a + b ≤ maxValue) : saturatingAdd a b = a + b :=
  min_eq_left h

end U64

namespace I64

/-- `i64::MAX`. -/
def maxValue : Int := 2 ^ 63 - 1

/-- `i64::MIN`. -/
def minValue : Int := -(2 ^ 63)

/-- The nearest `i64`. -/
def clamp (a : Int) : Int := max minValue (min a maxValue)

def saturatingAdd (a b : Int) : Int := clamp (a + b)

def saturatingSub (a b : Int) : Int := clamp (a - b)

def checkedAdd (a b : Int) : Option Int :=
  if minValue ≤ a + b ∧ a + b ≤ maxValue then some (a + b) else none

/-- `i64::try_from` of an unsigned value succeeds. -/
def Fits (a : Nat) : Prop := (a : Int) ≤ maxValue

instance (a : Nat) : Decidable (Fits a) := inferInstanceAs (Decidable ((a : Int) ≤ maxValue))

theorem Fits.mono {a b : Nat} (h : Fits b) (hle : a ≤ b) : Fits a := by
  unfold Fits at *
  omega

theorem Fits.le_u64 {a : Nat} (h : Fits a) : a ≤ U64.maxValue := by
  unfold Fits maxValue at h
  unfold U64.maxValue
  omega

/-- Adding does nothing only at the end of the range. -/
theorem lt_saturatingAdd {a b : Int} (hb : 0 < b) (ha : a < maxValue) : a < saturatingAdd a b :=
  lt_of_lt_of_le (lt_min (by omega) ha) (le_max_right _ _)

theorem clamp_mono {a b : Int} (h : a ≤ b) : clamp a ≤ clamp b :=
  max_le_max le_rfl (min_le_min h le_rfl)

theorem saturatingAdd_mono {a b c d : Int} (hac : a ≤ c) (hbd : b ≤ d) :
    saturatingAdd a b ≤ saturatingAdd c d :=
  clamp_mono (by omega)

end I64
