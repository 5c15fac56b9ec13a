import Mathlib.Tactic.Common

set_option autoImplicit false

/-! # Durable writes and crashes

A program that makes its writes one after another leaves some of them done, in order, when it is cut
off. `Safe` says that an invariant holds before, between and after the writes of a list; it then holds
wherever the program is cut off (`Safe.cut`). -/

namespace Writes

variable {σ ω : Type*} {apply : σ → ω → σ} {inv : σ → Prop} {s : σ} {ws vs : List ω}

/-- The invariant holds before, between and after the writes. -/
def Safe (apply : σ → ω → σ) (inv : σ → Prop) : σ → List ω → Prop
  | s, [] => inv s
  | s, w :: ws => inv s ∧ Safe apply inv (apply s w) ws

/-- However many of the writes are done, the invariant holds. -/
theorem Safe.cut (h : Safe apply inv s ws) (n : Nat) : inv ((ws.take n).foldl apply s) := by
  induction ws generalizing s n with
  | nil => rwa [List.take_nil]
  | cons w ws ih =>
    cases n with
    | zero => exact h.1
    | succ n => exact ih h.2 n

theorem Safe.done (h : Safe apply inv s ws) : inv (ws.foldl apply s) := by
  have hall := h.cut ws.length
  rwa [List.take_length] at hall

theorem Safe.append (h : Safe apply inv s ws) (h' : Safe apply inv (ws.foldl apply s) vs) :
    Safe apply inv s (ws ++ vs) := by
  induction ws generalizing s with
  | nil => exact h'
  | cons w ws ih => exact ⟨h.1, ih h.2 h'⟩

theorem Safe.mono {weaker : σ → Prop} (h : Safe apply inv s ws) (hweaker : ∀ s, inv s → weaker s) :
    Safe apply weaker s ws := by
  induction ws generalizing s with
  | nil => exact hweaker s h
  | cons w ws ih => exact ⟨hweaker s h.1, ih h.2⟩

/-- An invariant that each of the writes keeps. -/
theorem safe_of_preserves (hkeep : ∀ s, ∀ w ∈ ws, inv s → inv (apply s w)) (hs : inv s) :
    Safe apply inv s ws := by
  induction ws generalizing s with
  | nil => exact hs
  | cons w ws ih =>
    exact ⟨hs, ih (fun s w hw => hkeep s w (List.mem_cons_of_mem _ hw))
      (hkeep s w List.mem_cons_self hs)⟩

end Writes
