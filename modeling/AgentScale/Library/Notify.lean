import Mathlib.Tactic.Common

set_option autoImplicit false

/-! # Waiting for a notification

A notifier counts its notifications. Whoever waits takes a ticket, which is the count of that moment,
reads the shared value, and parks if the value is one to wait on; the ticket has fired when there has
been a notification since. The ticket is taken before the value is read, so a change between the
reading and the parking is not lost. `Sound` is the invariant of one waiter. It is kept by every
change of the value that notifies (`Sound.notify`) and by every other change after which the waiter
would still wait (`Sound.quiet`). -/

namespace Notify

/-- Where a waiter is: about to read the value, or parked on its ticket. -/
inductive Phase where
  | armed (ticket : Nat)
  | parked (ticket : Nat)

/-- A ticket fires with the first notification after it was taken. -/
def Fired (count ticket : Nat) : Prop := ticket < count

instance (count ticket : Nat) : Decidable (Fired count ticket) :=
  inferInstanceAs (Decidable (ticket < count))

variable {σ : Type*} {waits : σ → Prop} {value value' : σ} {count ticket : Nat} {phase : Phase}

/-- No ticket is from the future, and a waiter whose ticket has not fired is right to be parked. -/
def Sound (waits : σ → Prop) (value : σ) (count : Nat) : Phase → Prop
  | .armed ticket => ticket ≤ count
  | .parked ticket => ticket ≤ count ∧ (ticket = count → waits value)

theorem Sound.arm : Sound waits value count (.armed count) := Nat.le_refl count

theorem Sound.park (h : Sound waits value count (.armed ticket)) (hwaits : waits value) :
    Sound waits value count (.parked ticket) := ⟨h, fun _ => hwaits⟩

theorem Sound.notify (h : Sound waits value count phase) : Sound waits value' (count + 1) phase := by
  cases phase with
  | armed ticket => exact Nat.le_succ_of_le h
  | parked ticket =>
    refine ⟨Nat.le_succ_of_le h.1, fun heq => ?_⟩
    have hle := h.1
    omega

theorem Sound.quiet (h : Sound waits value count phase) (hkeeps : waits value → waits value') :
    Sound waits value' count phase := by
  cases phase with
  | armed ticket => exact h
  | parked ticket => exact ⟨h.1, fun heq => hkeeps (h.2 heq)⟩

theorem Sound.waits_of_not_fired (h : Sound waits value count (.parked ticket))
    (hquiet : ¬ Fired count ticket) : waits value :=
  h.2 (Nat.le_antisymm h.1 (Nat.not_lt.1 hquiet))

end Notify
