import Mathlib.Tactic.Common

set_option autoImplicit false

/-! # Reservations

Names are held, or reserved by a pending claim. A reservation is respected when what it reserves does
not clash with anything held or otherwise reserved, so that whoever redeems it finds the name free.
The rules say what keeps all reservations respected: giving something up (`Respected.mono`), making a
reservation of something free (`Respected.reserve`), redeeming one (`Respected.redeem`), and taking
something that nobody has reserved (`Respected.hold`). -/

namespace Reservation

variable {ι α : Type*} (clash : α → α → Prop)

/-- Nothing reserved clashes with what is held or with another reservation. -/
structure Respected (held : α → Prop) (reserved : ι → α → Prop) : Prop where
  held : ∀ i a, reserved i a → ∀ b, held b → ¬ clash a b
  reserved : ∀ i a j b, reserved i a → reserved j b → i ≠ j → ¬ clash a b

variable {clash} {held held' : α → Prop} {reserved reserved' : ι → α → Prop} {i : ι} {a : α}

theorem Respected.mono (h : Respected clash held reserved) (hheld : ∀ b, held' b → held b)
    (hreserved : ∀ j b, reserved' j b → reserved j b) : Respected clash held' reserved' where
  held := fun j b hb c hc => h.held j b (hreserved j b hb) c (hheld c hc)
  reserved := fun j b k c hb hc => h.reserved j b k c (hreserved j b hb) (hreserved k c hc)

/-- Take something that clashes with no reservation. -/
theorem Respected.hold (h : Respected clash held reserved)
    (hfree : ∀ j b, reserved' j b → ¬ clash b a) (hheld : ∀ b, held' b → held b ∨ b = a)
    (hreserved : ∀ j b, reserved' j b → reserved j b) : Respected clash held' reserved' where
  held := by
    intro j b hb c hc
    rcases hheld c hc with hc | rfl
    · exact h.held j b (hreserved j b hb) c hc
    · exact hfree j b hb
  reserved := fun j b k c hb hc => h.reserved j b k c (hreserved j b hb) (hreserved k c hc)

/-- Take what a reservation stands for, and give the reservation up. -/
theorem Respected.redeem (h : Respected clash held reserved) (hi : reserved i a)
    (hheld : ∀ b, held' b → held b ∨ b = a)
    (hreserved : ∀ j b, reserved' j b → reserved j b ∧ j ≠ i) : Respected clash held' reserved' :=
  h.hold (fun j b hb => h.reserved j b i a (hreserved j b hb).1 hi (hreserved j b hb).2) hheld
    (fun j b hb => (hreserved j b hb).1)

/-- Reserve something that clashes with nothing. -/
theorem Respected.reserve (h : Respected clash held reserved)
    (hsymm : ∀ b c, clash b c → clash c b) (hfree : ∀ b, held' b → ¬ clash a b)
    (halone : ∀ j b, reserved j b → ¬ clash a b) (hheld : ∀ b, held' b → held b)
    (hreserved : ∀ j b, reserved' j b → reserved j b ∨ (j = i ∧ b = a)) :
    Respected clash held' reserved' where
  held := by
    intro j b hb c hc
    rcases hreserved j b hb with hb | ⟨_, rfl⟩
    · exact h.held j b hb c (hheld c hc)
    · exact hfree c hc
  reserved := by
    intro j b k c hb hc hjk
    rcases hreserved j b hb with hb | ⟨rfl, rfl⟩ <;> rcases hreserved k c hc with hc | ⟨rfl, rfl⟩
    · exact h.reserved j b k c hb hc hjk
    · exact fun hclash => halone j b hb (hsymm b c hclash)
    · exact halone k c hc
    · exact absurd rfl hjk

end Reservation
