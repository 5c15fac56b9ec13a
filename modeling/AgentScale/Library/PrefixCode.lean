import Mathlib.Data.List.Basic
import Mathlib.Tactic.Common

set_option autoImplicit false

/-! # Codes that can be read from the front

A code gives every value a word. A value is recognised if its word at the front of a text determines
both the value and what follows. Some words only end where something else begins, such as the digits of
a number, so this may depend on what follows: `Follows` is what may follow a word.

Sequences of recognised values are recognised too, when they end in a letter with which no word starts
(`terminated_inj`), also with a separator between the values (`joined_inj`). -/

namespace PrefixCode

variable {α β : Type*}

/-- The word of `a` is no other value's word. -/
def Recognised (Follows : List β → Prop) (code : α → List β) (a : α) : Prop :=
  ∀ b r r', Follows r → Follows r' → code a ++ r = code b ++ r' → a = b ∧ r = r'

/-- Values that can be decoded are recognised, whatever follows. -/
theorem recognised_of_decode {code : α → List β} (decode : List β → Option (α × List β))
    (h : ∀ a r, decode (code a ++ r) = some (a, r)) (a : α) :
    Recognised (fun _ => True) code a := by
  intro b r r' _ _ heq
  have hdecode := h a r
  rw [heq, h b r'] at hdecode
  cases hdecode
  exact ⟨rfl, rfl⟩

/-- Values whose words are not the beginning of another's word are recognised, whatever follows. -/
theorem recognised_of_incomparable {code : α → List β} (h : ∀ a b, code a <+: code b → a = b) (a : α) :
    Recognised (fun _ => True) code a := by
  intro b r r' _ _ heq
  have hboth := List.prefix_or_prefix_of_prefix (List.prefix_append (code a) r)
    (heq ▸ List.prefix_append (code b) r')
  obtain rfl : a = b := by
    rcases hboth with hab | hba
    · exact h a b hab
    · exact (h b a hba).symm
  exact ⟨rfl, List.append_cancel_left heq⟩

section Sequences

variable {Follows : List β → Prop} {code : α → List β} {stop : β}

/-- What follows a word in a sequence: the next word, or the end. -/
theorem follows_flatMap (hword : ∀ a r, Follows (code a ++ r)) (hstop : ∀ r, Follows (stop :: r))
    (xs : List α) (r : List β) : Follows (xs.flatMap code ++ stop :: r) := by
  cases xs with
  | nil => exact hstop r
  | cons x xs =>
    rw [List.flatMap_cons, List.append_assoc]
    exact hword x _

/-- A sequence that ends in a letter with which no word starts. -/
theorem terminated_inj (hword : ∀ a r, Follows (code a ++ r)) (hstop : ∀ r, Follows (stop :: r))
    (hstart : ∀ a r r', code a ++ r ≠ stop :: r') {xs : List α}
    (hxs : ∀ x ∈ xs, Recognised Follows code x) {ys : List α} {r r' : List β}
    (h : xs.flatMap code ++ stop :: r = ys.flatMap code ++ stop :: r') : xs = ys ∧ r = r' := by
  induction xs generalizing ys with
  | nil =>
    cases ys with
    | nil => exact ⟨rfl, (List.cons.inj h).2⟩
    | cons y ys =>
      rw [List.flatMap_cons, List.append_assoc] at h
      exact absurd h.symm (hstart y _ _)
  | cons x xs ih =>
    obtain ⟨hx, hxs⟩ := List.forall_mem_cons.1 hxs
    cases ys with
    | nil =>
      rw [List.flatMap_cons, List.append_assoc] at h
      exact absurd h (hstart x _ _)
    | cons y ys =>
      rw [List.flatMap_cons, List.flatMap_cons, List.append_assoc, List.append_assoc] at h
      obtain ⟨rfl, hrest⟩ := hx y _ _ (follows_flatMap hword hstop xs r)
        (follows_flatMap hword hstop ys r') h
      obtain ⟨rfl, rfl⟩ := ih hxs hrest
      exact ⟨rfl, rfl⟩

/-- The words of a list with a separator between them. -/
def joined (separator : β) (code : α → List β) : List α → List β
  | [] => []
  | x :: xs => code x ++ xs.flatMap (fun y => separator :: code y)

/-- A list that ends in a letter with which no word starts, with separators. -/
theorem joined_inj {separator : β} (hne : separator ≠ stop)
    (hseparator : ∀ r, Follows (separator :: r)) (hstop : ∀ r, Follows (stop :: r))
    (hstart : ∀ a r r', code a ++ r ≠ stop :: r') {xs : List α}
    (hxs : ∀ x ∈ xs, Recognised Follows code x) {ys : List α} {r r' : List β}
    (h : joined separator code xs ++ stop :: r = joined separator code ys ++ stop :: r') :
    xs = ys ∧ r = r' := by
  -- a separator and a word are a word of another code, for all values but the first
  have hwords : ∀ x, Recognised Follows code x →
      Recognised Follows (fun y => separator :: code y) x := by
    intro x hx y r r' hr hr' heq
    exact hx y r r' hr hr' (List.cons.inj heq).2
  cases xs with
  | nil =>
    cases ys with
    | nil => exact ⟨rfl, (List.cons.inj h).2⟩
    | cons y ys =>
      rw [joined, joined, List.append_assoc] at h
      exact absurd h.symm (hstart y _ _)
  | cons x xs =>
    obtain ⟨hx, hxs⟩ := List.forall_mem_cons.1 hxs
    cases ys with
    | nil =>
      rw [joined, joined, List.append_assoc] at h
      exact absurd h (hstart x _ _)
    | cons y ys =>
      rw [joined, joined, List.append_assoc, List.append_assoc] at h
      have hfollows : ∀ (zs : List α) (r : List β),
          Follows (zs.flatMap (fun z => separator :: code z) ++ stop :: r) :=
        follows_flatMap (fun _ _ => hseparator _) hstop
      obtain ⟨rfl, hrest⟩ := hx y _ _ (hfollows xs r) (hfollows ys r') h
      obtain ⟨rfl, rfl⟩ := terminated_inj (fun _ _ => hseparator _) hstop
        (fun _ _ _ heq => hne (List.cons.inj heq).1) (fun z hz => hwords z (hxs z hz)) hrest
      exact ⟨rfl, rfl⟩

end Sequences

end PrefixCode
