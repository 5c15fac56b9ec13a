import Mathlib.Data.List.Basic
import Mathlib.Data.List.Forall2
import Mathlib.Tactic.Common

set_option autoImplicit false

/-! # Lists -/

namespace Lists

variable {α β γ : Type*}

/-- What a partial function makes of a list is a part of what a total one makes of it, if the two agree. -/
theorem map_filterMap_sublist {g : α → Option β} {r : β → γ} {f : α → γ} {l : List α}
    (h : ∀ x ∈ l, ∀ y, g x = some y → r y = f x) : ((l.filterMap g).map r).Sublist (l.map f) := by
  induction l with
  | nil => simp
  | cons x rest ih =>
    have hrest := ih (fun z hz => h z (List.mem_cons_of_mem _ hz))
    cases hx : g x with
    | none =>
      rw [List.filterMap_cons_none hx, List.map_cons]
      exact hrest.cons _
    | some y =>
      rw [List.filterMap_cons_some hx, List.map_cons, List.map_cons, h x List.mem_cons_self y hx]
      exact hrest.cons_cons _

/-- What stands on the right of a relation between lists is related to something on the left. -/
theorem exists_of_mem_right {R : α → β → Prop} {l : List α} {m : List β} (h : List.Forall₂ R l m) {b : β}
    (hb : b ∈ m) : ∃ a ∈ l, R a b := by
  induction h with
  | nil => cases hb
  | cons hfirst _ ih =>
    rcases List.mem_cons.1 hb with rfl | hb
    · exact ⟨_, List.mem_cons_self, hfirst⟩
    · obtain ⟨a, ha, hab⟩ := ih hb
      exact ⟨a, List.mem_cons_of_mem _ ha, hab⟩

theorem all_of_perm {p : α → Bool} {l l' : List α} (h : l.all p = true) (hperm : l.Perm l') :
    ∀ a ∈ l', p a = true :=
  fun a ha => List.all_eq_true.1 h a (hperm.mem_iff.2 ha)

theorem any_eq_false_of_imp {l : List α} {p q : α → Bool} (h : ¬ l.any p = true)
    (himp : ∀ a, q a = true → p a = true) : l.any q = false := by
  rw [List.any_eq_false]
  intro a ha hq
  exact h (List.any_eq_true.2 ⟨a, ha, himp a hq⟩)

theorem find?_and_eq_some {l : List α} {p q : α → Prop} [DecidablePred p] [DecidablePred q] {a : α}
    (h : l.find? (fun x => p x && q x) = some a) : a ∈ l ∧ p a ∧ q a := by
  have hp := List.find?_some h
  simp only [Bool.and_eq_true, decide_eq_true_eq] at hp
  exact ⟨List.mem_of_find?_eq_some h, hp⟩

theorem mem_replace {before after : List α} {x y z : α} (h : z ∈ before ++ y :: after) :
    z = y ∨ z ∈ before ++ x :: after := by
  rcases List.mem_append.1 h with h | h
  · exact .inr (List.mem_append_left _ h)
  · rcases List.mem_cons.1 h with rfl | h
    · exact .inl rfl
    · exact .inr (List.mem_append_right _ (List.mem_cons_of_mem _ h))

theorem eq_singleton_headD {l : List α} (h : l.length = 1) (default : α) : l = [l.headD default] := by
  obtain ⟨x, rfl⟩ := List.length_eq_one_iff.1 h
  rfl

section Tagged

variable {κ : Type*} [DecidableEq κ] {l : List (κ × α)}

theorem mem_of_tag {p : κ × α} (hp : p ∈ l) : p.2 ∈ (l.filter (fun q => q.1 = p.1)).map Prod.snd :=
  List.mem_map_of_mem (List.mem_filter.2 ⟨hp, by simp⟩)

/-- Where there are two tags, each entry has one of them. -/
theorem length_filter_add {a b : κ} (hne : a ≠ b) (h : ∀ k, k = a ∨ k = b) (l : List (κ × α)) :
    (l.filter (fun p => p.1 = a)).length + (l.filter (fun p => p.1 = b)).length = l.length := by
  have hother : l.filter (fun p => p.1 = b) = l.filter (fun p => !decide (p.1 = a)) := by
    congr 1
    funext p
    rcases h p.1 with hp | hp <;> simp [hp, hne, hne.symm]
  rw [hother]
  exact (List.length_eq_length_filter_add _).symm

end Tagged

end Lists
