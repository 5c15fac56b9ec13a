import Mathlib.Data.List.Basic
import Mathlib.Tactic.Common

set_option autoImplicit false

/-! # Lines

A list that is read as lines, each ended by a separator: `complete` are the lines that have been ended,
`unterminated` is what comes after the last separator. `Lines.induct` is induction on the first separator
that is left. -/

namespace Lines

variable {α : Type*} [DecidableEq α] {a : α}

/-- The lines that have been ended. -/
def complete (a : α) (l : List α) : List (List α) := (l.splitOn a).dropLast

/-- What comes after the last separator. -/
def unterminated (a : α) (l : List α) : List α := (l.splitOn a).getLast (List.splitOn_ne_nil a l)

/-- Induction on the first separator that is left. -/
theorem induct {motive : List α → Prop} (last : ∀ l, a ∉ l → motive l)
    (line : ∀ l rest, a ∉ l → motive rest → motive (l ++ a :: rest)) (l : List α) : motive l := by
  induction hlen : l.length using Nat.strongRecOn generalizing l with
  | _ n ih =>
    by_cases ha : a ∈ l
    · obtain ⟨first, rest, rfl, hfirst⟩ := List.eq_append_cons_of_mem ha
      refine line first rest hfirst (ih rest.length ?_ rest rfl)
      rw [← hlen, List.length_append, List.length_cons]
      omega
    · exact last l ha

variable {l : List α}

@[simp] theorem complete_of_not_mem (h : a ∉ l) : complete a l = [] := by
  rw [complete, List.splitOn_eq_singleton h, List.dropLast_singleton]

@[simp] theorem unterminated_of_not_mem (h : a ∉ l) : unterminated a l = l := by
  simp only [unterminated, List.splitOn_eq_singleton h, List.getLast_singleton]

theorem complete_append_cons {line : List α} (h : a ∉ line) (rest : List α) :
    complete a (line ++ a :: rest) = line :: complete a rest := by
  rw [complete, List.splitOn_append_cons_self_of_not_mem h,
    List.dropLast_cons_of_ne_nil (List.splitOn_ne_nil a rest), complete]

@[simp] theorem unterminated_append_cons (line rest : List α) :
    unterminated a (line ++ a :: rest) = unterminated a rest := by
  simp only [unterminated, List.splitOn_append_cons_self]
  exact List.getLast_append_of_ne_nil _ (List.splitOn_ne_nil a rest)

/-- What is appended continues the line that has not been ended. -/
theorem unterminated_append (l more : List α) :
    unterminated a (unterminated a l ++ more) = unterminated a (l ++ more) := by
  induction l using induct (a := a) with
  | last l hl => rw [unterminated_of_not_mem hl]
  | line l rest _ ih => rw [unterminated_append_cons, ih, List.append_assoc, List.cons_append,
      unterminated_append_cons]

/-! ## Lines that are not empty -/

/-- The lines that are not empty, with what comes after the last separator. -/
def nonempty (a : α) (l : List α) : List (List α) := (l.splitOn a).filter (· ≠ [])

@[simp] theorem nonempty_nil : nonempty a [] = [] := by simp [nonempty]

theorem nonempty_append_cons (l rest : List α) :
    nonempty a (l ++ a :: rest) = nonempty a l ++ nonempty a rest := by
  rw [nonempty, List.splitOn_append_cons_self, List.filter_append, nonempty, nonempty]

theorem nonempty_of_not_mem (h : a ∉ l) : nonempty a l = if l = [] then [] else [l] := by
  rw [nonempty, List.splitOn_eq_singleton h]
  by_cases hl : l = []
  · simp [hl]
  · simp [hl]

/-- A text of separated lines, each of which has been ended. -/
theorem nonempty_flatMap {β : Type*} (text : β → List α) (xs : List β) :
    nonempty a (xs.flatMap (fun x => text x ++ [a])) = xs.flatMap (fun x => nonempty a (text x)) := by
  induction xs with
  | nil => simp
  | cons x xs ih =>
    rw [List.flatMap_cons, List.append_assoc, List.singleton_append, nonempty_append_cons, ih,
      List.flatMap_cons]

/-- A text without a line that is not empty is made of separators. -/
theorem eq_replicate_of_nonempty (h : nonempty a l = []) : ∃ n, l = List.replicate n a := by
  induction l using induct (a := a) with
  | last l hl =>
    rw [nonempty_of_not_mem hl] at h
    by_cases hempty : l = []
    · exact ⟨0, hempty⟩
    · simp [hempty] at h
  | line l rest hl ih =>
    rw [nonempty_append_cons, List.append_eq_nil_iff, nonempty_of_not_mem hl] at h
    obtain ⟨n, rfl⟩ := ih h.2
    by_cases hempty : l = []
    · exact ⟨n + 1, by rw [hempty, List.nil_append, List.replicate_succ]⟩
    · simp [hempty] at h

/-- A text whose first line that is not empty is `line`: there are separators before it, and behind it the
    text ends or another separator comes. -/
theorem eq_append_of_nonempty {l line : List α} {later : List (List α)}
    (h : nonempty a l = line :: later) : ∃ m rest, l = List.replicate m a ++ line ++ rest ∧
      (rest = [] ∧ later = [] ∨ ∃ after, rest = a :: after ∧ nonempty a after = later) := by
  induction l using induct (a := a) with
  | last l hl =>
    rw [nonempty_of_not_mem hl] at h
    by_cases hempty : l = []
    · simp [hempty] at h
    · rw [if_neg hempty] at h
      obtain ⟨rfl, hlater⟩ := List.cons.inj h
      exact ⟨0, [], by simp, .inl ⟨rfl, hlater.symm⟩⟩
  | line l rest hl ih =>
    rw [nonempty_append_cons, nonempty_of_not_mem hl] at h
    by_cases hempty : l = []
    · rw [if_pos hempty, List.nil_append] at h
      obtain ⟨m, after, rfl, hafter⟩ := ih h
      exact ⟨m + 1, after, by rw [hempty, List.replicate_succ]; simp, hafter⟩
    · rw [if_neg hempty, List.singleton_append] at h
      obtain ⟨rfl, hrest⟩ := List.cons.inj h
      exact ⟨0, a :: rest, by simp, .inr ⟨rest, rfl, hrest⟩⟩

end Lines
