import Mathlib.Logic.Function.Basic
import Mathlib.Tactic.Common

set_option autoImplicit false

/-! # Redo records

A disk maps keys to values. Several values are replaced together by writing a record of all of them
first, then the values one by one, and by removing the record at the end (`commit`). A program that
finds the record carries the writes out again (`redo`). While the record is in place the disk is
`Pending`: every key has its old value or its new one. Pending disks stay pending wherever a `redo` is
cut off, and a `redo` that gets through takes all of them to the same disk. -/

namespace Redo

variable {κ β : Type*} [DecidableEq κ]

/-- One atomic change of a disk. -/
inductive Write (κ β : Type*) where
  | put (key : κ) (value : β)
  | remove (key : κ)

def Write.key : Write κ β → κ
  | .put key _ => key
  | .remove key => key

def Write.apply (disk : κ → Option β) : Write κ β → κ → Option β
  | .put key value => Function.update disk key (some value)
  | .remove key => Function.update disk key none

/-- Carry writes out in order. -/
def perform (disk : κ → Option β) (ws : List (Write κ β)) : κ → Option β := ws.foldl Write.apply disk

variable {disk disk' old : κ → Option β} {ws vs : List (Write κ β)} {k : κ}

theorem perform_append : perform disk (ws ++ vs) = perform (perform disk ws) vs :=
  List.foldl_append

theorem apply_other {w : Write κ β} (h : w.key ≠ k) : w.apply disk k = disk k := by
  cases w with
  | put key value => exact Function.update_of_ne (Ne.symm h) _ _
  | remove key => exact Function.update_of_ne (Ne.symm h) _ _

theorem apply_same (w : Write κ β) : w.apply disk w.key = w.apply disk' w.key := by
  cases w with
  | put key value => simp [Write.apply, Write.key]
  | remove key => simp [Write.apply, Write.key]

/-- A key that is not written keeps its value. -/
theorem perform_other (h : ∀ w ∈ ws, w.key ≠ k) : perform disk ws k = disk k := by
  induction ws generalizing disk with
  | nil => rfl
  | cons w ws ih =>
    have hrest : perform (w.apply disk) ws k = w.apply disk k :=
      ih (fun v hv => h v (List.mem_cons_of_mem _ hv))
    exact hrest.trans (apply_other (h w List.mem_cons_self))

/-- Where two disks agree, or a key is written, they agree afterwards. -/
theorem perform_congr (h : (∃ w ∈ ws, w.key = k) ∨ disk k = disk' k) :
    perform disk ws k = perform disk' ws k := by
  induction ws generalizing disk disk' with
  | nil => exact h.resolve_left (by simp)
  | cons w ws ih =>
    refine ih ?_
    by_cases hw : w.key = k
    · subst hw
      exact .inr (apply_same w)
    · rcases h with ⟨v, hv, hk⟩ | hsame
      · rcases List.mem_cons.1 hv with rfl | hv
        · exact absurd hk hw
        · exact .inl ⟨v, hv, hk⟩
      · exact .inr ((apply_other hw).trans (hsame.trans (apply_other hw).symm))

/-! ## Entries and their record -/

def puts (entries : List (κ × β)) : List (Write κ β) := entries.map (fun e => .put e.1 e.2)

/-- Carry out the entries of a record, and remove the record. -/
def redo (record : κ) (entries : List (κ × β)) : List (Write κ β) := puts entries ++ [.remove record]

/-- Write the record first. -/
def commit (record : κ) (contents : β) (entries : List (κ × β)) : List (Write κ β) :=
  .put record contents :: redo record entries

variable {record : κ} {contents : β} {entries : List (κ × β)}

omit [DecidableEq κ] in
theorem exists_mem_puts : (∃ w ∈ puts entries, w.key = k) ↔ k ∈ entries.map Prod.fst := by
  simp [puts, Write.key]

theorem perform_puts_other (h : k ∉ entries.map Prod.fst) : perform disk (puts entries) k = disk k :=
  perform_other (fun w hw hk => h (exists_mem_puts.1 ⟨w, hw, hk⟩))

/-- Entries with distinct keys are all there afterwards. -/
theorem perform_puts_mem (hkeys : (entries.map Prod.fst).Nodup) {e : κ × β} (he : e ∈ entries) :
    perform disk (puts entries) e.1 = some e.2 := by
  induction entries generalizing disk with
  | nil => exact absurd he List.not_mem_nil
  | cons entry rest ih =>
    obtain ⟨hfresh, hrest⟩ := List.nodup_cons.1 hkeys
    rcases List.mem_cons.1 he with rfl | he
    · have hkept : perform disk (puts (e :: rest)) e.1 =
          Function.update disk e.1 (some e.2) e.1 := perform_puts_other hfresh
      exact hkept.trans (Function.update_self _ _ _)
    · exact ih hrest he

/-- Entries that can be committed from `old`: their keys are distinct, the record is not among them,
    and no record is in place. -/
structure Plan (record : κ) (entries : List (κ × β)) (old : κ → Option β) : Prop where
  distinct : (entries.map Prod.fst).Nodup
  apart : record ∉ entries.map Prod.fst
  clear : old record = none

/-- The record is in place, and everything else is as it was or as it will be. -/
structure Pending (record : κ) (contents : β) (entries : List (κ × β)) (old disk : κ → Option β) :
    Prop where
  placed : disk record = some contents
  between : ∀ k, k ≠ record → disk k = old k ∨ disk k = perform old (puts entries) k

theorem Plan.done_clear (hplan : Plan record entries old) :
    perform old (puts entries) record = none :=
  (perform_puts_other hplan.apart).trans hplan.clear

/-- Writing some of the entries leaves the disk pending. -/
theorem Pending.puts (h : Pending record contents entries old disk)
    (hplan : Plan record entries old) (n : Nat) :
    Pending record contents entries old (perform disk ((puts entries).take n)) := by
  have htake : (Redo.puts entries).take n = Redo.puts (entries.take n) := List.map_take.symm
  rw [htake]
  constructor
  · rw [perform_puts_other (fun hmem => hplan.apart ?_)]
    · exact h.placed
    · rw [List.map_take] at hmem
      exact List.mem_of_mem_take hmem
  · intro k hne
    by_cases hk : k ∈ (entries.take n).map Prod.fst
    · obtain ⟨e, he, rfl⟩ := List.mem_map.1 hk
      have hsome : ((entries.take n).map Prod.fst).Nodup := by
        rw [List.map_take]
        exact hplan.distinct.sublist (List.take_sublist _ _)
      rw [perform_puts_mem hsome he, perform_puts_mem hplan.distinct (List.mem_of_mem_take he)]
      exact .inr rfl
    · rw [perform_puts_other hk]
      exact h.between k hne

/-- Carrying the record out takes every pending disk to the same disk. -/
theorem Pending.redo (h : Pending record contents entries old disk)
    (hplan : Plan record entries old) :
    perform disk (redo record entries) = perform old (Redo.puts entries) := by
  funext k
  rw [Redo.redo, perform_append]
  by_cases hk : k = record
  · subst hk
    rw [hplan.done_clear]
    exact Function.update_self _ _ _
  · refine (apply_other (w := .remove record) (Ne.symm hk)).trans ?_
    by_cases hmem : k ∈ entries.map Prod.fst
    · exact perform_congr (.inl (exists_mem_puts.2 hmem))
    · rw [perform_puts_other hmem]
      rcases h.between k hk with hold | hnew
      · rw [hold, perform_puts_other hmem]
      · exact hnew

/-- Wherever carrying out the record is cut off, the disk is pending or done. -/
theorem Pending.cut (h : Pending record contents entries old disk)
    (hplan : Plan record entries old) (n : Nat) :
    Pending record contents entries old (perform disk ((Redo.redo record entries).take n)) ∨
      perform disk ((Redo.redo record entries).take n) = perform old (Redo.puts entries) := by
  rcases Nat.lt_or_ge entries.length n with hn | hn
  · right
    rw [List.take_of_length_le (by simp [Redo.redo, Redo.puts]; omega)]
    exact h.redo hplan
  · left
    rw [Redo.redo, List.take_append_of_le_length (by simpa [Redo.puts] using hn)]
    exact h.puts hplan n

/-- Wherever a commit is cut off, nothing has happened, or the disk is pending or done. -/
theorem Plan.commit_cut (hplan : Plan record entries old) (contents : β) (n : Nat) :
    n = 0 ∨ Pending record contents entries old
        (perform old ((commit record contents entries).take n)) ∨
      perform old ((commit record contents entries).take n) = perform old (puts entries) := by
  cases n with
  | zero => exact .inl rfl
  | succ n =>
    have hplaced : Pending record contents entries old
        (Function.update old record (some contents)) :=
      ⟨Function.update_self _ _ _, fun k hne => .inl (Function.update_of_ne hne _ _)⟩
    exact .inr (hplaced.cut hplan n)

end Redo
