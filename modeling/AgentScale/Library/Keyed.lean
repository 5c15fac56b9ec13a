import Mathlib.Data.List.Nodup
import Mathlib.Data.List.Perm.Lattice
import Mathlib.Data.List.Sort

set_option autoImplicit false

/-! # Keyed lists

A list whose elements carry a key: the shape of an in-memory record list, of a table with a primary
key, and of a hash map read back as a list of entries. `upsert` replaces the element with the same
key or appends, `discard` removes a key, `lookup` reads one.

Most facts are read off two normal forms: `upsert` is, up to order, the new element in front of the
list without its key (`upsert_perm`), and `lookup` after an update is an `if` on the key
(`lookup_upsert`). -/

namespace Keyed

variable {α β κ : Type*} [DecidableEq κ]

def Distinct (key : α → κ) (l : List α) : Prop := (l.map key).Nodup

instance (key : α → κ) (l : List α) : Decidable (Distinct key l) :=
  inferInstanceAs (Decidable (l.map key).Nodup)

/-- Replace the first element that has the key of `x`, or append `x`. -/
def upsert (key : α → κ) (x : α) : List α → List α
  | [] => [x]
  | a :: rest => if key a = key x then x :: rest else a :: upsert key x rest

/-- Keep the elements whose key is not `k`. -/
def discard (key : α → κ) (k : κ) (l : List α) : List α :=
  l.filter (fun a => key a ≠ k)

/-- The first element with key `k`. -/
def lookup (key : α → κ) (k : κ) (l : List α) : Option α :=
  l.find? (fun a => key a = k)

variable {key : α → κ} {l l' : List α} {a b x : α} {k : κ}

omit [DecidableEq κ] in
theorem Distinct.eq_of_key (h : Distinct key l) (ha : a ∈ l) (hb : b ∈ l) (hk : key a = key b) :
    a = b :=
  List.inj_on_of_nodup_map h ha hb hk

omit [DecidableEq κ] in
/-- Elements that differ at all differ in the key. -/
theorem Distinct.ne_of_key (h : Distinct key l) (ha : a ∈ l) (hb : b ∈ l) {g : α → β}
    (hne : g a ≠ g b) : key a ≠ key b :=
  fun hk => hne (congrArg g (h.eq_of_key ha hb hk))

/-- A value that occurs once in a partial column belongs to one element. -/
theorem eq_of_nodup_filterMap {f : α → Option β} (h : (l.filterMap f).Nodup) (ha : a ∈ l)
    (hb : b ∈ l) {v : β} (hfa : f a = some v) (hfb : f b = some v) : a = b := by
  induction l with
  | nil => exact absurd ha List.not_mem_nil
  | cons c rest ih =>
    have hrest : (rest.filterMap f).Nodup := ((List.sublist_cons_self c rest).filterMap f).nodup h
    have honce : f c = some v → ∀ d ∈ rest, f d ≠ some v := by
      intro hc d hd hfd
      rw [List.filterMap_cons_some hc, List.nodup_cons] at h
      exact h.1 (List.mem_filterMap.2 ⟨d, hd, hfd⟩)
    rcases List.mem_cons.1 ha with rfl | ha' <;> rcases List.mem_cons.1 hb with rfl | hb'
    · rfl
    · exact absurd hfb (honce hfa b hb')
    · exact absurd hfa (honce hfb a ha')
    · exact ih hrest ha' hb'

omit [DecidableEq κ] in
theorem Distinct.perm (h : Distinct key l) (hp : l.Perm l') : Distinct key l' :=
  (hp.map key).nodup_iff.1 h

omit [DecidableEq κ] in
theorem Distinct.sublist (h : Distinct key l) (hs : l'.Sublist l) : Distinct key l' :=
  (hs.map key).nodup h

omit [DecidableEq κ] in
theorem distinct_cons : Distinct key (a :: l) ↔ (∀ b ∈ l, key b ≠ key a) ∧ Distinct key l := by
  simp [Distinct]

/-! ## `discard` -/

@[simp] theorem mem_discard : a ∈ discard key k l ↔ a ∈ l ∧ key a ≠ k := by
  simp [discard]

theorem Distinct.discard (h : Distinct key l) : Distinct key (discard key k l) :=
  h.sublist List.filter_sublist

theorem discard_eq_self (h : ∀ a ∈ l, key a ≠ k) : discard key k l = l :=
  List.filter_eq_self.2 (fun a ha => by simpa using h a ha)

theorem discard_perm (hp : l.Perm l') : (discard key k l).Perm (discard key k l') :=
  hp.filter _

/-! ## `upsert` -/

theorem upsert_of_absent (h : ∀ a ∈ l, key a ≠ key x) : upsert key x l = l ++ [x] := by
  induction l with
  | nil => rfl
  | cons a rest ih =>
    rw [upsert, if_neg (h a (List.mem_cons_self ..)),
      ih (fun b hb => h b (List.mem_cons_of_mem _ hb)), List.cons_append]

/-- Up to order, an upsert is the new element in front of everything else. -/
theorem upsert_perm (h : Distinct key l) :
    (upsert key x l).Perm (x :: discard key (key x) l) := by
  induction l with
  | nil => simp [upsert, discard]
  | cons a rest ih =>
    obtain ⟨hhead, htail⟩ := distinct_cons.1 h
    by_cases hk : key a = key x
    · have hrest : discard key (key x) rest = rest :=
        discard_eq_self (fun b hb => hk ▸ hhead b hb)
      have hcons : discard key (key x) (a :: rest) = rest := by
        rw [discard, List.filter_cons_of_neg (by simpa using hk)]
        exact hrest
      rw [upsert, if_pos hk, hcons]
    · have hcons : discard key (key x) (a :: rest) = a :: discard key (key x) rest := by
        rw [discard, List.filter_cons_of_pos (by simpa using hk)]
        rfl
      rw [upsert, if_neg hk, hcons]
      exact ((ih htail).cons a).trans (List.Perm.swap _ _ _)

theorem mem_upsert (h : Distinct key l) :
    a ∈ upsert key x l ↔ a = x ∨ (a ∈ l ∧ key a ≠ key x) := by
  rw [(upsert_perm h).mem_iff, List.mem_cons, mem_discard]

theorem exists_key_upsert (h : Distinct key l) (ha : a ∈ l) : ∃ b ∈ upsert key x l, key b = key a := by
  by_cases hkey : key a = key x
  · exact ⟨x, (mem_upsert h).2 (.inl rfl), hkey.symm⟩
  · exact ⟨a, (mem_upsert h).2 (.inr ⟨ha, hkey⟩), rfl⟩

/-- References survive an upsert of the rows they name. -/
theorem exists_upsert (h : Distinct key l) (hk : ∃ a ∈ l, key a = k) : ∃ a ∈ upsert key x l, key a = k := by
  obtain ⟨a, ha, rfl⟩ := hk
  exact exists_key_upsert h ha

/-- A check on every element survives an upsert of one that passes it. -/
theorem all_upsert {p : α → Bool} (h : Distinct key l) (hall : l.all p = true) (hx : p x = true) :
    (upsert key x l).all p = true := by
  rw [List.all_eq_true] at hall ⊢
  intro a ha
  rcases (mem_upsert h).1 ha with rfl | ⟨hold, _⟩
  · exact hx
  · exact hall a hold

theorem all_discard {p : α → Bool} (h : l.all p = true) : (discard key k l).all p = true := by
  rw [List.all_eq_true] at h ⊢
  exact fun a ha => h a (mem_discard.1 ha).1

theorem Distinct.upsert (h : Distinct key l) : Distinct key (upsert key x l) := by
  refine Distinct.perm ?_ (upsert_perm h).symm
  exact distinct_cons.2 ⟨fun b hb => (mem_discard.1 hb).2, h.discard⟩

/-- Upserting respects the order-blind view of a keyed list. -/
theorem upsert_congr_perm (h : Distinct key l) (hp : l.Perm l') :
    (Keyed.upsert key x l).Perm (Keyed.upsert key x l') :=
  (upsert_perm h).trans (((discard_perm hp).cons x).trans (upsert_perm (h.perm hp)).symm)

variable {f : α → β}

/-- A second column stays free of repetitions when the new element's value is not in use elsewhere. -/
theorem nodup_map_upsert (h : Distinct key l) (hf : (l.map f).Nodup)
    (hx : ∀ a ∈ l, key a ≠ key x → f a ≠ f x) : ((Keyed.upsert key x l).map f).Nodup := by
  refine (((upsert_perm h).map f).nodup_iff).2 ?_
  rw [List.map_cons, List.nodup_cons]
  refine ⟨?_, (List.filter_sublist.map f).nodup hf⟩
  rintro hmem
  obtain ⟨a, ha, hfa⟩ := List.mem_map.1 hmem
  exact hx a (mem_discard.1 ha).1 (mem_discard.1 ha).2 hfa

/-- The same for a column that not every element has. -/
theorem nodup_filterMap_upsert {f : α → Option β} (h : Distinct key l) (hf : (l.filterMap f).Nodup)
    (hx : ∀ a ∈ l, key a ≠ key x → ∀ b, f a = some b → f x ≠ some b) :
    ((Keyed.upsert key x l).filterMap f).Nodup := by
  refine (((upsert_perm h).filterMap f).nodup_iff).2 ?_
  have hrest : ((Keyed.discard key (key x) l).filterMap f).Nodup :=
    (List.filter_sublist.filterMap f).nodup hf
  cases hfx : f x with
  | none => rwa [List.filterMap_cons_none hfx]
  | some b =>
    rw [List.filterMap_cons_some hfx, List.nodup_cons]
    refine ⟨?_, hrest⟩
    intro hmem
    obtain ⟨a, ha, hfa⟩ := List.mem_filterMap.1 hmem
    exact hx a (mem_discard.1 ha).1 (mem_discard.1 ha).2 b hfa hfx

/-- Upserting commutes with a map that respects the key. -/
theorem map_upsert {key' : β → κ} (hkey : ∀ a ∈ l, key' (f a) = key a) (hx : key' (f x) = key x) :
    (Keyed.upsert key x l).map f = Keyed.upsert key' (f x) (l.map f) := by
  induction l with
  | nil => rfl
  | cons a rest ih =>
    rw [Keyed.upsert, List.map_cons, Keyed.upsert, hkey a (List.mem_cons_self ..), hx]
    by_cases hk : key a = key x
    · rw [if_pos hk, if_pos hk, List.map_cons]
    · rw [if_neg hk, if_neg hk, List.map_cons, ih (fun b hb => hkey b (List.mem_cons_of_mem _ hb))]

theorem map_discard {key' : β → κ} (hkey : ∀ a ∈ l, key' (f a) = key a) :
    (Keyed.discard key k l).map f = Keyed.discard key' k (l.map f) := by
  simp only [Keyed.discard, List.filter_map]
  congr 1
  exact List.filter_congr (fun a ha => by simp [hkey a ha])

/-! ## `lookup` -/

theorem mem_of_lookup (h : lookup key k l = some a) : a ∈ l ∧ key a = k :=
  ⟨List.mem_of_find?_eq_some h, by simpa using List.find?_some h⟩

theorem lookup_eq_none : lookup key k l = none ↔ ∀ a ∈ l, key a ≠ k := by
  simp [lookup]

theorem lookup_eq_some (h : Distinct key l) : lookup key k l = some a ↔ a ∈ l ∧ key a = k := by
  refine ⟨mem_of_lookup, ?_⟩
  rintro ⟨ha, hk⟩
  cases hb : lookup key k l with
  | none => exact absurd hk (lookup_eq_none.1 hb a ha)
  | some b =>
    obtain ⟨hbl, hbk⟩ := mem_of_lookup hb
    rw [h.eq_of_key hbl ha (hbk.trans hk.symm)]

theorem lookup_upsert (k : κ) :
    lookup key k (Keyed.upsert key x l) = if k = key x then some x else lookup key k l := by
  induction l with
  | nil =>
    by_cases hk : k = key x
    · subst hk; simp [lookup, Keyed.upsert]
    · simp [lookup, Keyed.upsert, if_neg hk, Ne.symm hk]
  | cons a rest ih =>
    simp only [Keyed.upsert]
    by_cases hax : key a = key x
    · rw [if_pos hax]
      by_cases hk : k = key x
      · subst hk; simp [lookup]
      · have hka : ¬ key a = k := fun he => hk (he.symm.trans hax)
        simp [lookup, if_neg hk, Ne.symm hk, hka]
    · rw [if_neg hax]
      by_cases hak : key a = k
      · have hk : ¬ k = key x := fun he => hax (hak.trans he)
        simp [lookup, hak, if_neg hk]
      · simpa [lookup, hak] using ih

theorem lookup_filter (h : Distinct key l) (p : α → Bool) :
    lookup key k (l.filter p) = (lookup key k l).filter p := by
  refine Option.ext (fun a => ?_)
  rw [lookup_eq_some (h.sublist List.filter_sublist), Option.filter_eq_some_iff, lookup_eq_some h,
    List.mem_filter]
  tauto

theorem lookup_perm (h : Distinct key l) (hp : l.Perm l') : lookup key k l = lookup key k l' := by
  cases hl' : lookup key k l' with
  | none =>
    rw [lookup_eq_none] at hl' ⊢
    exact fun a ha => hl' a (hp.mem_iff.1 ha)
  | some a =>
    obtain ⟨ha, hk⟩ := mem_of_lookup hl'
    exact (lookup_eq_some h).2 ⟨hp.mem_iff.2 ha, hk⟩

/-- Lists that look the same up to order have the same lookups, as far as can be seen. -/
theorem lookup_map_congr (key' : β → κ) (hkey : ∀ a, key' (f a) = key a) (h : Distinct key l)
    (hp : (l.map f).Perm (l'.map f)) :
    (lookup key k l).map f = (lookup key k l').map f := by
  have hmap : ∀ l : List α, (lookup key k l).map f = lookup key' k (l.map f) := by
    intro l
    simp only [lookup, List.find?_map, Function.comp_def, hkey]
  have hdistinct : Distinct key' (l.map f) := by
    unfold Distinct
    rw [List.map_map]
    exact (List.map_congr_left (fun a _ => hkey a)) ▸ h
  rw [hmap, hmap]
  exact lookup_perm hdistinct hp

/-- Replacing an element by one that looks the same changes nothing that can be seen. -/
theorem map_upsert_perm (h : Distinct key l) (ha : a ∈ l) (hk : key a = key x) (hf : f a = f x) :
    ((Keyed.upsert key x l).map f).Perm (l.map f) := by
  have hself : l.Perm (a :: Keyed.discard key (key a) l) := by
    refine (List.perm_ext_iff_of_nodup (List.Nodup.of_map key h) (List.Nodup.of_map key ?_)).2 ?_
    · exact distinct_cons.2 ⟨fun b hb => (mem_discard.1 hb).2, h.discard⟩
    · intro b
      rw [List.mem_cons, mem_discard]
      constructor
      · intro hb
        by_cases hba : key b = key a
        · exact .inl (h.eq_of_key hb ha hba)
        · exact .inr ⟨hb, hba⟩
      · rintro (rfl | ⟨hb, _⟩)
        · exact ha
        · exact hb
  refine ((upsert_perm h).map f).trans (List.Perm.trans ?_ (hself.map f).symm)
  rw [List.map_cons, List.map_cons, hf, hk]

/-! ## Keys -/

theorem mem_keys_upsert : k ∈ (Keyed.upsert key x l).map key ↔ k = key x ∨ k ∈ l.map key := by
  induction l with
  | nil => simp [Keyed.upsert]
  | cons a rest ih =>
    rw [Keyed.upsert]
    by_cases hk : key a = key x
    · rw [if_pos hk, List.map_cons, List.map_cons, List.mem_cons, List.mem_cons, hk]
      tauto
    · rw [if_neg hk, List.map_cons, List.map_cons, List.mem_cons, List.mem_cons, ih]
      tauto

theorem mem_keys_discard {k' : κ} : k' ∈ (Keyed.discard key k l).map key ↔ k' ∈ l.map key ∧ k' ≠ k := by
  simp only [List.mem_map, mem_discard]
  constructor
  · rintro ⟨a, ⟨ha, hne⟩, rfl⟩
    exact ⟨⟨a, ha, rfl⟩, hne⟩
  · rintro ⟨⟨a, ha, rfl⟩, hne⟩
    exact ⟨a, ⟨ha, hne⟩, rfl⟩

/-- Upserting what is already there changes nothing. -/
theorem upsert_eq_self (h : lookup key (key x) l = some x) : Keyed.upsert key x l = l := by
  induction l with
  | nil => simp [lookup] at h
  | cons a rest ih =>
    rw [Keyed.upsert]
    by_cases hk : key a = key x
    · have ha : a = x := by simpa [lookup, hk] using h
      rw [if_pos hk, ha]
    · rw [if_neg hk, ih (by simpa [lookup, hk] using h)]

variable {xs : List α}

theorem mem_keys_foldl_upsert :
    k ∈ (xs.foldl (fun l x => Keyed.upsert key x l) l).map key ↔ k ∈ l.map key ∨ k ∈ xs.map key := by
  induction xs generalizing l with
  | nil => simp
  | cons x xs ih =>
    rw [List.foldl_cons, ih, mem_keys_upsert, List.map_cons, List.mem_cons, or_comm (b := k ∈ l.map key),
      or_assoc]

/-! ## Discarding many keys -/

theorem foldl_discard (ks : List κ) :
    ks.foldl (fun l k => discard key k l) l = l.filter (fun a => decide (key a ∉ ks)) := by
  induction ks generalizing l with
  | nil => simp
  | cons k rest ih =>
    rw [List.foldl_cons, ih, discard, List.filter_filter]
    refine List.filter_congr (fun a _ => ?_)
    by_cases hk : key a = k
    · simp [hk]
    · simp [hk]

/-- With distinct keys, discarding the keys of the selected elements leaves the others. -/
theorem foldl_discard_selected (h : Distinct key l) (p : α → Bool) :
    ((l.filter p).map key).foldl (fun l k => discard key k l) l = l.filter (fun a => !p a) := by
  rw [foldl_discard]
  refine List.filter_congr (fun a ha => ?_)
  rw [Bool.eq_iff_iff, decide_eq_true_iff, Bool.not_eq_true', ← Bool.not_eq_true]
  refine not_congr ⟨?_, fun hp => List.mem_map_of_mem (List.mem_filter.2 ⟨ha, hp⟩)⟩
  intro hmem
  obtain ⟨b, hb, hk⟩ := List.mem_map.1 hmem
  obtain ⟨hbl, hpb⟩ := List.mem_filter.1 hb
  exact h.eq_of_key hbl ha hk ▸ hpb

/-! ## Bringing one list to another

`missing` and `changed` compare two keyed lists through the hash maps their entries collect to. When
keys are distinct on both sides, discarding the missing keys and upserting the changed entries turns
the first list into the second, up to order (`sync_perm`); either part may come first
(`sync_perm_reverse`). -/

/-- Look a key up in the hash map a list of entries collects to: the last entry with the key. -/
def collectGet (key : α → κ) (k : κ) (l : List α) : Option α :=
  (l.filter (fun a => key a = k)).getLast?

def missing (key : α → κ) (old new : List α) : List κ :=
  (old.map key).filter (fun k => (collectGet key k new).isNone)

/-- The entries of `new` that differ from what `old` has under their key. -/
def changed [DecidableEq α] (key : α → κ) (old new : List α) : List α :=
  new.filter (fun a => collectGet key (key a) old ≠ some a)

theorem mem_of_collectGet (h : collectGet key k l = some a) : a ∈ l ∧ key a = k := by
  have ha := List.mem_of_getLast? h
  simpa using ha

theorem collectGet_eq_some (h : Distinct key l) : collectGet key k l = some a ↔ a ∈ l ∧ key a = k := by
  refine ⟨mem_of_collectGet, ?_⟩
  rintro ⟨ha, hk⟩
  cases hb : collectGet key k l with
  | none =>
    have hnil := List.getLast?_eq_none_iff.1 hb
    have hmem : a ∈ l.filter (fun a => key a = k) := List.mem_filter.2 ⟨ha, by simpa using hk⟩
    rw [hnil] at hmem
    exact absurd hmem List.not_mem_nil
  | some b =>
    obtain ⟨hbl, hbk⟩ := mem_of_collectGet hb
    rw [h.eq_of_key hbl ha (hbk.trans hk.symm)]

/-- A map from a list without repeated keys has what the list has. -/
theorem collectGet_eq_lookup (h : Distinct key l) : collectGet key k l = lookup key k l := by
  refine Option.ext (fun a => ?_)
  rw [collectGet_eq_some h, lookup_eq_some h]

theorem mem_missing {old new : List α} :
    k ∈ missing key old new ↔ (∃ a ∈ old, key a = k) ∧ ∀ b ∈ new, key b ≠ k := by
  unfold missing
  rw [List.mem_filter, List.mem_map, Option.isNone_iff_eq_none, collectGet,
    List.getLast?_eq_none_iff, List.filter_eq_nil_iff]
  simp

section Sync

variable [DecidableEq α] {old new : List α}

theorem mem_changed (h : Distinct key old) : a ∈ changed key old new ↔ a ∈ new ∧ a ∉ old := by
  unfold changed
  rw [List.mem_filter]
  refine and_congr_right (fun _ => ?_)
  rw [decide_eq_true_iff, ne_eq, collectGet_eq_some h]
  simp

omit [DecidableEq α] in
theorem mem_foldl_discard {ks : List κ} :
    a ∈ ks.foldl (fun l k => discard key k l) l ↔ a ∈ l ∧ key a ∉ ks := by
  simp [foldl_discard]

omit [DecidableEq α] in
theorem Distinct.foldl_discard {ks : List κ} (h : Distinct key l) :
    Distinct key (ks.foldl (fun l k => Keyed.discard key k l) l) := by
  rw [Keyed.foldl_discard]
  exact h.sublist List.filter_sublist

omit [DecidableEq α] in
theorem Distinct.foldl_upsert (h : Distinct key l) :
    Distinct key (xs.foldl (fun l x => Keyed.upsert key x l) l) := by
  induction xs generalizing l with
  | nil => exact h
  | cons x rest ih => exact ih h.upsert

omit [DecidableEq α] in
theorem mem_foldl_upsert (h : Distinct key l) (hxs : Distinct key xs) :
    a ∈ xs.foldl (fun l x => upsert key x l) l ↔ a ∈ xs ∨ (a ∈ l ∧ ∀ x ∈ xs, key x ≠ key a) := by
  induction xs generalizing l with
  | nil => simp
  | cons x rest ih =>
    obtain ⟨hhead, htail⟩ := distinct_cons.1 hxs
    rw [List.foldl_cons, ih h.upsert htail, mem_upsert h]
    simp only [List.mem_cons, forall_eq_or_imp]
    constructor
    · rintro (hrest | ⟨rfl | ⟨hl, hk⟩, hfree⟩)
      · exact .inl (.inr hrest)
      · exact .inl (.inl rfl)
      · exact .inr ⟨hl, fun he => hk he.symm, hfree⟩
    · rintro ((rfl | hrest) | ⟨hl, hk, hfree⟩)
      · exact .inr ⟨.inl rfl, hhead⟩
      · exact .inl hrest
      · exact .inr ⟨.inr ⟨hl, fun he => hk he.symm⟩, hfree⟩

/-- What is left of the old list next to the changed entries is exactly the new list. -/
theorem mem_sync (hold : Distinct key old) (hnew : Distinct key new) :
    a ∈ new ↔ a ∈ changed key old new ∨
      (a ∈ old ∧ key a ∉ missing key old new ∧ ∀ x ∈ changed key old new, key x ≠ key a) := by
  simp only [mem_changed hold, mem_missing]
  constructor
  · intro ha
    by_cases hao : a ∈ old
    · refine .inr ⟨hao, fun hm => hm.2 a ha rfl, ?_⟩
      rintro x ⟨hx, hxo⟩ hk
      exact hxo (hnew.eq_of_key hx ha hk ▸ hao)
    · exact .inl ⟨ha, hao⟩
  · rintro (⟨ha, _⟩ | ⟨hao, hmiss, hfree⟩)
    · exact ha
    · by_contra ha
      refine hmiss ⟨⟨a, hao, rfl⟩, ?_⟩
      intro b hb hk
      by_cases hbo : b ∈ old
      · exact ha (hold.eq_of_key hbo hao hk ▸ hb)
      · exact hfree b ⟨hb, hbo⟩ hk

theorem sync_perm (hold : Distinct key old) (hnew : Distinct key new) :
    ((changed key old new).foldl (fun l x => upsert key x l)
      ((missing key old new).foldl (fun l k => discard key k l) old)).Perm new := by
  have hchanged : Distinct key (changed key old new) := hnew.sublist List.filter_sublist
  refine (List.perm_ext_iff_of_nodup ?_ (List.Nodup.of_map key hnew)).2 ?_
  · exact List.Nodup.of_map key hold.foldl_discard.foldl_upsert
  · intro a
    rw [mem_foldl_upsert hold.foldl_discard hchanged, mem_foldl_discard, mem_sync hold hnew, and_assoc]

theorem sync_perm_reverse (hold : Distinct key old) (hnew : Distinct key new) :
    ((missing key old new).foldl (fun l k => discard key k l)
      ((changed key old new).foldl (fun l x => upsert key x l) old)).Perm new := by
  have hchanged : Distinct key (changed key old new) := hnew.sublist List.filter_sublist
  refine (List.perm_ext_iff_of_nodup ?_ (List.Nodup.of_map key hnew)).2 ?_
  · exact List.Nodup.of_map key hold.foldl_upsert.foldl_discard
  · intro a
    rw [mem_foldl_discard, mem_foldl_upsert hold hchanged, mem_sync hold hnew]
    constructor
    · rintro ⟨ha | ⟨hao, hfree⟩, hmiss⟩
      · exact .inl ha
      · exact .inr ⟨hao, hmiss, hfree⟩
    · rintro (ha | ⟨hao, hmiss, hfree⟩)
      · exact ⟨.inl ha, fun hm => (mem_missing.1 hm).2 a ((mem_changed hold).1 ha).1 rfl⟩
      · exact ⟨.inr ⟨hao, hfree⟩, hmiss⟩

end Sync

/-! ## Collecting entries into a map -/

section Collect

/-- The hash map a list of entries collects to: a later entry replaces an earlier one. -/
def collect (key : α → κ) (xs : List α) : List α := xs.foldl (fun l x => upsert key x l) []

theorem distinct_collect (key : α → κ) (xs : List α) : Distinct key (collect key xs) :=
  Distinct.foldl_upsert (l := []) List.nodup_nil

theorem mem_collect (h : Distinct key xs) : a ∈ collect key xs ↔ a ∈ xs := by
  simp [collect, mem_foldl_upsert (l := []) List.nodup_nil h]

theorem mem_of_mem_collect (h : a ∈ collect key xs) : a ∈ xs := by
  have hfold : ∀ l : List α, Distinct key l → a ∈ xs.foldl (fun l x => upsert key x l) l →
      a ∈ l ∨ a ∈ xs := by
    clear h
    induction xs with
    | nil => exact fun l _ h => .inl h
    | cons x xs ih =>
      intro l hl h
      rcases ih _ hl.upsert h with hold | hnew
      · rcases (mem_upsert hl).1 hold with rfl | ⟨hold, _⟩
        · exact .inr List.mem_cons_self
        · exact .inl hold
      · exact .inr (List.mem_cons_of_mem _ hnew)
  rcases hfold [] List.nodup_nil h with hnil | hmem
  · exact absurd hnil List.not_mem_nil
  · exact hmem

theorem length_upsert (key : α → κ) (x : α) (l : List α) :
    (upsert key x l).length ≤ l.length + 1 := by
  induction l with
  | nil => simp [upsert]
  | cons a rest ih =>
    rw [upsert]
    split
    · simp
    · simpa using ih

theorem length_foldl_upsert (key : α → κ) (l xs : List α) :
    (xs.foldl (fun l x => upsert key x l) l).length ≤ l.length + xs.length := by
  induction xs generalizing l with
  | nil => simp
  | cons x rest ih =>
    have hrest := ih (l := upsert key x l)
    have hupsert := length_upsert key x l
    simp only [List.foldl_cons, List.length_cons]
    omega

theorem upsert_of_length (h : (upsert key x l).length = l.length + 1) :
    upsert key x l = l ++ [x] := by
  induction l with
  | nil => rfl
  | cons a rest ih =>
    rw [upsert] at h ⊢
    split at h
    · simp at h
    · next hk => rw [if_neg hk, ih (by simpa using h), List.cons_append]

theorem foldl_upsert_of_length
    (h : (xs.foldl (fun l x => upsert key x l) l).length = l.length + xs.length) :
    xs.foldl (fun l x => upsert key x l) l = l ++ xs := by
  induction xs generalizing l with
  | nil => simp
  | cons x rest ih =>
    have hrest := length_foldl_upsert key (upsert key x l) rest
    have hupsert := length_upsert key x l
    simp only [List.foldl_cons, List.length_cons] at h ⊢
    have hx := upsert_of_length (x := x) (l := l) (show (upsert key x l).length = _ by omega)
    rw [ih (by omega), hx, List.append_assoc, List.singleton_append]

/-- Entries that all survive collecting have distinct keys and keep their order. -/
theorem collect_of_length (h : (collect key xs).length = xs.length) :
    collect key xs = xs :=
  foldl_upsert_of_length (l := []) (by simpa [collect] using h)

theorem collect_of_distinct (h : Distinct key xs) : collect key xs = xs := by
  refine collect_of_length (Eq.symm ?_)
  refine (List.perm_ext_iff_of_nodup (List.Nodup.of_map key h)
    (List.Nodup.of_map key (distinct_collect key xs))).2 (fun a => (mem_collect h).symm) |>.length_eq

end Collect

end Keyed
