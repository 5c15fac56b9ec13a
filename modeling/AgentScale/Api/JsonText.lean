import AgentScale.Api.Json
import AgentScale.Library.PrefixCode

set_option autoImplicit false

/-! # The compact encoding determines the value

A value's encoding can be read from the front of a text, as long as a comma or a closing bracket follows:
only the end of a number needs that. The proof follows the values; quotes end strings because a quote
inside of one is escaped, and brackets end lists because no value starts with a closing bracket. -/

namespace AgentScale.Json

open PrefixCode

/-- Induction over the values inside of a value. -/
theorem induct {motive : Json → Prop} (null : motive .null) (num : ∀ n, motive (.num n))
    (str : ∀ s, motive (.str s)) (arr : ∀ xs : List Json, (∀ x ∈ xs, motive x) → motive (.arr xs))
    (obj : ∀ fields : List (String × Json), (∀ f ∈ fields, motive f.2) → motive (.obj fields))
    (j : Json) : motive j := by
  refine @Json.rec motive (fun xs => ∀ x ∈ xs, motive x) (fun fields => ∀ f ∈ fields, motive f.2)
    (fun f => motive f.2) null num str arr obj ?_ ?_ ?_ ?_ ?_ j
  · simp
  · intro x xs hx hxs
    exact List.forall_mem_cons.2 ⟨hx, hxs⟩
  · simp
  · intro f fields hf hfields
    exact List.forall_mem_cons.2 ⟨hf, hfields⟩
  · intro name x hx
    exact hx

/-! ## Strings -/

/-- The value of a hexadecimal digit. -/
def hexValue (c : Char) : Nat := if c.toNat < 58 then c.toNat - 48 else c.toNat - 87

/-- Read one character of a string back. -/
def unescape : List Char → Option (Char × List Char)
  | '\\' :: 'u' :: _ :: _ :: a :: b :: rest => some (Char.ofNat (16 * hexValue a + hexValue b), rest)
  | '\\' :: 'b' :: rest => some (Char.ofNat 8, rest)
  | '\\' :: 't' :: rest => some (Char.ofNat 9, rest)
  | '\\' :: 'n' :: rest => some (Char.ofNat 10, rest)
  | '\\' :: 'f' :: rest => some (Char.ofNat 12, rest)
  | '\\' :: 'r' :: rest => some (Char.ofNat 13, rest)
  | '\\' :: c :: rest => some (c, rest)
  | c :: rest => some (c, rest)
  | [] => none

theorem hexValue_hexDigit (n : Nat) (h : n < 16) : hexValue (hexDigit n) = n := by
  revert n
  decide

theorem unescape_escapeChar (c : Char) (rest : List Char) :
    unescape (escapeChar c ++ rest) = some (c, rest) := by
  have hcode : ∀ n, c.toNat = n → Char.ofNat n = c := by
    rintro n rfl
    exact Char.ofNat_toNat c
  unfold escapeChar
  split_ifs with hquote hback h8 h9 h10 h12 h13 hcontrol
  · subst hquote
    rfl
  · subst hback
    rfl
  · rw [← hcode 8 h8]
    rfl
  · rw [← hcode 9 h9]
    rfl
  · rw [← hcode 10 h10]
    rfl
  · rw [← hcode 12 h12]
    rfl
  · rw [← hcode 13 h13]
    rfl
  · -- a control character is below 32, so its two hexadecimal digits are its code
    simp only [List.cons_append, List.nil_append, unescape, hexValue_hexDigit (c.toNat / 16) (by omega),
      hexValue_hexDigit (c.toNat % 16) (by omega)]
    rw [hcode _ (by omega)]
  · rw [List.cons_append, List.nil_append, unescape]
    all_goals simp [hback]

/-- No character inside of a string is written as a quote. -/
theorem escapeChar_ne_quote (c : Char) (r r' : List Char) : escapeChar c ++ r ≠ '"' :: r' := by
  unfold escapeChar
  split_ifs with hquote
  all_goals simp
  intro hc
  exact absurd hc hquote

theorem recognised_quote (Follows : List Char → Prop) (s : String) : Recognised Follows quote s := by
  intro t r r' _ _ h
  simp only [quote, List.cons_append, List.append_assoc, List.nil_append, List.cons.injEq,
    true_and] at h
  -- characters are read one by one up to the quote, which starts no escape
  have hchars : ∀ c ∈ s.toList, Recognised (fun _ => True) escapeChar c :=
    fun c _ => recognised_of_decode unescape unescape_escapeChar c
  obtain ⟨hst, rfl⟩ := terminated_inj (fun _ _ => trivial) (fun _ => trivial) escapeChar_ne_quote
    hchars h
  exact ⟨String.toList_inj.1 hst, rfl⟩

/-! ## Numbers -/

/-- A character of a number. -/
def isNumeral (c : Char) : Bool := c.isDigit || c = '-'

theorem toDigits_inj {m n : Nat} (h : Nat.toDigits 10 m = Nat.toDigits 10 n) : m = n := by
  rw [← Nat.ofDigitChars_ten_toDigits (n := m), h, Nat.ofDigitChars_ten_toDigits]

/-- The digits of a number, after a sign if it is negative. -/
theorem toList_toString (n : Int) :
    (toString n).toList = if n < 0 then '-' :: Nat.toDigits 10 n.natAbs else Nat.toDigits 10 n.natAbs := by
  cases n with
  | ofNat m =>
    rw [if_neg (by simp)]
    exact Nat.toList_repr
  | negSucc m =>
    rw [if_pos (Int.negSucc_lt_zero m)]
    simp [toString, Int.repr]

theorem isNumeral_of_mem {n : Int} {c : Char} (h : c ∈ (toString n).toList) : isNumeral c = true := by
  have hdigit : c ∈ Nat.toDigits 10 n.natAbs → isNumeral c = true := by
    intro hc
    simp [isNumeral, Nat.isDigit_of_mem_toDigits (by decide) (by decide) hc]
  rw [toList_toString] at h
  split at h
  · rcases List.mem_cons.1 h with rfl | hc
    · rfl
    · exact hdigit hc
  · exact hdigit h

theorem minus_not_mem_toDigits (n : Nat) : '-' ∉ Nat.toDigits 10 n := by
  intro h
  exact absurd (Nat.isDigit_of_mem_toDigits (by decide) (by decide) h) (by decide)

theorem toString_int_inj {m n : Int} (h : (toString m).toList = (toString n).toList) : m = n := by
  rw [toList_toString, toList_toString] at h
  by_cases hm : m < 0
  · by_cases hn : n < 0
    · rw [if_pos hm, if_pos hn] at h
      have habs := toDigits_inj (List.cons.inj h).2
      omega
    · rw [if_pos hm, if_neg hn] at h
      exact absurd (h ▸ List.mem_cons_self) (minus_not_mem_toDigits n.natAbs)
  · by_cases hn : n < 0
    · rw [if_neg hm, if_pos hn] at h
      exact absurd (h.symm ▸ List.mem_cons_self) (minus_not_mem_toDigits m.natAbs)
    · rw [if_neg hm, if_neg hn] at h
      have habs := toDigits_inj h
      omega

/-- The end of the text, a comma or a closing bracket. -/
def Closed (r : List Char) : Prop := ∀ c ∈ r.head?, c = ',' ∨ c = ']' ∨ c = '\x7d'

theorem closed_comma (r : List Char) : Closed (',' :: r) := by simp [Closed]

theorem closed_bracket (r : List Char) : Closed (']' :: r) := by simp [Closed]

theorem closed_brace (r : List Char) : Closed ('\x7d' :: r) := by simp [Closed]

theorem closed_nil : Closed [] := by simp [Closed]

theorem takeWhile_isNumeral {n : Int} {r : List Char} (hr : Closed r) :
    ((toString n).toList ++ r).takeWhile isNumeral = (toString n).toList := by
  have hrest : r.takeWhile isNumeral = [] := by
    cases r with
    | nil => rfl
    | cons c rest =>
      have hc : isNumeral c = false := by
        rcases hr c rfl with rfl | rfl | rfl <;> rfl
      rw [List.takeWhile_cons_of_neg (by simp [hc])]
  rw [List.takeWhile_append_of_pos (fun c hc => isNumeral_of_mem hc), hrest, List.append_nil]

/-- A number is recognised if no numeral follows. -/
theorem recognised_num (n : Int) : Recognised Closed (fun n : Int => (toString n).toList) n := by
  intro m r r' hr hr' h
  have hdigits : (toString n).toList = (toString m).toList := by
    calc (toString n).toList
        = ((toString n).toList ++ r).takeWhile isNumeral := (takeWhile_isNumeral hr).symm
      _ = ((toString m).toList ++ r').takeWhile isNumeral := congrArg (List.takeWhile isNumeral) h
      _ = (toString m).toList := takeWhile_isNumeral hr'
  obtain rfl := toString_int_inj hdigits
  exact ⟨rfl, List.append_cancel_left h⟩

/-! ## Values -/

/-- The constructor of a value. -/
def form : Json → Nat
  | .null => 0
  | .num _ => 1
  | .str _ => 2
  | .arr _ => 3
  | .obj _ => 4

/-- The constructor of the value that starts with a character. -/
def formOf (c : Char) : Nat :=
  if c = 'n' then 0 else if c = '"' then 2 else if c = '[' then 3 else if c = '\x7b' then 4 else 1

theorem chars_head (j : Json) : ∃ c rest, j.chars = c :: rest ∧ formOf c = j.form ∧ c ≠ ']' := by
  cases j with
  | null => exact ⟨'n', _, rfl, rfl, by decide⟩
  | num n =>
    obtain ⟨c, rest, hchars⟩ := List.exists_cons_of_ne_nil (l := (toString n).toList) (by
      rw [toList_toString]
      split <;> simp)
    have hc : isNumeral c = true := isNumeral_of_mem (hchars ▸ List.mem_cons_self)
    refine ⟨c, rest, hchars, ?_, ?_⟩
    · unfold formOf
      split_ifs with h0 h2 h3 h4
      · exact absurd hc (by simp [h0, isNumeral])
      · exact absurd hc (by simp [h2, isNumeral])
      · exact absurd hc (by simp [h3, isNumeral])
      · exact absurd hc (by simp [h4, isNumeral])
      · rfl
    · rintro rfl
      exact absurd hc (by decide)
  | str s => exact ⟨'"', _, rfl, rfl, by decide⟩
  | arr xs => exact ⟨'[', _, rfl, rfl, by decide⟩
  | obj fields => exact ⟨'\x7b', _, rfl, rfl, by decide⟩

theorem form_eq {j k : Json} {r r' : List Char} (h : j.chars ++ r = k.chars ++ r') : j.form = k.form := by
  obtain ⟨c, rest, hj, hform, _⟩ := j.chars_head
  obtain ⟨c', rest', hk, hform', _⟩ := k.chars_head
  rw [hj, hk, List.cons_append, List.cons_append] at h
  rw [← hform, ← hform', (List.cons.inj h).1]

theorem chars_ne_bracket (j : Json) (r r' : List Char) : j.chars ++ r ≠ ']' :: r' := by
  obtain ⟨c, rest, hj, _, hne⟩ := j.chars_head
  rw [hj, List.cons_append]
  intro h
  exact hne (List.cons.inj h).1

/-- The encoding of an object's member. -/
def member (field : String × Json) : List Char := quote field.1 ++ ':' :: field.2.chars

theorem elements_eq (xs : List Json) : elements xs = joined ',' chars xs := by
  induction xs with
  | nil => rfl
  | cons x xs ih =>
    cases xs with
    | nil => simp [elements, joined]
    | cons y ys => rw [elements, ih]; simp [joined]

theorem members_eq (fields : List (String × Json)) : members fields = joined ',' member fields := by
  induction fields with
  | nil => rfl
  | cons f fields ih =>
    cases fields with
    | nil => simp [members, joined, member]
    | cons g gs => rw [members, ih]; simp [joined, member]

theorem recognised_member {field : String × Json} (h : Recognised Closed chars field.2) :
    Recognised Closed member field := by
  intro other r r' hr hr' heq
  simp only [member, List.append_assoc, List.cons_append] at heq
  obtain ⟨hname, hrest⟩ := recognised_quote (fun _ => True) field.1 other.1 _ _ trivial trivial heq
  obtain ⟨hvalue, rfl⟩ := h other.2 r r' hr hr' (List.cons.inj hrest).2
  exact ⟨Prod.ext hname hvalue, rfl⟩

/-- Every value is recognised before a comma, a closing bracket or the end of the text. -/
theorem recognised_chars (j : Json) : Recognised Closed chars j := by
  -- the first character tells the constructor of the other value; then the parts are compared
  induction j using Json.induct with
  | null =>
    intro k r r' _ _ h
    cases k with
    | null => exact ⟨rfl, List.append_cancel_left h⟩
    | _ => exact absurd (form_eq h) (by simp [form])
  | num n =>
    intro k r r' hr hr' h
    cases k with
    | num m =>
      obtain ⟨rfl, rfl⟩ := recognised_num n m r r' hr hr' h
      exact ⟨rfl, rfl⟩
    | _ => exact absurd (form_eq h) (by simp [form])
  | str s =>
    intro k r r' hr hr' h
    cases k with
    | str t =>
      obtain ⟨rfl, rfl⟩ := recognised_quote Closed s t r r' hr hr' h
      exact ⟨rfl, rfl⟩
    | _ => exact absurd (form_eq h) (by simp [form])
  | arr xs ih =>
    intro k r r' _ _ h
    cases k with
    | arr ys =>
      simp only [chars, elements_eq, List.cons_append, List.append_assoc, List.nil_append,
        List.cons.injEq, true_and] at h
      obtain ⟨rfl, rfl⟩ := joined_inj (by decide) closed_comma closed_bracket chars_ne_bracket ih h
      exact ⟨rfl, rfl⟩
    | _ => exact absurd (form_eq h) (by simp [form])
  | obj fields ih =>
    intro k r r' _ _ h
    cases k with
    | obj fields' =>
      simp only [chars, members_eq, List.cons_append, List.append_assoc, List.nil_append,
        List.cons.injEq, true_and] at h
      obtain ⟨rfl, rfl⟩ := joined_inj (by decide) closed_comma closed_brace
        (fun f r r' heq => absurd (List.cons.inj heq).1 (by decide))
        (fun f hf => recognised_member (ih f hf)) h
      exact ⟨rfl, rfl⟩
    | _ => exact absurd (form_eq h) (by simp [form])

/-- The compact encoding determines the value. -/
theorem encode_inj {j k : Json} (h : j.encode = k.encode) : j = k := by
  have hchars : j.chars = k.chars := String.ofList_inj.1 h
  exact (recognised_chars j k [] [] closed_nil closed_nil (by rw [hchars])).1

end AgentScale.Json
