import Mathlib.Data.List.Basic
import Mathlib.Tactic.Common

set_option autoImplicit false

/-! # Hexadecimal text

Bytes are written as two lower-case digits each; a reader accepts digits of either case. A text is read
as some bytes exactly when its lower-case form is how they are written (`decode_eq_some`), so case is
the only freedom a writer has. -/

namespace Hex

/-- The digit of a value below sixteen. -/
def digit (n : Nat) : Char := if n < 10 then Char.ofNat (48 + n) else Char.ofNat (87 + n)

/-- The value of a digit of either case. -/
def value (c : Char) : Option Nat :=
  if 48 ≤ c.toNat ∧ c.toNat ≤ 57 then some (c.toNat - 48)
  else if 97 ≤ c.toNat ∧ c.toNat ≤ 102 then some (c.toNat - 87)
  else if 65 ≤ c.toNat ∧ c.toNat ≤ 70 then some (c.toNat - 55)
  else none

/-- Bytes as lower-case digits. -/
def encode (bytes : List UInt8) : List Char :=
  bytes.flatMap fun byte => [digit (byte.toNat / 16), digit (byte.toNat % 16)]

/-- The bytes two digits at a time stand for. -/
def decode : List Char → Option (List UInt8)
  | [] => some []
  | [_] => none
  | a :: b :: rest => do
    let high ← value a
    let low ← value b
    let bytes ← decode rest
    return UInt8.ofNat (16 * high + low) :: bytes

/-! ## Digits -/

theorem toNat_digit {n : Nat} (h : n < 16) :
    (digit n).toNat = if n < 10 then 48 + n else 87 + n := by
  have hall : ∀ m : Fin 16, (digit m).toNat = if m.1 < 10 then 48 + m.1 else 87 + m.1 := by decide
  exact hall ⟨n, h⟩

theorem toNat_toLower (c : Char) :
    c.toLower.toNat = if 65 ≤ c.toNat ∧ c.toNat ≤ 90 then c.toNat + 32 else c.toNat := by
  have hcode : (c.val ≥ 'A'.val ∧ c.val ≤ 'Z'.val) ↔ (65 ≤ c.toNat ∧ c.toNat ≤ 90) := by
    simp only [ge_iff_le, UInt32.le_iff_toNat_le]
    rfl
  unfold Char.toLower
  split
  · next h =>
    have h' := hcode.1 h
    rw [if_pos h']
    have hval : c.val.toNat = c.toNat := rfl
    simp only [Char.toNat, UInt32.toNat_add]
    have hshift : ('a'.val - 'A'.val).toNat = 32 := rfl
    rw [hshift]
    omega
  · next h => rw [if_neg (fun h' => h (hcode.2 h'))]

/-- A digit has a value when its lower-case form is the digit of that value. -/
theorem value_eq_some {c : Char} {n : Nat} : value c = some n ↔ n < 16 ∧ c.toLower = digit n := by
  have hcode : n < 16 → (c.toLower = digit n ↔ c.toLower.toNat = (digit n).toNat) := fun _ =>
    ⟨congrArg Char.toNat, fun h => Char.ext (UInt32.toNat_inj.1 h)⟩
  constructor
  · intro h
    have hn : n < 16 ∧ c.toLower.toNat = if n < 10 then 48 + n else 87 + n := by
      rw [toNat_toLower]
      unfold value at h
      split_ifs at h
      all_goals
        cases h
        refine ⟨by omega, ?_⟩
        split_ifs <;> omega
    exact ⟨hn.1, (hcode hn.1).2 (hn.2.trans (toNat_digit hn.1).symm)⟩
  · rintro ⟨hn, h⟩
    have h' := ((hcode hn).1 h).trans (toNat_digit hn)
    rw [toNat_toLower] at h'
    unfold value
    split_ifs at h' ⊢
    all_goals first
      | exact congrArg some (by omega)
      | omega

/-! ## Texts -/

@[simp] theorem encode_nil : encode [] = [] := rfl

@[simp] theorem encode_cons (byte : UInt8) (bytes : List UInt8) :
    encode (byte :: bytes) = digit (byte.toNat / 16) :: digit (byte.toNat % 16) :: encode bytes := rfl

theorem halves_eq {high low : Nat} {byte : UInt8} (hhigh : high < 16) (hlow : low < 16) :
    UInt8.ofNat (16 * high + low) = byte ↔ high = byte.toNat / 16 ∧ low = byte.toNat % 16 := by
  have hbyte := byte.toNat_lt
  rw [← UInt8.toNat_inj, UInt8.toNat_ofNat']
  omega

/-- **What is accepted.** A text is read as some bytes exactly when its lower-case form is how they are
    written. -/
theorem decode_eq_some {text : List Char} {bytes : List UInt8} :
    decode text = some bytes ↔ text.map Char.toLower = encode bytes := by
  -- two characters are one byte: the cases are those of `decode`
  induction text using decode.induct generalizing bytes with
  | case1 => cases bytes <;> simp [decode]
  | case2 c => cases bytes <;> simp [decode]
  | case3 a b rest ih =>
    cases bytes with
    | nil => simp [decode, Option.bind_eq_some_iff]
    | cons byte bytes =>
      have hbyte := byte.toNat_lt
      simp only [decode, bind, pure, Option.bind_eq_some_iff, Option.some.injEq,
        List.cons.injEq, List.map_cons, encode_cons]
      constructor
      · rintro ⟨high, hhigh, low, hlow, _, hrest, heq, rfl⟩
        obtain ⟨hhigh16, hhigh⟩ := value_eq_some.1 hhigh
        obtain ⟨hlow16, hlow⟩ := value_eq_some.1 hlow
        obtain ⟨rfl, rfl⟩ := (halves_eq hhigh16 hlow16).1 heq
        exact ⟨hhigh, hlow, ih.1 hrest⟩
      · rintro ⟨hhigh, hlow, hrest⟩
        refine ⟨_, value_eq_some.2 ⟨by omega, hhigh⟩, _, value_eq_some.2 ⟨by omega, hlow⟩, bytes,
          ih.2 hrest, (halves_eq (by omega) (by omega)).2 ⟨rfl, rfl⟩, rfl⟩

/-- A digit is its own lower-case form. -/
theorem toLower_digit {n : Nat} (h : n < 16) : (digit n).toLower = digit n := by
  refine Char.ext (UInt32.toNat_inj.1 ?_)
  have hlower := toNat_toLower (digit n)
  rw [toNat_digit h] at hlower
  refine hlower.trans (Eq.trans ?_ (toNat_digit h).symm)
  split_ifs <;> omega

theorem map_toLower_encode (bytes : List UInt8) :
    (encode bytes).map Char.toLower = encode bytes := by
  induction bytes with
  | nil => rfl
  | cons byte bytes ih =>
    have hbyte := byte.toNat_lt
    rw [encode_cons, List.map_cons, List.map_cons, ih, toLower_digit (by omega),
      toLower_digit (by omega)]

theorem decode_encode (bytes : List UInt8) : decode (encode bytes) = some bytes :=
  decode_eq_some.2 (map_toLower_encode bytes)

/-- Every character of a text that is read is a digit. -/
theorem exists_value {text : List Char} {bytes : List UInt8} (h : decode text = some bytes) :
    ∀ c ∈ text, ∃ n, value c = some n := by
  induction text using decode.induct generalizing bytes with
  | case1 => simp
  | case2 => exact absurd h (by simp [decode])
  | case3 a b rest ih =>
    simp only [decode, bind, pure, Option.bind_eq_some_iff] at h
    obtain ⟨high, hhigh, low, hlow, bytes', hrest, _⟩ := h
    intro c hc
    rcases List.mem_cons.1 hc with rfl | hc
    · exact ⟨high, hhigh⟩
    rcases List.mem_cons.1 hc with rfl | hc
    · exact ⟨low, hlow⟩
    · exact ih hrest c hc

theorem encode_visible (bytes : List UInt8) : ∀ c ∈ encode bytes, 32 ≤ c.toNat ∧ c.toNat < 127 := by
  intro c hc
  obtain ⟨n, hn⟩ := exists_value (decode_encode bytes) c hc
  unfold value at hn
  split_ifs at hn <;> omega

end Hex
