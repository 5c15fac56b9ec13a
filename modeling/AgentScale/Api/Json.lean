import Mathlib.Init

set_option autoImplicit false

/-! # Compact JSON

The text `serde_json::to_vec` writes: no whitespace, object fields in declaration order, strings with
serde's escapes. Signatures are made over these texts, and the database keeps invitations in this
form. -/

namespace AgentScale

/-- A JSON value, as far as the messages of this program need it. -/
inductive Json where
  | null
  | num (n : Int)
  | str (s : String)
  | arr (xs : List Json)
  | obj (fields : List (String × Json))

namespace Json

/-- A lower-case hexadecimal digit. -/
def hexDigit (n : Nat) : Char :=
  if n < 10 then Char.ofNat (48 + n) else Char.ofNat (87 + n)

/-- The escape serde_json writes for one character inside a string. -/
def escapeChar (c : Char) : List Char :=
  if c = '"' then ['\\', '"']
  else if c = '\\' then ['\\', '\\']
  else if c.toNat = 8 then ['\\', 'b']
  else if c.toNat = 9 then ['\\', 't']
  else if c.toNat = 10 then ['\\', 'n']
  else if c.toNat = 12 then ['\\', 'f']
  else if c.toNat = 13 then ['\\', 'r']
  else if c.toNat < 32 then
    ['\\', 'u', '0', '0', hexDigit (c.toNat / 16), hexDigit (c.toNat % 16)]
  else [c]

def quote (s : String) : List Char :=
  '"' :: (s.toList.flatMap escapeChar ++ ['"'])

mutual
/-- The characters of a value's compact encoding. -/
def chars : Json → List Char
  | .null => "null".toList
  | .num n => (toString n).toList
  | .str s => quote s
  | .arr xs => '[' :: (elements xs ++ [']'])
  | .obj fields => '\x7b' :: (members fields ++ ['\x7d'])

/-- Array elements, separated by commas. -/
def elements : List Json → List Char
  | [] => []
  | [x] => chars x
  | x :: y :: rest => chars x ++ ',' :: elements (y :: rest)

/-- Object members, separated by commas. -/
def members : List (String × Json) → List Char
  | [] => []
  | [(name, x)] => quote name ++ ':' :: chars x
  | (name, x) :: y :: rest => quote name ++ ':' :: (chars x ++ ',' :: members (y :: rest))
end

/-- `serde_json::to_vec`, as text. -/
def encode (j : Json) : String := String.ofList j.chars

end Json

/-- Types with a serde `Serialize` instance. -/
class ToJson (α : Type) where
  toJson : α → Json

export ToJson (toJson)

instance : ToJson String := ⟨.str⟩

instance : ToJson Nat := ⟨fun n => .num n⟩

instance : ToJson Int := ⟨.num⟩

instance : ToJson UInt16 := ⟨fun n => .num n.toNat⟩

instance : ToJson UInt8 := ⟨fun n => .num n.toNat⟩

instance {α : Type} [ToJson α] : ToJson (List α) := ⟨fun xs => .arr (xs.map toJson)⟩

/-- `Option` without `skip_serializing_if`: `None` is `null`. -/
instance {α : Type} [ToJson α] : ToJson (Option α) :=
  ⟨fun o => match o with | some a => toJson a | none => .null⟩

/-- A field with `skip_serializing_if = "Option::is_none"`. -/
def optionalField {α : Type} [ToJson α] (name : String) : Option α → List (String × Json)
  | some a => [(name, toJson a)]
  | none => []

end AgentScale
