import AgentScale.Api.Platform

set_option autoImplicit false

/-! # A platform to compute with

An instance of `Platform` for concrete runs. Keys are the published Ed25519 test keys, the SHA-256
values are the real ones of the texts listed, tokens are base64url of JSON as in the source. The runs
contain only signatures made by the right key over the right message, so a signature is represented by
its signer. The credentials a run presents to a Relay have short names in place of their texts. -/

namespace AgentScale.Reference

open ControlApi RelayApi

/-! ## Keys -/

def controlKey : SecretKey :=
  ⟨[0x9d, 0x61, 0xb1, 0x9d, 0xef, 0xfd, 0x5a, 0x60, 0xba, 0x84, 0x4a, 0xf4, 0x92, 0xec, 0x2c, 0xc4,
    0x44, 0x49, 0xc5, 0x69, 0x7b, 0x32, 0x69, 0x19, 0x70, 0x3b, 0xac, 0x03, 0x1c, 0xae, 0x7f, 0x60]⟩

def nodeKey : SecretKey :=
  ⟨[0x4c, 0xcd, 0x08, 0x9b, 0x28, 0xff, 0x96, 0xda, 0x9d, 0xb6, 0xc3, 0x46, 0xec, 0x11, 0x4e, 0x0f,
    0x5b, 0x8a, 0x31, 0x9f, 0x35, 0xab, 0xa6, 0x24, 0xda, 0x8c, 0xf6, 0xed, 0x4f, 0xb8, 0xa6, 0xfb]⟩

/-- The secret key of a second node. -/
def otherKey : SecretKey :=
  ⟨[0xc5, 0xaa, 0x8d, 0xf4, 0x3f, 0x9f, 0x83, 0x7b, 0xed, 0xb7, 0x44, 0x2f, 0x31, 0xdc, 0xb7, 0xb1,
    0x66, 0xd3, 0x85, 0x35, 0x07, 0x6f, 0x09, 0x4b, 0x85, 0xce, 0x3a, 0x2e, 0x0b, 0x44, 0x58, 0xf7]⟩

def publicKey (key : SecretKey) : String :=
  if key = controlKey then "d75a980182b10ab7d54bfed3c964073a0ee172f3daa62325af021a68f707511a"
  else if key = nodeKey then "3d4017c3e843895a92b70aa74d1b7ebc9c982ccf2ec4968cc0cd55f12af4660c"
  else "fc51cd8e6218a1a38da47ed00230f0580816ed13ba3303ac5deb911548908025"

/-- A key in the form `Display` prints: 64 lower-case hexadecimal digits. -/
def isKeyText (s : String) : Bool :=
  s.toList.length = 64 && s.toList.all (fun c => ('0' ≤ c && c ≤ '9') || ('a' ≤ c && c ≤ 'f'))

def parseKey (s : String) : Option String := if isKeyText s then some s else none

theorem parseKey_display (s t : String) (h : parseKey s = some t) : parseKey t = some t := by
  unfold parseKey at h ⊢
  split at h
  · next hs =>
    cases h
    exact if_pos hs
  · cases h

theorem parseKey_publicKey (key : SecretKey) : parseKey (publicKey key) = some (publicKey key) := by
  unfold publicKey
  split
  · decide +kernel
  · split <;> decide +kernel

theorem parseKey_visible (s t : String) (h : parseKey s = some t) :
    ∀ c ∈ t.toList, isWhitespace c = false := by
  unfold parseKey at h
  split at h
  · next hs =>
    cases h
    simp only [isKeyText, Bool.and_eq_true, List.all_eq_true, Bool.or_eq_true,
      decide_eq_true_eq] at hs
    intro c hc
    have hdigit := hs.2 c hc
    simp only [Char.le_def, UInt32.le_iff_toNat_le] at hdigit
    have hcode : (48 ≤ c.toNat ∧ c.toNat ≤ 57) ∨ (97 ≤ c.toNat ∧ c.toNat ≤ 102) := hdigit
    simp only [isWhitespace, Bool.or_eq_false_iff, Bool.and_eq_false_iff, decide_eq_false_iff_not]
    omega
  · cases h

/-! ## Hashes and tokens -/

/-- SHA-256 of the texts the runs use. -/
def digests : List (String × String) :=
  [("agent-scale-invite-secret-v2\x00YWdlbnQtc2NhbGUtam9pbi1zZWNyZXQtMDAwMDAwMDE",
    "fdcb3d73d0ccfff1e398328299607fa9ba6a9cbc77503bb1f19fff9369da1c5e"),
    ("agent-scale-control-provisioner-action-v1\x00" ++
      "\x7b\"action\":\"invite_client\",\"name\":\"b\",\"ttl_secs\":3600," ++
      "\"secret\":\"YWdlbnQtc2NhbGUtam9pbi1zZWNyZXQtMDAwMDAwMDE\"\x7d",
    "fd0d898cd76adf6b8e4fd2a0d4fd32f768bc3fe44449eab100895ee555accdc3")]

def sha256Hex (text : String) : String :=
  ((digests.find? (·.1 = text)).map Prod.snd).getD ""

/-- The base64url digit of a six-bit value. -/
def base64Digit (n : Nat) : Char :=
  if n < 26 then Char.ofNat (65 + n) else if n < 52 then Char.ofNat (71 + n)
  else if n < 62 then Char.ofNat (n - 4) else if n = 62 then '-' else '_'

/-- base64url without padding. -/
def base64Url : List Nat → List Char
  | a :: b :: c :: rest =>
    base64Digit (a / 4) :: base64Digit (a % 4 * 16 + b / 16) ::
      base64Digit (b % 16 * 4 + c / 64) :: base64Digit (c % 64) :: base64Url rest
  | [a, b] =>
    [base64Digit (a / 4), base64Digit (a % 4 * 16 + b / 16), base64Digit (b % 16 * 4)]
  | [a] => [base64Digit (a / 4), base64Digit (a % 4 * 16)]
  | [] => []

/-- base64url of a text's UTF-8 bytes. -/
def encodeText (text : String) : String :=
  String.ofList (base64Url ((text.toList.flatMap String.utf8EncodeChar).map UInt8.toNat))

def encodeJoinToken (token : JoinToken) : String :=
  encodeText (Json.obj [("invite", toJson token.invite), ("secret", toJson token.secret),
    ("signature", toJson token.signature.text)]).encode

/-- The text of a signed credential: its name, if it has one. -/
def encodeRelayCredential (named : List (String × SignedRelayCredential))
    (signed : SignedRelayCredential) : String :=
  match named.find? (·.2 = signed) with
  | some entry => entry.1
  | none => encodeText (Json.obj [("credential", toJson signed.credential),
      ("signature", toJson signed.signature.text)]).encode

def decodeRelayCredential (named : List (String × SignedRelayCredential)) (text : String) :
    Except String SignedRelayCredential :=
  match named.find? (·.1 = text) with
  | some entry => .ok entry.2
  | none => .error "invalid Relay credential encoding"

/-! ## URLs -/

/-- The digits after the host; 443 is the default port of `https`. -/
def parsePort (s : String) : Option (Option UInt16) :=
  let digits := s.toList
  let n := digits.foldl (fun n c => 10 * n + (c.toNat - '0'.toNat)) 0
  if digits.all Char.isDigit && n < 2 ^ 16 then
    some (if digits = [] || n = 443 then none else some (UInt16.ofNat n))
  else none

/-- `https` URLs without query and fragment. -/
def parseUrl (s : String) : Option Url := do
  let chars := s.toList
  let rest := chars.drop 8
  let authority := String.ofList (rest.takeWhile (· ≠ '/'))
  let path := rest.dropWhile (· ≠ '/')
  let (user, address) := (splitOnce '@' authority).getD ("", authority)
  let (host, digits) := (splitOnce ':' address).getD (address, "")
  let port ← parsePort digits
  if chars.take 8 = "https://".toList && host ≠ "" && chars.all (fun c => c ≠ '?' && c ≠ '#') then
    some { scheme := "https", username := ((splitOnce ':' user).map Prod.fst).getD user,
           password := (splitOnce ':' user).map Prod.snd, hostStr := some host, port,
           path := if path = [] then "/" else String.ofList path, query := none, fragment := none }
  else none

def printUrl (url : Url) : String :=
  let password := (url.password.map (":" ++ ·)).getD ""
  let user := if url.username = "" && password = "" then "" else url.username ++ password ++ "@"
  let port := (url.port.map (fun port => ":" ++ toString port.toNat)).getD ""
  url.scheme ++ "://" ++ user ++ url.hostStr.getD "" ++ port ++ url.path

example : (parseUrl "https://as:pw@relay.test:8443/x").map printUrl =
    some "https://as:pw@relay.test:8443/x" := by decide +kernel

/-! ## The platform -/

def platform (named : List (String × SignedRelayCredential)) : Platform where
  parseKey := parseKey
  parseKey_display := parseKey_display
  parseKey_visible := parseKey_visible
  keyError := fun _ => "invalid length"
  publicKey := publicKey
  parseKey_publicKey := parseKey_publicKey
  sign := fun key _ => ⟨publicKey key⟩
  verify := fun id _ signature => signature.text = id
  verify_sign := fun key _ => by simp
  sha256Hex := sha256Hex
  encodeJoinToken := encodeJoinToken
  encodeRelayCredential := encodeRelayCredential named
  decodeRelayCredential := decodeRelayCredential named
  parseUrl := parseUrl
  urlError := fun _ => "relative URL without a base"
  printUrl := printUrl
  csrAltNames := fun _ => .error "invalid certificate request"
  hostAltNames := fun host => .ok [host]
  signCertificate := fun _ _ _ => .error "invalid certificate request"

end AgentScale.Reference
