import AgentScale.Api.Messages
import AgentScale.Library.Checked

set_option autoImplicit false

/-! # What the program takes from its libraries

`Platform` collects the third-party functions the program calls: Ed25519 keys and signatures
(`iroh_base`), SHA-256, base64url tokens, URLs (`url`) and certificates (`rcgen`). Only the laws the
program relies on are fields; everything else about these functions is left open.

An `EndpointId` is a public key. It is represented by the text its `Display` instance prints, together
with the fact that this text parses back to the same key. -/

namespace AgentScale

/-- `url::Url`, by its parts; the port is `none` if it is the default one of the scheme. -/
structure Url where
  scheme : String
  username : String
  password : Option String
  hostStr : Option String
  port : Option UInt16
  path : String
  query : Option String
  fragment : Option String
deriving DecidableEq

def isWhitespace (c : Char) : Bool :=
  let n := c.toNat
  (9 ≤ n && n ≤ 13) || n = 32 || n = 0x85 || n = 0xA0 || n = 0x1680 || (0x2000 ≤ n && n ≤ 0x200A) ||
    n = 0x2028 || n = 0x2029 || n = 0x202F || n = 0x205F || n = 0x3000

/-- The library functions the program is linked against. -/
structure Platform where
  /-- `iroh_base::PublicKey::from_str`, giving the key by its `Display` text. -/
  parseKey : String → Option String
  /-- What `Display` prints is parsed back to the same key. -/
  parseKey_display : ∀ s t, parseKey s = some t → parseKey t = some t
  /-- `Display` prints no white space. -/
  parseKey_visible : ∀ s t, parseKey s = some t → ∀ c ∈ t.toList, isWhitespace c = false
  /-- The text of the error `from_str` returns on a text that is not a key. -/
  keyError : String → String
  /-- `iroh_base::SecretKey::public`, by its `Display` text. -/
  publicKey : SecretKey → String
  parseKey_publicKey : ∀ key, parseKey (publicKey key) = some (publicKey key)
  sign : SecretKey → String → Signature
  verify : String → String → Signature → Bool
  verify_sign : ∀ key message, verify (publicKey key) message (sign key message) = true
  /-- SHA-256 of a text's UTF-8 bytes, in lower-case hexadecimal. -/
  sha256Hex : String → String
  /-- base64url of a join token's JSON. -/
  encodeJoinToken : ControlApi.JoinToken → String
  /-- base64url of a signed credential's JSON. -/
  encodeRelayCredential : RelayApi.SignedRelayCredential → String
  /-- The reverse; the error is the message of the failing stage. -/
  decodeRelayCredential : String → Except String RelayApi.SignedRelayCredential
  /-- `url::Url::parse`. -/
  parseUrl : String → Option Url
  /-- The text of the error `Url::parse` returns. -/
  urlError : String → String
  /-- `url::Url::to_string`. -/
  printUrl : Url → String
  /-- The subject alternative names of a DER certificate signing request. -/
  csrAltNames : List UInt8 → Except String (List String)
  /-- The subject alternative names `rcgen::CertificateParams::new` makes of one host. -/
  hostAltNames : String → Except String (List String)
  /-- The certificate the Relay CA signs for a request and host, valid from the day before the given
      time. -/
  signCertificate : List UInt8 → String → Int → Except String (List UInt8)

variable (P : Platform)

/-! ## Endpoint identities -/

structure EndpointId (P : Platform) where
  text : String
  display : P.parseKey text = some text
deriving DecidableEq

def parseEndpointId (s : String) : Option (EndpointId P) :=
  match h : P.parseKey s with
  | some t => some ⟨t, P.parseKey_display s t h⟩
  | none => none

def SecretKey.public (key : SecretKey) : EndpointId P :=
  ⟨P.publicKey key, P.parseKey_publicKey key⟩

@[simp] theorem parseEndpointId_text (e : EndpointId P) : parseEndpointId P e.text = some e := by
  unfold parseEndpointId
  split
  · next t h =>
    have ht : t = e.text := by
      rw [e.display] at h
      exact (Option.some.inj h).symm
    subst ht
    rfl
  · next h => simp [e.display] at h

theorem EndpointId.ext_text {P : Platform} {a b : EndpointId P} (h : a.text = b.text) : a = b := by
  cases a
  cases b
  simpa using h

def EndpointId.verify {P : Platform} (e : EndpointId P) (message : String) (signature : Signature) :
    Bool :=
  P.verify e.text message signature

/-! ## Text helpers of the standard library -/

def trimEndMatches (c : Char) (s : String) : String :=
  String.ofList (s.toList.reverse.dropWhile (· = c)).reverse

def trimIsEmpty (s : String) : Bool := s.toList.all isWhitespace

def trim (s : String) : String :=
  String.ofList ((s.toList.dropWhile isWhitespace).reverse.dropWhile isWhitespace).reverse

/-- A line of visible characters is trimmed to what stands before its end. -/
theorem trim_line {s : String} (h : ∀ c ∈ s.toList, isWhitespace c = false) :
    trim (s ++ "\n") = s := by
  have hstart : (s.toList ++ ['\n']).dropWhile isWhitespace = s.toList ++ ['\n'] ∨ s.toList = [] := by
    cases hs : s.toList with
    | nil => exact .inr rfl
    | cons c rest =>
      left
      rw [List.cons_append, List.dropWhile_cons_of_neg]
      simp [h c (by simp [hs])]
  have hend : s.toList.reverse.dropWhile isWhitespace = s.toList.reverse := by
    cases hs : s.toList.reverse with
    | nil => rfl
    | cons c rest =>
      rw [List.dropWhile_cons_of_neg]
      simp [h c (by rw [← List.mem_reverse, hs]; exact List.mem_cons_self)]
  have hnewline : isWhitespace '\n' = true := by decide
  rcases hstart with hstart | hempty
  · simp [trim, hstart, hnewline, hend]
  · obtain rfl : s = "" := String.toList_inj.1 hempty
    decide +kernel

def splitOnce (c : Char) (s : String) : Option (String × String) :=
  match s.toList.span (· ≠ c) with
  | (_, []) => none
  | (before, _ :: after) => some (String.ofList before, String.ofList after)

def isAsciiAlphanumeric (c : Char) : Bool :=
  ('a' ≤ c && c ≤ 'z') || ('A' ≤ c && c ≤ 'Z') || ('0' ≤ c && c ≤ '9')

open Checked

/-! ## control-api -/

namespace ControlApi

def INVITE_DOMAIN : String := "agent-scale-control-invite-v5\x00"
def CLAIM_DOMAIN : String := "agent-scale-control-claim-v5\x00"
def EDGE_INVITE_REQUEST_DOMAIN : String := "agent-scale-control-edge-invite-request-v5\x00"
def EDGE_REMOVE_REQUEST_DOMAIN : String := "agent-scale-control-edge-remove-request-v5\x00"
def STATUS_REQUEST_DOMAIN : String := "agent-scale-control-status-request-v5\x00"
def WATCH_DOMAIN : String := "agent-scale-control-watch-v5\x00"
def MAP_DOMAIN : String := "agent-scale-control-map-v5\x00"

/-- The text a signature is made over: a fixed domain followed by the payload's JSON. -/
def domainBytes {α : Type} [ToJson α] (domain : String) (value : α) : String :=
  domain ++ (toJson value).encode

def ensureProtocolVersion (version : Nat) : Except String Unit :=
  ensure (version = CONTROL_PROTOCOL_VERSION)
    ("unsupported control protocol version " ++ toString version ++ "; expected " ++
      toString CONTROL_PROTOCOL_VERSION)

def hashSecret (secret : String) : String :=
  P.sha256Hex ("agent-scale-invite-secret-v2\x00" ++ secret)

/-- Stable digest used to reject reuse of an idempotency key for another action. -/
def actionHash (action : ProvisionerAction) : String :=
  P.sha256Hex ("agent-scale-control-provisioner-action-v1\x00" ++ (toJson action).encode)

def JoinToken.new (invite : Invite) (secret : String) (key : SecretKey) : JoinToken :=
  { invite, secret, signature := P.sign key (domainBytes INVITE_DOMAIN invite) }

def JoinToken.verify (token : JoinToken) : Except String (EndpointId P) := do
  ensureProtocolVersion token.invite.protocolVersion
  let id ← okOr (parseEndpointId P token.invite.controlId) "invalid control id"
  ensure (id.verify (domainBytes INVITE_DOMAIN token.invite) token.signature)
    "invalid invite signature"
  ensure (hashSecret P token.secret = token.invite.secretHash) "invalid invite secret"
  return id

def JoinToken.joinUrl (token : JoinToken) : String :=
  trimEndMatches '/' token.invite.controlUrl ++ "/join#" ++ P.encodeJoinToken token

def ClaimRequest.verify (request : ClaimRequest) : Except String (EndpointId P) := do
  ensureProtocolVersion request.claim.protocolVersion
  ensure (request.claim.inviteId = request.token.invite.inviteId) "invite id mismatch"
  let id ← okOr (parseEndpointId P request.claim.endpointId) "invalid endpoint id"
  ensure (id.verify (domainBytes CLAIM_DOMAIN request.claim) request.signature)
    "invalid claim signature"
  return id

def EdgeInviteRequest.signingBytes (r : EdgeInviteRequest) : String :=
  EDGE_INVITE_REQUEST_DOMAIN ++ (Json.arr [toJson r.protocolVersion, toJson r.clientId,
    toJson r.audience, toJson r.requestId, toJson r.issuedAt, toJson r.name,
    toJson r.ttlSecs]).encode

def EdgeInviteRequest.verify (r : EdgeInviteRequest) : Except String (EndpointId P) := do
  ensureProtocolVersion r.protocolVersion
  let id ← okOr (parseEndpointId P r.clientId) "invalid client id"
  ensure (id.verify r.signingBytes r.signature) "invalid edge invitation request signature"
  return id

def EdgeRemoveRequest.signingBytes (r : EdgeRemoveRequest) : String :=
  EDGE_REMOVE_REQUEST_DOMAIN ++ (Json.arr [toJson r.protocolVersion, toJson r.clientId,
    toJson r.audience, toJson r.nonce, toJson r.issuedAt, toJson r.name,
    toJson r.endpointId]).encode

def EdgeRemoveRequest.verify (r : EdgeRemoveRequest) : Except String (EndpointId P) := do
  ensureProtocolVersion r.protocolVersion
  let _ ← okOr (parseEndpointId P r.endpointId) "invalid edge endpoint id"
  let id ← okOr (parseEndpointId P r.clientId) "invalid client id"
  ensure (id.verify r.signingBytes r.signature) "invalid edge removal request signature"
  return id

def StatusRequest.signingBytes (r : StatusRequest) : String :=
  STATUS_REQUEST_DOMAIN ++ (Json.arr [toJson r.protocolVersion, toJson r.clientId, toJson r.audience,
    toJson r.issuedAt, toJson r.nonce]).encode

def StatusRequest.verify (r : StatusRequest) : Except String (EndpointId P) := do
  ensureProtocolVersion r.protocolVersion
  let id ← okOr (parseEndpointId P r.clientId) "invalid client id"
  ensure (id.verify r.signingBytes r.signature) "invalid status request signature"
  return id

def WatchRequest.signingBytes (r : WatchRequest) : String :=
  WATCH_DOMAIN ++ (Json.arr [toJson r.protocolVersion, toJson r.endpointId, toJson r.knownRevision,
    toJson r.issuedAt, toJson r.nonce, toJson r.relayQadPort]).encode

def WatchRequest.verify (r : WatchRequest) : Except String (EndpointId P) := do
  ensureProtocolVersion r.protocolVersion
  let id ← okOr (parseEndpointId P r.endpointId) "invalid endpoint id"
  ensure (id.verify r.signingBytes r.signature) "invalid watch signature"
  return id

def SignedNodeMap.sign (map : NodeMap) (key : SecretKey) : SignedNodeMap :=
  { map, signature := P.sign key (domainBytes MAP_DOMAIN map) }

def SignedNodeMap.verify (s : SignedNodeMap) (controlId recipient : EndpointId P) :
    Except String Unit := do
  ensureProtocolVersion s.map.protocolVersion
  ensure (s.map.controlId = controlId.text) "control id mismatch"
  ensure (s.map.recipientId = recipient.text) "map recipient mismatch"
  ensure (controlId.verify (domainBytes MAP_DOMAIN s.map) s.signature) "invalid node map signature"

end ControlApi

/-! ## relay-api -/

namespace RelayApi

def CREDENTIAL_DOMAIN : String := "agent-scale-relay-credential-v3\x00"
def REVOCATION_DOMAIN : String := "agent-scale-relay-revocations-v3\x00"

def canonicalBytes {α : Type} [ToJson α] (domain : String) (value : α) : String :=
  domain ++ (toJson value).encode

def ensureProtocolVersion (version : Nat) : Except String Unit :=
  ensure (version = RELAY_PROTOCOL_VERSION)
    ("unsupported Relay protocol version " ++ toString version ++ "; expected " ++
      toString RELAY_PROTOCOL_VERSION)

def RelayCredential.parsedEndpointId (c : RelayCredential) : Except String (EndpointId P) :=
  okOr (parseEndpointId P c.endpointId) "invalid credential endpoint id"

def RelayCredential.validate (c : RelayCredential) : Except String Unit := do
  ensureProtocolVersion c.protocolVersion
  ensure (c.audience ≠ "") "credential audience is empty"
  ensure (0 < c.generation) "credential generation must be positive"
  ensure (c.issuedAt < c.expiresAt) "credential expiry must follow issuance"
  let _ ← c.parsedEndpointId P
  let _ ← okOr (parseEndpointId P c.controlId) "invalid credential control id"
  return ()

def SignedRelayCredential.sign (credential : RelayCredential) (key : SecretKey) :
    Except String SignedRelayCredential := do
  credential.validate P
  return { credential, signature := P.sign key (canonicalBytes CREDENTIAL_DOMAIN credential) }

def SignedRelayCredential.verify (s : SignedRelayCredential) (controlId : EndpointId P) :
    Except String Unit := do
  ensure (s.credential.controlId = controlId.text) "control id mismatch"
  ensure (controlId.verify (canonicalBytes CREDENTIAL_DOMAIN s.credential) s.signature)
    "invalid Control signature"

/-- The endpoints and generations of an update, in order; fails on the first unparseable id. -/
def RevocationUpdate.entries (update : RevocationUpdate) : Except String (List (EndpointId P × Nat)) :=
  update.revocations.mapM (fun r => do
    let id ← okOr (parseEndpointId P r.endpointId)
      ("invalid revoked endpoint id '" ++ r.endpointId ++ "'")
    return (id, r.revokedThroughGeneration))

/-- The two range checks on one revocation of an update with the given version. -/
def checkRevocation (version : Nat) (r : Revocation) : Except String Unit := do
  ensure (0 < r.revokedThroughGeneration) "revoked generation must be positive"
  ensure (0 < r.revision ∧ r.revision ≤ version)
    "revocation revision is outside the signed update range"

def RevocationUpdate.validate (update : RevocationUpdate) : Except String Unit := do
  ensureProtocolVersion update.protocolVersion
  ensure (update.audience ≠ "") "revocation audience is empty"
  let _ ← update.revocations.mapM (checkRevocation update.version)
  let _ ← update.entries P
  return ()

def SignedRevocationUpdate.sign (update : RevocationUpdate) (key : SecretKey) :
    Except String SignedRevocationUpdate := do
  update.validate P
  return { update, signature := P.sign key (canonicalBytes REVOCATION_DOMAIN update) }

def SignedRevocationUpdate.verify (s : SignedRevocationUpdate) (controlId : EndpointId P) :
    Except String Unit :=
  ensure (controlId.verify (canonicalBytes REVOCATION_DOMAIN s.update) s.signature)
    "invalid Control signature"

end RelayApi

end AgentScale
