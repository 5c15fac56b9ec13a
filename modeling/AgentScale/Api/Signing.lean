import AgentScale.Api.JsonText
import AgentScale.Api.Platform
import AgentScale.Library.Bytes

set_option autoImplicit false

/-! # What is signed

All messages that are signed with the Ed25519 keys of Control, nodes and Provisioners, and the bytes that
are signed for them: a domain, which ends in a zero byte, and the JSON of the signed fields. For a
Provisioner's HTTP request it is the SHA-256 digest of the body instead. -/

namespace AgentScale

open ControlApi RelayApi Bytes PrefixCode

/-! ## The JSON of a message determines its fields -/

/-- Types whose JSON determines the value. -/
class LawfulToJson (α : Type) [ToJson α] : Prop where
  toJson_injective : Function.Injective (toJson : α → Json)

@[simp] theorem toJson_inj {α : Type} [ToJson α] [LawfulToJson α] {a b : α} :
    toJson a = toJson b ↔ a = b :=
  LawfulToJson.toJson_injective.eq_iff

instance : LawfulToJson String := ⟨fun _ _ h => Json.str.inj h⟩

instance : LawfulToJson Int := ⟨fun _ _ h => Json.num.inj h⟩

instance : LawfulToJson Nat := ⟨fun _ _ h => Int.ofNat.inj (Json.num.inj h)⟩

instance : LawfulToJson UInt8 := ⟨fun _ _ h => UInt8.toNat.inj (Int.ofNat.inj (Json.num.inj h))⟩

instance : LawfulToJson UInt16 := ⟨fun _ _ h => UInt16.toNat.inj (Int.ofNat.inj (Json.num.inj h))⟩

instance {α : Type} [ToJson α] [LawfulToJson α] : LawfulToJson (List α) :=
  ⟨fun _ _ h => List.map_injective_iff.2 LawfulToJson.toJson_injective (Json.arr.inj h)⟩

/-- `null` is none of the values. -/
theorem lawfulToJson_option {α : Type} [ToJson α] [LawfulToJson α]
    (hnull : ∀ a : α, toJson a ≠ Json.null) : LawfulToJson (Option α) := by
  refine ⟨fun a b h => ?_⟩
  cases a with
  | none =>
    cases b with
    | none => rfl
    | some b => exact absurd h.symm (hnull b)
  | some a =>
    cases b with
    | none => exact absurd h (hnull a)
    | some b => exact congrArg some (toJson_inj.1 h)

instance : LawfulToJson (Option UInt16) := lawfulToJson_option (fun _ h => by cases h)

instance : LawfulToJson (Option Nat) := lawfulToJson_option (fun _ h => by cases h)

instance : LawfulToJson InviteKind := by
  refine ⟨fun a b h => ?_⟩
  cases a <;> cases b <;> simp_all [toJson]

instance : LawfulToJson Invite := by
  refine ⟨fun a b h => ?_⟩
  have hfields := Json.obj.inj h
  cases a
  cases b
  simp_all

instance : LawfulToJson Claim := by
  refine ⟨fun a b h => ?_⟩
  have hfields := Json.obj.inj h
  obtain ⟨_, _, _, _, _, port, csr⟩ := a
  obtain ⟨_, _, _, _, _, port', csr'⟩ := b
  cases port <;> cases port' <;> cases csr <;> cases csr' <;> simp_all [optionalField]

instance : LawfulToJson RelayInfo := by
  refine ⟨fun a b h => ?_⟩
  have hfields := Json.obj.inj h
  cases a
  cases b
  simp_all

instance : LawfulToJson EdgeInfo := by
  refine ⟨fun a b h => ?_⟩
  have hfields := Json.obj.inj h
  cases a
  cases b
  simp_all

instance : LawfulToJson NodeMap := by
  refine ⟨fun a b h => ?_⟩
  have hfields := Json.obj.inj h
  obtain ⟨_, _, _, _, _, _, _, _, credential, _, _, _⟩ := a
  obtain ⟨_, _, _, _, _, _, _, _, credential', _, _, _⟩ := b
  cases credential <;> cases credential' <;> simp_all [optionalField]

instance : LawfulToJson ProvisionerAction := by
  refine ⟨fun a b h => ?_⟩
  cases a <;> cases b <;> first | rfl | (have hfields := Json.obj.inj h; simp_all)

instance : LawfulToJson ProvisionerRequest := by
  refine ⟨fun a b h => ?_⟩
  have hfields := Json.obj.inj h
  cases a
  cases b
  simp_all

instance : LawfulToJson RelaySubjectKind := by
  refine ⟨fun a b h => ?_⟩
  cases a <;> cases b <;> simp_all [toJson]

instance : LawfulToJson RelayCredential := by
  refine ⟨fun a b h => ?_⟩
  have hfields := Json.obj.inj h
  cases a
  cases b
  simp_all

instance : LawfulToJson Revocation := by
  refine ⟨fun a b h => ?_⟩
  have hfields := Json.obj.inj h
  cases a
  cases b
  simp_all

instance : LawfulToJson RevocationUpdate := by
  refine ⟨fun a b h => ?_⟩
  have hfields := Json.obj.inj h
  cases a
  cases b
  simp_all

/-! ## Payloads -/

def REQUEST_DOMAIN : String := "agent-scale-control-provisioner-http-v1\x00POST\x00/v1/provisioner\x00"

def provisionerSigningBytes (sha256 : List UInt8 → List UInt8) (body : List UInt8) : List UInt8 :=
  utf8 REQUEST_DOMAIN ++ sha256 body

/-- The body `ProvisionerHttpRequest::new` makes of a request. -/
def ControlApi.ProvisionerRequest.body (request : ProvisionerRequest) : List UInt8 :=
  utf8 (toJson request).encode

/-- Everything that is signed. -/
inductive Payload where
  | invite (invite : Invite)
  | claim (claim : Claim)
  | edgeInviteRequest (request : EdgeInviteRequest)
  | edgeRemoveRequest (request : EdgeRemoveRequest)
  | statusRequest (request : StatusRequest)
  | watchRequest (request : WatchRequest)
  | nodeMap (map : NodeMap)
  | provisionerBody (body : List UInt8)
  | relayCredential (credential : RelayCredential)
  | revocationUpdate (update : RevocationUpdate)

inductive PayloadKind where
  | invite
  | claim
  | edgeInviteRequest
  | edgeRemoveRequest
  | statusRequest
  | watchRequest
  | nodeMap
  | provisionerBody
  | relayCredential
  | revocationUpdate
deriving DecidableEq

namespace Payload

def kind : Payload → PayloadKind
  | .invite _ => .invite
  | .claim _ => .claim
  | .edgeInviteRequest _ => .edgeInviteRequest
  | .edgeRemoveRequest _ => .edgeRemoveRequest
  | .statusRequest _ => .statusRequest
  | .watchRequest _ => .watchRequest
  | .nodeMap _ => .nodeMap
  | .provisionerBody _ => .provisionerBody
  | .relayCredential _ => .relayCredential
  | .revocationUpdate _ => .revocationUpdate

def signingBytes (sha256 : List UInt8 → List UInt8) : Payload → List UInt8
  | .invite i => utf8 (domainBytes INVITE_DOMAIN i)
  | .claim c => utf8 (domainBytes CLAIM_DOMAIN c)
  | .edgeInviteRequest r => utf8 r.signingBytes
  | .edgeRemoveRequest r => utf8 r.signingBytes
  | .statusRequest r => utf8 r.signingBytes
  | .watchRequest r => utf8 r.signingBytes
  | .nodeMap m => utf8 (domainBytes MAP_DOMAIN m)
  | .provisionerBody body => provisionerSigningBytes sha256 body
  | .relayCredential c => utf8 (canonicalBytes CREDENTIAL_DOMAIN c)
  | .revocationUpdate u => utf8 (canonicalBytes REVOCATION_DOMAIN u)

/-- The signed fields: all but the signature that some requests hold themselves. -/
def signedFields : Payload → Payload
  | .edgeInviteRequest r => .edgeInviteRequest { r with signature := ⟨""⟩ }
  | .edgeRemoveRequest r => .edgeRemoveRequest { r with signature := ⟨""⟩ }
  | .statusRequest r => .statusRequest { r with signature := ⟨""⟩ }
  | .watchRequest r => .watchRequest { r with signature := ⟨""⟩ }
  | payload => payload

end Payload

def PayloadKind.domain : PayloadKind → String
  | .invite => INVITE_DOMAIN
  | .claim => CLAIM_DOMAIN
  | .edgeInviteRequest => EDGE_INVITE_REQUEST_DOMAIN
  | .edgeRemoveRequest => EDGE_REMOVE_REQUEST_DOMAIN
  | .statusRequest => STATUS_REQUEST_DOMAIN
  | .watchRequest => WATCH_DOMAIN
  | .nodeMap => MAP_DOMAIN
  | .provisionerBody => REQUEST_DOMAIN
  | .relayCredential => CREDENTIAL_DOMAIN
  | .revocationUpdate => REVOCATION_DOMAIN

/-- No domain is the beginning of another. -/
theorem domain_incomparable (k k' : PayloadKind) (h : utf8 k.domain <+: utf8 k'.domain) : k = k' := by
  revert h
  cases k <;> cases k' <;> decide +kernel

namespace Payload

variable (sha256 : List UInt8 → List UInt8)

/-- The JSON that follows the domain, except for the requests of Provisioners. -/
def json : Payload → Json
  | .invite i => toJson i
  | .claim c => toJson c
  | .edgeInviteRequest r => .arr [toJson r.protocolVersion, toJson r.clientId, toJson r.audience,
      toJson r.requestId, toJson r.issuedAt, toJson r.name, toJson r.ttlSecs]
  | .edgeRemoveRequest r => .arr [toJson r.protocolVersion, toJson r.clientId, toJson r.audience,
      toJson r.nonce, toJson r.issuedAt, toJson r.name, toJson r.endpointId]
  | .statusRequest r => .arr [toJson r.protocolVersion, toJson r.clientId, toJson r.audience,
      toJson r.issuedAt, toJson r.nonce]
  | .watchRequest r => .arr [toJson r.protocolVersion, toJson r.endpointId, toJson r.knownRevision,
      toJson r.issuedAt, toJson r.nonce, toJson r.relayQadPort]
  | .nodeMap m => toJson m
  | .provisionerBody _ => .null
  | .relayCredential c => toJson c
  | .revocationUpdate u => toJson u

/-- What is signed after the domain. -/
def content (payload : Payload) : List UInt8 :=
  match payload with
  | .provisionerBody body => sha256 body
  | payload => utf8 payload.json.encode

/-- The signed bytes are the domain of the kind and the content. -/
theorem signingBytes_eq (payload : Payload) :
    payload.signingBytes sha256 = utf8 payload.kind.domain ++ payload.content sha256 := by
  cases payload with
  | provisionerBody body => rfl
  | _ => exact utf8_append _ _

theorem signedFields_of_json {p q : Payload} (hkind : p.kind = q.kind) (hbody : p.kind ≠ .provisionerBody)
    (h : p.json = q.json) : p.signedFields = q.signedFields := by
  cases p <;> cases q <;> simp_all [kind, json, signedFields]

theorem content_of_kind_ne {p : Payload} (h : p.kind ≠ .provisionerBody) :
    p.content sha256 = utf8 p.json.encode := by
  cases p with
  | provisionerBody body => exact absurd rfl h
  | _ => rfl

theorem exists_body {p : Payload} (h : p.kind = .provisionerBody) :
    ∃ body, p = .provisionerBody body := by
  cases p with
  | provisionerBody body => exact ⟨body, rfl⟩
  | _ => simp [kind] at h

theorem kind_and_content {p q : Payload} (h : p.signingBytes sha256 = q.signingBytes sha256) :
    p.kind = q.kind ∧ p.content sha256 = q.content sha256 := by
  rw [signingBytes_eq, signingBytes_eq] at h
  exact recognised_of_incomparable domain_incomparable p.kind q.kind _ _ trivial trivial h

/-- **A signature speaks for one message only.** Payloads with the same signing bytes are of the same
    kind and agree in every signed field, if SHA-256 does not collide on the bodies of two Provisioner
    requests; then these bodies are the encodings of the same request, if they are encodings of
    requests. -/
theorem signature_speaks_for_one_message (p q : Payload)
    (hsha256 : ∀ body body', p = .provisionerBody body → q = .provisionerBody body' →
      sha256 body = sha256 body' → body = body')
    (h : p.signingBytes sha256 = q.signingBytes sha256) :
    p.kind = q.kind ∧ p.signedFields = q.signedFields ∧
      ∀ r r' : ProvisionerRequest, p = .provisionerBody r.body → q = .provisionerBody r'.body →
        r = r' := by
  obtain ⟨hkind, hcontent⟩ := kind_and_content sha256 h
  have hfields : p.signedFields = q.signedFields := by
    by_cases hbody : p.kind = .provisionerBody
    · obtain ⟨body, rfl⟩ := exists_body hbody
      obtain ⟨body', rfl⟩ := exists_body (hkind ▸ hbody)
      rw [hsha256 body body' rfl rfl hcontent]
    · rw [content_of_kind_ne sha256 hbody, content_of_kind_ne sha256 (hkind ▸ hbody)] at hcontent
      exact signedFields_of_json hkind hbody (Json.encode_inj (utf8_inj.1 hcontent))
  refine ⟨hkind, hfields, ?_⟩
  rintro r r' rfl rfl
  have hbodies : r.body = r'.body := provisionerBody.inj hfields
  exact toJson_inj.1 (Json.encode_inj (utf8_inj.1 hbodies))

/-- A request as it is signed, and as it is sent. -/
def placeholderRequest : WatchRequest := ⟨5, "edge", 4, 7, "nonce", none, ⟨"placeholder"⟩⟩

/-- The signature of a request is not among its signed fields, and all others are. -/
theorem placeholder_is_not_signed :
    signingBytes (fun body => body) (.watchRequest placeholderRequest) =
        signingBytes (fun body => body)
          (.watchRequest { placeholderRequest with signature := ⟨"signature"⟩ }) ∧
      signedFields (.watchRequest placeholderRequest) =
        signedFields (.watchRequest { placeholderRequest with signature := ⟨"signature"⟩ }) :=
  ⟨rfl, (signature_speaks_for_one_message (fun body => body) (.watchRequest placeholderRequest)
    (.watchRequest { placeholderRequest with signature := ⟨"signature"⟩ })
    (fun _ _ h => by cases h) rfl).2.1⟩

end Payload

end AgentScale
