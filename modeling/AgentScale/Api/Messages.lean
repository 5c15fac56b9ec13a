import AgentScale.Api.Json

set_option autoImplicit false

/-! # Messages of the Control and Relay APIs

The data types of the `control-api` and `relay-api` crates, with the JSON form their signatures are
made over. Identities travel as text and are parsed where they are used. -/

namespace AgentScale

/-- `iroh_base::Signature`, by its text form. -/
structure Signature where
  text : String
deriving DecidableEq

/-- `iroh_base::SecretKey`, by its 32 seed bytes. -/
structure SecretKey where
  seed : List UInt8
deriving DecidableEq

/-- The HTTP status codes Control and the Relay answer with. -/
inductive StatusCode where
  | badRequest
  | unauthorized
  | forbidden
  | conflict
  | gone
  | internalServerError
deriving DecidableEq

namespace ControlApi

def CONTROL_PROTOCOL_VERSION : Nat := 5

/-! ## Invitations and claims -/

inductive InviteKind where
  | client
  | edge (ownerId : String)
  | relay (url : String)
deriving DecidableEq

instance : ToJson InviteKind where
  toJson
    | .client => .obj [("kind", .str "client")]
    | .edge ownerId => .obj [("kind", .str "edge"), ("owner_id", .str ownerId)]
    | .relay url => .obj [("kind", .str "relay"), ("url", .str url)]

structure Invite where
  protocolVersion : Nat
  audience : String
  controlUrl : String
  controlId : String
  inviteId : String
  name : String
  kind : InviteKind
  secretHash : String
  expiresAt : Int
deriving DecidableEq

instance : ToJson Invite where
  toJson i := .obj [("protocol_version", toJson i.protocolVersion), ("audience", toJson i.audience),
    ("control_url", toJson i.controlUrl), ("control_id", toJson i.controlId),
    ("invite_id", toJson i.inviteId), ("name", toJson i.name), ("kind", toJson i.kind),
    ("secret_hash", toJson i.secretHash), ("expires_at", toJson i.expiresAt)]

structure JoinToken where
  invite : Invite
  secret : String
  signature : Signature

structure Claim where
  protocolVersion : Nat
  inviteId : String
  endpointId : String
  issuedAt : Int
  nonce : String
  /-- Public UDP port advertised by an enrolling managed Relay. -/
  relayQadPort : Option UInt16
  /-- DER PKCS#10 request for a managed Relay's QAD certificate. -/
  relayTlsCsr : Option (List UInt8)

instance : ToJson Claim where
  toJson c := .obj ([("protocol_version", toJson c.protocolVersion),
    ("invite_id", toJson c.inviteId), ("endpoint_id", toJson c.endpointId),
    ("issued_at", toJson c.issuedAt), ("nonce", toJson c.nonce)] ++
    optionalField "relay_qad_port" c.relayQadPort ++ optionalField "relay_tls_csr" c.relayTlsCsr)

structure ClaimRequest where
  token : JoinToken
  claim : Claim
  signature : Signature

/-! ## Requests of enrolled nodes -/

structure EdgeInviteRequest where
  protocolVersion : Nat
  clientId : String
  audience : String
  requestId : String
  issuedAt : Int
  name : String
  ttlSecs : Nat
  signature : Signature

structure EdgeRemoveRequest where
  protocolVersion : Nat
  clientId : String
  audience : String
  nonce : String
  issuedAt : Int
  name : String
  endpointId : String
  signature : Signature

structure StatusRequest where
  protocolVersion : Nat
  clientId : String
  audience : String
  issuedAt : Int
  nonce : String
  signature : Signature

structure WatchRequest where
  protocolVersion : Nat
  endpointId : String
  knownRevision : Nat
  issuedAt : Int
  nonce : String
  /-- Current public QAD port, reported only by a managed Relay watcher. -/
  relayQadPort : Option UInt16
  signature : Signature

/-! ## Maps and listings -/

structure RelayInfo where
  name : String
  url : String
  qadPort : Option UInt16
deriving DecidableEq

instance : ToJson RelayInfo where
  toJson r := .obj [("name", toJson r.name), ("url", toJson r.url), ("qad_port", toJson r.qadPort)]

structure EdgeInfo where
  name : String
  endpointId : String
  ownerId : String
  ownerName : String
deriving DecidableEq

instance : ToJson EdgeInfo where
  toJson e := .obj [("name", toJson e.name), ("endpoint_id", toJson e.endpointId),
    ("owner_id", toJson e.ownerId), ("owner_name", toJson e.ownerName)]

structure InviteInfo where
  inviteId : String
  name : String
  kind : InviteKind
  expiresAt : Int
  state : String
deriving DecidableEq

structure NodeMap where
  protocolVersion : Nat
  audience : String
  controlUrl : String
  controlId : String
  revision : Nat
  issuedAt : Int
  recipientId : String
  relays : List RelayInfo
  /-- Relays authenticate to Control directly, so only Client and Edge maps carry this credential. -/
  relayCredential : Option String
  /-- DER-encoded private CA certificate used only for managed Relay TLS. -/
  relayCaDer : List UInt8
  allowedClients : List String
  edges : List EdgeInfo
deriving DecidableEq

instance : ToJson NodeMap where
  toJson m := .obj ([("protocol_version", toJson m.protocolVersion), ("audience", toJson m.audience),
    ("control_url", toJson m.controlUrl), ("control_id", toJson m.controlId),
    ("revision", toJson m.revision), ("issued_at", toJson m.issuedAt),
    ("recipient_id", toJson m.recipientId), ("relays", toJson m.relays)] ++
    optionalField "relay_credential" m.relayCredential ++
    [("relay_ca_der", toJson m.relayCaDer), ("allowed_clients", toJson m.allowedClients),
      ("edges", toJson m.edges)])

structure SignedNodeMap where
  map : NodeMap
  signature : Signature
deriving DecidableEq

structure JoinResult where
  name : String
  kind : InviteKind
  map : SignedNodeMap
  /-- DER leaf certificate returned only while enrolling a managed Relay. -/
  relayTlsCertificateDer : Option (List UInt8)
deriving DecidableEq

structure InviteResult where
  inviteId : String
  joinUrl : String
  expiresAt : Int
deriving DecidableEq

/-! ## The Provisioner API -/

/-- A topology operation authorized by a registered Provisioner identity. -/
inductive ProvisionerAction where
  | getTopology
  | inviteClient (name : String) (ttlSecs : Nat) (secret : String)
  | inviteEdge (owner name : String) (ttlSecs : Nat) (secret : String)
  | revokeInvite (inviteId : String)
  | removeClient (name : String)
  | removeEdge (owner name : String)
  | transferEdge (owner name endpointId newOwner : String)

instance : ToJson ProvisionerAction where
  toJson
    | .getTopology => .obj [("action", .str "get_topology")]
    | .inviteClient name ttlSecs secret => .obj [("action", .str "invite_client"),
        ("name", .str name), ("ttl_secs", toJson ttlSecs), ("secret", .str secret)]
    | .inviteEdge owner name ttlSecs secret => .obj [("action", .str "invite_edge"),
        ("owner", .str owner), ("name", .str name), ("ttl_secs", toJson ttlSecs),
        ("secret", .str secret)]
    | .revokeInvite inviteId => .obj [("action", .str "revoke_invite"), ("invite_id", .str inviteId)]
    | .removeClient name => .obj [("action", .str "remove_client"), ("name", .str name)]
    | .removeEdge owner name => .obj [("action", .str "remove_edge"), ("owner", .str owner),
        ("name", .str name)]
    | .transferEdge owner name endpointId newOwner => .obj [("action", .str "transfer_edge"),
        ("owner", .str owner), ("name", .str name), ("endpoint_id", .str endpointId),
        ("new_owner", .str newOwner)]

/-- JSON request body. `requestId` is an idempotency key for mutations. -/
structure ProvisionerRequest where
  protocolVersion : Nat
  audience : String
  requestId : String
  issuedAt : Int
  expectedRevision : Option Nat
  action : ProvisionerAction

instance : ToJson ProvisionerRequest where
  toJson r := .obj [("protocol_version", toJson r.protocolVersion), ("audience", toJson r.audience),
    ("request_id", toJson r.requestId), ("issued_at", toJson r.issuedAt),
    ("expected_revision", toJson r.expectedRevision), ("action", toJson r.action)]

structure ManagedEdgeInfo where
  name : String
  endpointId : String
deriving DecidableEq

structure ManagedClientInfo where
  name : String
  endpointId : String
  edges : List ManagedEdgeInfo
deriving DecidableEq

structure ProvisionerTopology where
  revision : Nat
  clients : List ManagedClientInfo
  invites : List InviteInfo
deriving DecidableEq

inductive ProvisionerResponse where
  | topology (t : ProvisionerTopology)
  | invite (result : InviteResult)
  | ok (revision : Nat)
deriving DecidableEq

end ControlApi

namespace RelayApi

def RELAY_PROTOCOL_VERSION : Nat := 3

inductive RelaySubjectKind where
  | client
  | edge
deriving DecidableEq

instance : ToJson RelaySubjectKind where
  toJson
    | .client => .str "client"
    | .edge => .str "edge"

structure RelayCredential where
  protocolVersion : Nat
  audience : String
  controlId : String
  endpointId : String
  kind : RelaySubjectKind
  generation : Nat
  issuedAt : Int
  expiresAt : Int
deriving DecidableEq

instance : ToJson RelayCredential where
  toJson c := .obj [("protocol_version", toJson c.protocolVersion), ("audience", toJson c.audience),
    ("control_id", toJson c.controlId), ("endpoint_id", toJson c.endpointId),
    ("kind", toJson c.kind), ("generation", toJson c.generation), ("issued_at", toJson c.issuedAt),
    ("expires_at", toJson c.expiresAt)]

structure SignedRelayCredential where
  credential : RelayCredential
  signature : Signature
deriving DecidableEq

structure Revocation where
  endpointId : String
  revokedThroughGeneration : Nat
  expiresAt : Int
  revision : Nat
deriving DecidableEq

instance : ToJson Revocation where
  toJson r := .obj [("endpoint_id", toJson r.endpointId),
    ("revoked_through_generation", toJson r.revokedThroughGeneration),
    ("expires_at", toJson r.expiresAt), ("revision", toJson r.revision)]

structure RevocationUpdate where
  protocolVersion : Nat
  audience : String
  version : Nat
  issuedAt : Int
  revocations : List Revocation
deriving DecidableEq

instance : ToJson RevocationUpdate where
  toJson u := .obj [("protocol_version", toJson u.protocolVersion), ("audience", toJson u.audience),
    ("version", toJson u.version), ("issued_at", toJson u.issuedAt),
    ("revocations", toJson u.revocations)]

structure SignedRevocationUpdate where
  update : RevocationUpdate
  signature : Signature
deriving DecidableEq

end RelayApi

end AgentScale
