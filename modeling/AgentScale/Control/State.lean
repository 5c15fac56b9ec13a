import AgentScale.Api.Platform
import AgentScale.Library.Keyed

set_option autoImplicit false

/-! # Control state and state deltas

The records Control keeps in memory, and the changes every mutation is expressed in. A delta is a
list of changes together with what it publishes: nothing, a new revision for the nodes, or a new
revision for the nodes and the Relays. -/

namespace AgentScale.Control

open ControlApi

def STATE_SCHEMA : Nat := 6
def CLOCK_SKEW_SECS : Nat := 300
def RELAY_CREDENTIAL_LIFETIME_SECS : Int := 7 * 24 * 60 * 60
def RELAY_CREDENTIAL_RENEW_BEFORE_SECS : Int := 2 * 24 * 60 * 60
def INVITATION_RETENTION_SECS : Int := 7 * 24 * 60 * 60

/-! ## Records -/

structure ClientRecord where
  name : String
  endpointId : String
  managedBy : Option String
  credentialGeneration : Nat
  credentialIssuedAt : Int
  credentialExpiresAt : Int
deriving DecidableEq

structure EdgeRecord where
  name : String
  endpointId : String
  ownerId : String
  credentialGeneration : Nat
  credentialIssuedAt : Int
  credentialExpiresAt : Int
deriving DecidableEq

structure RelayRecord where
  name : String
  endpointId : String
  url : String
  qadPort : Option UInt16
deriving DecidableEq

structure RevocationRecord where
  endpointId : String
  revokedThroughGeneration : Nat
  expiresAt : Int
  revision : Nat
deriving DecidableEq

structure ProvisionerRecord where
  name : String
  endpointId : String
deriving DecidableEq

inductive InviteState where
  | pending
  | claimed
  | revoked
deriving DecidableEq

structure InviteRecord where
  invite : Invite
  state : InviteState
  claimedBy : Option String
  requestId : Option String
  managedBy : Option String
  requestHash : Option String
  terminalAt : Option Int
deriving DecidableEq

/-- The key invitations are stored under. -/
def InviteRecord.id (record : InviteRecord) : String := record.invite.inviteId

structure ControlState where
  schema : Nat
  audience : String
  publicUrl : String
  relayCaDer : List UInt8
  revision : Nat
  relayRevision : Nat
  clients : List ClientRecord
  edges : List EdgeRecord
  relays : List RelayRecord
  invites : List InviteRecord
  provisioners : List ProvisionerRecord
  revocations : List RevocationRecord

/-! ## Deltas -/

inductive StateChange where
  | putClient (record : ClientRecord)
  | deleteClient (endpointId : String)
  | putEdge (record : EdgeRecord)
  | deleteEdge (endpointId : String)
  | putRelay (record : RelayRecord)
  | deleteRelay (endpointId : String)
  | putInvite (record : InviteRecord)
  | deleteInvite (inviteId : String)
  | putProvisioner (record : ProvisionerRecord)
  | deleteProvisioner (endpointId : String)
  | putRevocation (record : RevocationRecord)
  | deleteRevocation (endpointId : String)

inductive Publish where
  | none
  | nodes
  | nodesAndRelays

structure StateDelta where
  changes : List StateChange
  publish : Publish

namespace StateDelta

def quiet (changes : List StateChange) : StateDelta := { changes, publish := .none }

def topology (changes : List StateChange) : StateDelta := { changes, publish := .nodes }

def revocation (changes : List StateChange) : StateDelta := { changes, publish := .nodesAndRelays }

end StateDelta

/-- The in-memory effect of one change: `upsert_record` for a put, `retain` for a delete. -/
def StateChange.apply (state : ControlState) : StateChange → ControlState
  | .putClient record =>
    { state with clients := Keyed.upsert ClientRecord.endpointId record state.clients }
  | .deleteClient endpointId =>
    { state with clients := Keyed.discard ClientRecord.endpointId endpointId state.clients }
  | .putEdge record =>
    { state with edges := Keyed.upsert EdgeRecord.endpointId record state.edges }
  | .deleteEdge endpointId =>
    { state with edges := Keyed.discard EdgeRecord.endpointId endpointId state.edges }
  | .putRelay record =>
    { state with relays := Keyed.upsert RelayRecord.endpointId record state.relays }
  | .deleteRelay endpointId =>
    { state with relays := Keyed.discard RelayRecord.endpointId endpointId state.relays }
  | .putInvite record =>
    { state with invites := Keyed.upsert InviteRecord.id record state.invites }
  | .deleteInvite inviteId =>
    { state with invites := Keyed.discard InviteRecord.id inviteId state.invites }
  | .putProvisioner record =>
    { state with provisioners :=
        Keyed.upsert ProvisionerRecord.endpointId record state.provisioners }
  | .deleteProvisioner endpointId =>
    { state with provisioners :=
        Keyed.discard ProvisionerRecord.endpointId endpointId state.provisioners }
  | .putRevocation record =>
    { state with revocations := Keyed.upsert RevocationRecord.endpointId record state.revocations }
  | .deleteRevocation endpointId =>
    { state with revocations :=
        Keyed.discard RevocationRecord.endpointId endpointId state.revocations }

def StateDelta.apply (delta : StateDelta) (state : ControlState) : ControlState :=
  delta.changes.foldl StateChange.apply state

/-! ## Errors -/

structure ApiError where
  status : StatusCode
  message : String
deriving DecidableEq

namespace ApiError

def bad (error : String) : ApiError := ⟨.badRequest, error⟩
def unauthorized (error : String) : ApiError := ⟨.unauthorized, error⟩
def forbidden (error : String) : ApiError := ⟨.forbidden, error⟩
def conflict (error : String) : ApiError := ⟨.conflict, error⟩
def gone (error : String) : ApiError := ⟨.gone, error⟩
def internal (error : String) : ApiError := ⟨.internalServerError, error⟩

end ApiError

/-! ## Plans

Every mutation handler has the same shape: it reads the state under the lock, either answers at once
or commits one delta, and computes its answer from the state after the commit. A `Plan` is what the
reading part decides. -/

/-- Answer without a change, or commit a delta and answer from the new state. -/
inductive Plan (α : Type) where
  | reply (answer : α)
  | commit (delta : StateDelta) (respond : ControlState → Except ApiError α)

/-- What surrounds one critical section: the clock when the request arrived, the state an earlier
    section of the same request has read, the clock inside the section, the random tokens drawn
    there, and the I/O error SQLite reports, if any. -/
structure Ambient where
  received : Int
  earlier : ControlState
  clock : Int
  inviteToken : String
  secretToken : String
  ioError : Option String

end AgentScale.Control
