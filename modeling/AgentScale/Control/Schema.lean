import AgentScale.Control.State

set_option autoImplicit false

/-! # The SQLite schema

The tables of `schema.sql` as lists of rows in rowid order, the constraints the schema declares, and
the SQL statements Control executes. A `Database` is a set of tables that meets every declared
constraint; a statement is accepted only when the tables it produces do (`Database.execute`), which is
SQLite's immediate checking of UNIQUE, CHECK and FOREIGN KEY constraints. The integer columns that
are written through `i64::try_from` are natural numbers here; the range check stands at the write.
`invite_json` holds the invitation itself: its serde_json text is read back unchanged. -/

namespace AgentScale.Control

open ControlApi

/-! ## Rows -/

structure MetadataRow where
  schemaVersion : Nat
  audience : String
  publicUrl : String
  relayCaDer : List UInt8
  revision : Nat
  relayRevision : Nat

structure ProvisionerRow where
  endpointId : String
  name : String
  active : Bool

/-- The `kind` column of an invitation. -/
inductive InviteTag where
  | client
  | edge
  | relay
deriving DecidableEq

structure InvitationRow where
  inviteId : String
  name : String
  kind : InviteTag
  ownerId : Option String
  inviteJson : Invite
  expiresAt : Int
  state : InviteState
  claimedBy : Option String
  requestId : Option String
  managedBy : Option String
  requestHash : Option String
  terminalAt : Option Int

structure Tables where
  metadata : Option MetadataRow
  provisioners : List ProvisionerRow
  clients : List ClientRecord
  edges : List EdgeRecord
  relayRevocations : List RevocationRecord
  relays : List RelayRecord
  invitations : List InvitationRow

/-! ## Constraints -/

/-- The declared constraints, CHECKs before UNIQUE keys before FOREIGN KEYs. -/
inductive Constraint where
  | metadataAudience
  | metadataPublicUrl
  | metadataRelayCaDer
  | metadataRelayRevision
  | clientsGeneration
  | clientsExpiry
  | edgesGeneration
  | edgesExpiry
  | revocationsGeneration
  | revocationsRevision
  | relaysQadPort
  | invitationsOwnerKind
  | invitationsTerminal
  | provisionersKey
  | provisionersActiveName
  | clientsKey
  | clientsName
  | edgesKey
  | edgesOwnerName
  | revocationsKey
  | relaysKey
  | relaysName
  | relaysUrl
  | invitationsKey
  | invitationsRequestId
  | clientsManagedBy
  | edgesOwner
  | invitationsOwner
  | invitationsManagedBy
deriving DecidableEq

/-- SQLite's `length` of a text stops at the first NUL. -/
def sqlLength (s : String) : Nat := (s.toList.takeWhile (· ≠ '\x00')).length

namespace Constraint

def all : List Constraint :=
  [metadataAudience, metadataPublicUrl, metadataRelayCaDer, metadataRelayRevision, clientsGeneration,
    clientsExpiry, edgesGeneration, edgesExpiry, revocationsGeneration, revocationsRevision,
    relaysQadPort, invitationsOwnerKind, invitationsTerminal, provisionersKey,
    provisionersActiveName, clientsKey, clientsName, edgesKey, edgesOwnerName, revocationsKey,
    relaysKey, relaysName, relaysUrl, invitationsKey, invitationsRequestId, clientsManagedBy,
    edgesOwner, invitationsOwner, invitationsManagedBy]

theorem mem_all (c : Constraint) : c ∈ all := by
  cases c <;> decide

/-- Whether the tables meet a constraint. -/
def check (t : Tables) : Constraint → Bool
  | metadataAudience => t.metadata.all (fun m => decide (0 < sqlLength m.audience))
  | metadataPublicUrl => t.metadata.all (fun m => decide (0 < sqlLength m.publicUrl))
  | metadataRelayCaDer => t.metadata.all (fun m => decide (0 < m.relayCaDer.length))
  | metadataRelayRevision => t.metadata.all (fun m => decide (0 < m.relayRevision))
  | clientsGeneration => t.clients.all (fun r => decide (0 < r.credentialGeneration))
  | clientsExpiry => t.clients.all (fun r => decide (r.credentialIssuedAt < r.credentialExpiresAt))
  | edgesGeneration => t.edges.all (fun r => decide (0 < r.credentialGeneration))
  | edgesExpiry => t.edges.all (fun r => decide (r.credentialIssuedAt < r.credentialExpiresAt))
  | revocationsGeneration => t.relayRevocations.all (fun r => decide (0 < r.revokedThroughGeneration))
  | revocationsRevision => t.relayRevocations.all (fun r => decide (0 < r.revision))
  | relaysQadPort => t.relays.all (fun r => decide (r.qadPort ≠ some 0))
  | invitationsOwnerKind =>
    t.invitations.all (fun r => decide (r.kind = .edge ∨ r.ownerId = none))
  | invitationsTerminal =>
    t.invitations.all (fun r => decide (r.state = .pending ↔ r.terminalAt = none))
  | provisionersKey => decide (Keyed.Distinct ProvisionerRow.endpointId t.provisioners)
  | provisionersActiveName =>
    decide (Keyed.Distinct ProvisionerRow.name (t.provisioners.filter (·.active)))
  | clientsKey => decide (Keyed.Distinct ClientRecord.endpointId t.clients)
  | clientsName => decide (Keyed.Distinct ClientRecord.name t.clients)
  | edgesKey => decide (Keyed.Distinct EdgeRecord.endpointId t.edges)
  | edgesOwnerName => decide (Keyed.Distinct (fun r => (r.ownerId, r.name)) t.edges)
  | revocationsKey => decide (Keyed.Distinct RevocationRecord.endpointId t.relayRevocations)
  | relaysKey => decide (Keyed.Distinct RelayRecord.endpointId t.relays)
  | relaysName => decide (Keyed.Distinct RelayRecord.name t.relays)
  | relaysUrl => decide (Keyed.Distinct RelayRecord.url t.relays)
  | invitationsKey => decide (Keyed.Distinct InvitationRow.inviteId t.invitations)
  | invitationsRequestId => decide (t.invitations.filterMap InvitationRow.requestId).Nodup
  | clientsManagedBy =>
    t.clients.all (fun r => r.managedBy.all (fun id => t.provisioners.any (·.endpointId = id)))
  | edgesOwner => t.edges.all (fun r => t.clients.any (·.endpointId = r.ownerId))
  | invitationsOwner =>
    t.invitations.all (fun r => r.ownerId.all (fun id => t.clients.any (·.endpointId = id)))
  | invitationsManagedBy =>
    t.invitations.all (fun r => r.managedBy.all (fun id => t.provisioners.any (·.endpointId = id)))

/-- SQLite's message for a violated constraint. -/
def message : Constraint → String
  | metadataAudience => "CHECK constraint failed: length(audience) > 0"
  | metadataPublicUrl => "CHECK constraint failed: length(public_url) > 0"
  | metadataRelayCaDer => "CHECK constraint failed: length(relay_ca_der) > 0"
  | metadataRelayRevision => "CHECK constraint failed: relay_revision > 0"
  | clientsGeneration | edgesGeneration => "CHECK constraint failed: credential_generation > 0"
  | clientsExpiry | edgesExpiry =>
    "CHECK constraint failed: credential_expires_at > credential_issued_at"
  | revocationsGeneration => "CHECK constraint failed: revoked_through_generation > 0"
  | revocationsRevision => "CHECK constraint failed: revision > 0"
  | relaysQadPort => "CHECK constraint failed: qad_port BETWEEN 1 AND 65535"
  | invitationsOwnerKind => "CHECK constraint failed: kind = 'edge' OR owner_id IS NULL"
  | invitationsTerminal => "CHECK constraint failed: (state = 'pending') = (terminal_at IS NULL)"
  | provisionersKey => "UNIQUE constraint failed: provisioners.endpoint_id"
  | provisionersActiveName => "UNIQUE constraint failed: provisioners.name"
  | clientsKey => "UNIQUE constraint failed: clients.endpoint_id"
  | clientsName => "UNIQUE constraint failed: clients.name"
  | edgesKey => "UNIQUE constraint failed: edges.endpoint_id"
  | edgesOwnerName => "UNIQUE constraint failed: edges.owner_id, edges.name"
  | revocationsKey => "UNIQUE constraint failed: relay_revocations.endpoint_id"
  | relaysKey => "UNIQUE constraint failed: relays.endpoint_id"
  | relaysName => "UNIQUE constraint failed: relays.name"
  | relaysUrl => "UNIQUE constraint failed: relays.url"
  | invitationsKey => "UNIQUE constraint failed: invitations.invite_id"
  | invitationsRequestId => "UNIQUE constraint failed: invitations.request_id"
  | clientsManagedBy | edgesOwner | invitationsOwner | invitationsManagedBy =>
    "FOREIGN KEY constraint failed"

end Constraint

/-- Tables that meet every declared constraint. -/
structure Database where
  tables : Tables
  valid : ∀ c : Constraint, c.check tables = true

/-- The first violated constraint, in the order SQLite evaluates them. -/
def Tables.violated (t : Tables) : Option Constraint := Constraint.all.find? (fun c => !c.check t)

theorem Tables.valid_of_violated {t : Tables} (h : t.violated = none) (c : Constraint) :
    c.check t = true := by
  have := List.find?_eq_none.1 h c c.mem_all
  simpa using this

/-- Execute one statement: the resulting tables must meet every constraint. -/
def Database.execute (db : Database) (statement : Tables → Tables) : Except String Database :=
  match h : (statement db.tables).violated with
  | some c => .error c.message
  | none => .ok ⟨statement db.tables, Tables.valid_of_violated h⟩

theorem Database.execute_eq_ok {db db' : Database} {statement : Tables → Tables} :
    db.execute statement = .ok db' ↔ db'.tables = statement db.tables := by
  unfold Database.execute
  split
  · next c h =>
    simp only [reduceCtorEq, false_iff]
    intro he
    have hc : (!c.check (statement db.tables)) = true := by
      unfold Tables.violated at h
      exact List.find?_some (p := fun c => !Constraint.check (statement db.tables) c) h
    rw [← he, db'.valid c] at hc
    cases hc
  · next h =>
    rw [Except.ok.injEq]
    constructor
    · rintro rfl
      rfl
    · intro he
      cases db'
      simpa using he.symm

/-- The empty tables of a fresh schema. -/
def Database.empty : Database where
  tables := ⟨none, [], [], [], [], [], []⟩
  valid := by intro c; cases c <;> decide

/-! ## Statements -/

/-- The `kind` and `owner_id` columns of an invitation. -/
def inviteColumns : InviteKind → InviteTag × Option String
  | .client => (.client, none)
  | .edge ownerId => (.edge, some ownerId)
  | .relay _ => (.relay, none)

def invitationRow (item : InviteRecord) (ownerId : Option String) : InvitationRow :=
  { inviteId := item.invite.inviteId, name := item.invite.name,
    kind := (inviteColumns item.invite.kind).1, ownerId, inviteJson := item.invite,
    expiresAt := item.invite.expiresAt, state := item.state, claimedBy := item.claimedBy,
    requestId := item.requestId, managedBy := item.managedBy, requestHash := item.requestHash,
    terminalAt := item.terminalAt }

def InvitationRow.record (row : InvitationRow) : InviteRecord :=
  { invite := row.inviteJson, state := row.state, claimedBy := row.claimedBy,
    requestId := row.requestId, managedBy := row.managedBy, requestHash := row.requestHash,
    terminalAt := row.terminalAt }

namespace Tables

/-- `INSERT INTO clients .. ON CONFLICT(endpoint_id) DO UPDATE`. -/
def putClient (item : ClientRecord) (t : Tables) : Tables :=
  { t with clients := Keyed.upsert ClientRecord.endpointId item t.clients }

/-- `DELETE FROM clients WHERE endpoint_id = ?`; invitations of the deleted owner lose their
    `owner_id` (ON DELETE SET NULL), remaining edges of it fail the foreign key. -/
def deleteClient (endpointId : String) (t : Tables) : Tables :=
  { t with
    clients := Keyed.discard ClientRecord.endpointId endpointId t.clients
    invitations := t.invitations.map (fun row =>
      if row.ownerId = some endpointId then { row with ownerId := none } else row) }

def putEdge (item : EdgeRecord) (t : Tables) : Tables :=
  { t with edges := Keyed.upsert EdgeRecord.endpointId item t.edges }

def deleteEdge (endpointId : String) (t : Tables) : Tables :=
  { t with edges := Keyed.discard EdgeRecord.endpointId endpointId t.edges }

def putRelay (item : RelayRecord) (t : Tables) : Tables :=
  { t with relays := Keyed.upsert RelayRecord.endpointId item t.relays }

def deleteRelay (endpointId : String) (t : Tables) : Tables :=
  { t with relays := Keyed.discard RelayRecord.endpointId endpointId t.relays }

def putInvitation (row : InvitationRow) (t : Tables) : Tables :=
  { t with invitations := Keyed.upsert InvitationRow.inviteId row t.invitations }

def deleteInvitation (inviteId : String) (t : Tables) : Tables :=
  { t with invitations := Keyed.discard InvitationRow.inviteId inviteId t.invitations }

/-- `INSERT INTO provisioners .. ON CONFLICT(endpoint_id) DO UPDATE SET name, active=1`. -/
def putProvisioner (item : ProvisionerRecord) (t : Tables) : Tables :=
  { t with
    provisioners :=
      Keyed.upsert ProvisionerRow.endpointId ⟨item.endpointId, item.name, true⟩ t.provisioners }

/-- `UPDATE provisioners SET active = 0 WHERE endpoint_id = ?`. -/
def deactivateProvisioner (endpointId : String) (t : Tables) : Tables :=
  { t with provisioners := t.provisioners.map (fun row =>
      if row.endpointId = endpointId then { row with active := false } else row) }

/-- `INSERT INTO provisioners .. VALUES (?, 'deleted:?', 0) ON CONFLICT(endpoint_id) DO NOTHING`. -/
def placeholderProvisioner (endpointId : String) (t : Tables) : Tables :=
  if t.provisioners.any (·.endpointId = endpointId) then t
  else { t with provisioners := t.provisioners ++ [⟨endpointId, "deleted:" ++ endpointId, false⟩] }

/-- An inactive provisioner that no invitation and no client refers to. -/
def unreferenced (t : Tables) (row : ProvisionerRow) : Bool :=
  !row.active && !(t.invitations.any (·.managedBy = some row.endpointId)) &&
    !(t.clients.any (·.managedBy = some row.endpointId))

/-- `DELETE FROM provisioners WHERE active = 0 AND endpoint_id NOT IN (..) AND endpoint_id NOT IN (..)`;
    invitations that refer to a deleted row lose their `managed_by` (ON DELETE SET NULL). -/
def collectProvisioners (t : Tables) : Tables :=
  { t with
    provisioners := t.provisioners.filter (fun row => !t.unreferenced row)
    invitations := t.invitations.map (fun row =>
      if (t.provisioners.filter t.unreferenced).any (fun p => row.managedBy = some p.endpointId)
      then { row with managedBy := none } else row) }

def putRevocation (item : RevocationRecord) (t : Tables) : Tables :=
  { t with relayRevocations := Keyed.upsert RevocationRecord.endpointId item t.relayRevocations }

def deleteRevocation (endpointId : String) (t : Tables) : Tables :=
  { t with relayRevocations := Keyed.discard RevocationRecord.endpointId endpointId t.relayRevocations }

/-- The row `WHERE id = 1 AND revision = ? AND relay_revision = ?` selects. -/
def metadataMatches (revision relayRevision : Nat) (t : Tables) : Bool :=
  t.metadata.any (fun m => m.revision = revision && m.relayRevision = relayRevision)

end Tables

end AgentScale.Control
