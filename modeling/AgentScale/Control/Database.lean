import AgentScale.Control.Schema

set_option autoImplicit false

/-! # The durable store

`Database::load`, the two writers `apply_delta_sync` and `apply_sync`, and `initialize_sync`, each a
sequence of statements in one transaction: an error anywhere leaves the database as it was. On top of
them `commitDelta` changes the database and the in-memory state together. -/

namespace AgentScale.Control

open Checked ControlApi

/-! ## Reading -/

/-- `ORDER BY`, for a total preorder on rows. -/
def orderBy {α : Type} (le : α → α → Prop) [DecidableRel le] (rows : List α) : List α :=
  rows.insertionSort le

/-- `ORDER BY owner_id, name`. -/
def EdgeRecord.ownerNameLe (a b : EdgeRecord) : Prop :=
  a.ownerId < b.ownerId ∨ (a.ownerId = b.ownerId ∧ a.name ≤ b.name)

instance : DecidableRel EdgeRecord.ownerNameLe := fun a b =>
  inferInstanceAs (Decidable (a.ownerId < b.ownerId ∨ (a.ownerId = b.ownerId ∧ a.name ≤ b.name)))

def ProvisionerRow.record (row : ProvisionerRow) : ProvisionerRecord := ⟨row.name, row.endpointId⟩

def Database.load (db : Database) : Except String ControlState := do
  let m ← okOr db.tables.metadata
    "database is not initialized; run `as-control init` to initialize a new network"
  ensure (m.schemaVersion = STATE_SCHEMA)
    ("unsupported state schema " ++ toString m.schemaVersion)
  return {
    schema := m.schemaVersion
    audience := m.audience
    publicUrl := m.publicUrl
    relayCaDer := m.relayCaDer
    revision := m.revision
    relayRevision := m.relayRevision
    clients := orderBy (fun a b => a.name ≤ b.name) db.tables.clients
    edges := orderBy EdgeRecord.ownerNameLe db.tables.edges
    relays := orderBy (fun a b => a.name ≤ b.name) db.tables.relays
    invites := db.tables.invitations.map InvitationRow.record
    provisioners := (orderBy (fun a b => a.name ≤ b.name)
      (db.tables.provisioners.filter (·.active))).map ProvisionerRow.record
    revocations := orderBy (fun a b => a.endpointId ≤ b.endpointId) db.tables.relayRevocations }

/-! ## Writing -/

/-- `ensure_provisioner_placeholder` for an optional manager. -/
def Database.ensurePlaceholder (db : Database) : Option String → Except String Database
  | some endpointId => db.execute (Tables.placeholderProvisioner endpointId)
  | none => .ok db

def Database.putClient (db : Database) (item : ClientRecord) : Except String Database := do
  ensure (I64.Fits item.credentialGeneration) "Client credential generation exceeds SQLite range"
  db.execute (Tables.putClient item)

def Database.putEdge (db : Database) (item : EdgeRecord) : Except String Database := do
  ensure (I64.Fits item.credentialGeneration) "Edge credential generation exceeds SQLite range"
  db.execute (Tables.putEdge item)

def Database.putRevocation (db : Database) (item : RevocationRecord) : Except String Database := do
  ensure (I64.Fits item.revokedThroughGeneration)
    "revoked credential generation exceeds SQLite range"
  ensure (I64.Fits item.revision) "revocation revision exceeds SQLite range"
  db.execute (Tables.putRevocation item)

/-- The statements of one change inside `apply_delta_sync`. -/
def Database.applyChange (relayRevision : Nat) (db : Database) :
    StateChange → Except String Database
  | .putClient item => do
    let db ← db.ensurePlaceholder item.managedBy
    db.putClient item
  | .deleteClient endpointId => db.execute (Tables.deleteClient endpointId)
  | .putEdge item => db.putEdge item
  | .deleteEdge endpointId => db.execute (Tables.deleteEdge endpointId)
  | .putRelay item => db.execute (Tables.putRelay item)
  | .deleteRelay endpointId => db.execute (Tables.deleteRelay endpointId)
  | .putInvite item => do
    let db ← db.ensurePlaceholder item.managedBy
    db.execute (Tables.putInvitation (invitationRow item (inviteColumns item.invite.kind).2))
  | .deleteInvite inviteId => db.execute (Tables.deleteInvitation inviteId)
  | .putProvisioner item => db.execute (Tables.putProvisioner item)
  | .deleteProvisioner endpointId => db.execute (Tables.deactivateProvisioner endpointId)
  | .putRevocation item => do
    ensure (item.revision ≤ relayRevision) "revocation record is ahead of Relay revision"
    db.putRevocation item
  | .deleteRevocation endpointId => db.execute (Tables.deleteRevocation endpointId)

/-- The revision may stay or advance by one. -/
def ensureAdvance (expected candidate : Nat) (error : String) : Except String Unit :=
  ensure (candidate = expected ∨ candidate = U64.saturatingAdd expected 1) error

/-- The final `UPDATE metadata .. WHERE id = 1 AND revision = ? AND relay_revision = ?`, which must
    change one row. -/
def Database.updateMetadata (db : Database) (update : MetadataRow → MetadataRow)
    (expectedRevision expectedRelayRevision revision relayRevision : Nat) :
    Except String Database := do
  ensure (I64.Fits revision) "control revision exceeds SQLite range"
  ensure (I64.Fits relayRevision) "Relay revision exceeds SQLite range"
  ensure (I64.Fits expectedRevision) "control revision exceeds SQLite range"
  ensure (I64.Fits expectedRelayRevision) "Relay revision exceeds SQLite range"
  let changed := db.tables.metadataMatches expectedRevision expectedRelayRevision
  let db ← db.execute (fun t =>
    if changed then
      { t with metadata := t.metadata.map (fun m => { update m with revision, relayRevision }) }
    else t)
  ensure (changed = true) "durable Control revision changed while applying mutation"
  return db

def Database.applyDeltaSync (expectedRevision expectedRelayRevision revision relayRevision : Nat)
    (delta : StateDelta) (db : Database) : Except String Database := do
  ensureAdvance expectedRevision revision
    "control revision must remain unchanged or advance atomically by one"
  ensureAdvance expectedRelayRevision relayRevision
    "Relay revision must remain unchanged or advance atomically by one"
  let db ← foldAll (Database.applyChange relayRevision) db delta.changes
  let db ← db.execute Tables.collectProvisioners
  db.updateMetadata id expectedRevision expectedRelayRevision revision relayRevision

/-- A transaction that SQLite may abort with an I/O error. -/
def transaction (ioError : Option String) (body : Except String Database) : Except String Database := do
  let db ← body
  match ioError with
  | some e => .error e
  | none => .ok db

/-! ## Whole-state writers -/

/-- The `kind` and `owner_id` columns when only registered clients may be referenced. -/
def liveOwner (clients : List ClientRecord) (item : InviteRecord) : Option String :=
  (inviteColumns item.invite.kind).2.filter (fun id => clients.any (·.endpointId = id))

/-- The provisioners the records of a state refer to, clients before invitations. -/
def ControlState.managers (state : ControlState) : List String :=
  state.clients.filterMap ClientRecord.managedBy ++ state.invites.filterMap InviteRecord.managedBy

def Database.applySync (previous next : ControlState) (db : Database) : Except String Database := do
  let m ← okOr db.tables.metadata "Query returned no rows"
  ensure (m.revision = previous.revision ∧ m.relayRevision = previous.relayRevision)
    "durable Control state changed while applying mutation"
  ensureAdvance previous.revision next.revision
    "control revision must remain unchanged or advance atomically by one"
  ensureAdvance previous.relayRevision next.relayRevision
    "Relay revision must remain unchanged or advance atomically by one"
  ensure (∀ r ∈ next.revocations, r.revision ≤ next.relayRevision)
    "revocation record is ahead of the Relay revision"
  let db ← foldAll (fun db id => db.execute (Tables.deleteInvitation id)) db
    (Keyed.missing InviteRecord.id previous.invites next.invites)
  let db ← foldAll (fun db id => db.execute (Tables.deleteEdge id)) db
    (Keyed.missing EdgeRecord.endpointId previous.edges next.edges)
  let db ← foldAll (fun db id => db.execute (Tables.deleteClient id)) db
    (Keyed.missing ClientRecord.endpointId previous.clients next.clients)
  let db ← foldAll (fun db id => db.execute (Tables.deleteRelay id)) db
    (Keyed.missing RelayRecord.endpointId previous.relays next.relays)
  let db ← foldAll (fun db id => db.execute (Tables.deleteRevocation id)) db
    (Keyed.missing RevocationRecord.endpointId previous.revocations next.revocations)
  let db ← foldAll (fun db id => db.execute (Tables.placeholderProvisioner id)) db next.managers
  let db ← foldAll (fun db item => db.execute (Tables.putProvisioner item)) db
    (Keyed.changed ProvisionerRecord.endpointId previous.provisioners next.provisioners)
  let db ← foldAll Database.putClient db
    (Keyed.changed ClientRecord.endpointId previous.clients next.clients)
  let db ← foldAll Database.putEdge db
    (Keyed.changed EdgeRecord.endpointId previous.edges next.edges)
  let db ← foldAll (fun db item => db.execute (Tables.putRelay item)) db
    (Keyed.changed RelayRecord.endpointId previous.relays next.relays)
  let db ← foldAll Database.putRevocation db
    (Keyed.changed RevocationRecord.endpointId previous.revocations next.revocations)
  let db ← foldAll (fun db item =>
      db.execute (Tables.putInvitation (invitationRow item (liveOwner next.clients item)))) db
    (Keyed.changed InviteRecord.id previous.invites next.invites)
  let db ← foldAll (fun db id => db.execute (Tables.deactivateProvisioner id)) db
    (Keyed.missing ProvisionerRecord.endpointId previous.provisioners next.provisioners)
  let db ← db.execute Tables.collectProvisioners
  db.updateMetadata
    (fun m => { m with schemaVersion := next.schema, audience := next.audience,
                       publicUrl := next.publicUrl, relayCaDer := next.relayCaDer })
    previous.revision previous.relayRevision next.revision next.relayRevision

/-- Plain `INSERT`: a row whose key exists fails the primary key. -/
def insertRow {α : Type} (row : α) (rows : List α) : List α := rows ++ [row]

def Database.initializeSync (state : ControlState) (db : Database) : Except String Database := do
  match db.tables.metadata with
  | some m => do
    ensureAdvance m.revision state.revision
      ("control revision must remain unchanged or advance atomically by one (stored " ++
        toString m.revision ++ ", candidate " ++ toString state.revision ++ ")")
    ensureAdvance m.relayRevision state.relayRevision
      "Relay revision must remain unchanged or advance atomically by one"
  | none => pure ()
  ensure (∀ r ∈ state.revocations, r.revision ≤ state.relayRevision)
    "revocation record is ahead of the Relay revision"
  let db ← db.execute (fun t => { t with invitations := [] })
  let db ← db.execute (fun t => { t with edges := [] })
  let db ← db.execute (fun t => { t with clients := [] })
  let db ← db.execute (fun t => { t with relays := [] })
  let db ← db.execute (fun t => { t with relayRevocations := [] })
  let db ← db.execute (fun t =>
    { t with provisioners := t.provisioners.map (fun row => { row with active := false }) })
  ensure (I64.Fits state.revision) "control revision exceeds SQLite range"
  ensure (I64.Fits state.relayRevision) "Relay revision exceeds SQLite range"
  let db ← db.execute (fun t =>
    { t with metadata := some ⟨state.schema, state.audience, state.publicUrl, state.relayCaDer,
        state.revision, state.relayRevision⟩ })
  let db ← foldAll (fun db item => db.execute (Tables.putProvisioner item)) db state.provisioners
  let db ← foldAll (fun db (item : ClientRecord) => do
      ensure (I64.Fits item.credentialGeneration) "Client credential generation exceeds SQLite range"
      db.execute (fun t => { t with clients := insertRow item t.clients })) db state.clients
  let db ← foldAll (fun db (item : EdgeRecord) => do
      ensure (I64.Fits item.credentialGeneration) "Edge credential generation exceeds SQLite range"
      db.execute (fun t => { t with edges := insertRow item t.edges })) db state.edges
  let db ← foldAll (fun db item =>
      db.execute (fun t => { t with relays := insertRow item t.relays })) db state.relays
  let db ← foldAll (fun db (item : RevocationRecord) => do
      ensure (I64.Fits item.revokedThroughGeneration)
        "revoked credential generation exceeds SQLite range"
      ensure (I64.Fits item.revision) "revocation revision exceeds SQLite range"
      db.execute (fun t => { t with relayRevocations := insertRow item t.relayRevocations })) db
    state.revocations
  let db ← foldAll (fun db (item : InviteRecord) => do
      let db ← db.ensurePlaceholder item.managedBy
      db.execute (fun t => { t with
        invitations := insertRow (invitationRow item (liveOwner state.clients item)) t.invitations }))
    db state.invites
  db.execute Tables.collectProvisioners

/-- `Database::create` on a path where no database exists. -/
def Database.create (state : ControlState) : Except String Database :=
  Database.initializeSync state Database.empty

/-! ## Committing -/

/-- The database and the in-memory state of a running Control. -/
structure Store where
  database : Database
  state : ControlState

/-- The revision a delta is published under. -/
def StateDelta.nextRevision (delta : StateDelta) (state : ControlState) : Except ApiError Nat :=
  match delta.publish with
  | .none => .ok state.revision
  | .nodes | .nodesAndRelays =>
    okOr (U64.checkedAdd state.revision 1) (ApiError.internal "revision overflow")

/-- The Relay revision a delta is published under. -/
def StateDelta.nextRelayRevision (delta : StateDelta) (state : ControlState) : Except ApiError Nat :=
  match delta.publish with
  | .none | .nodes => .ok state.relayRevision
  | .nodesAndRelays =>
    okOr (U64.checkedAdd state.relayRevision 1) (ApiError.internal "Relay revision overflow")

/-- `commit_delta`: the database first, the in-memory state only after it succeeded. -/
def commitDelta (ioError : Option String) (store : Store) (delta : StateDelta) :
    Except ApiError Store := do
  let revision ← delta.nextRevision store.state
  let relayRevision ← delta.nextRelayRevision store.state
  let database ← (transaction ioError (store.database.applyDeltaSync store.state.revision
    store.state.relayRevision revision relayRevision delta)).mapError ApiError.internal
  return { database, state := { delta.apply store.state with revision, relayRevision } }

/-- Run the decision of a handler against the store. -/
def Plan.run {α : Type} (ioError : Option String) (store : Store) :
    Except ApiError (Plan α) → Except ApiError α × Store
  | .error e => (.error e, store)
  | .ok (.reply answer) => (.ok answer, store)
  | .ok (.commit delta respond) =>
    match commitDelta ioError store delta with
    | .error e => (.error e, store)
    | .ok store' => (respond store'.state, store')

end AgentScale.Control
