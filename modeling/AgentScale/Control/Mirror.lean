import AgentScale.Control.Database
import AgentScale.Library.Lists

set_option autoImplicit false

/-! # The store mirrors the in-memory state

`Represents t s` is the simulation relation between the tables and the in-memory state: the active
rows are, up to order, exactly the records. Each statement is matched by the in-memory effect of its
change (`Represents.apply`), so a committed delta keeps the relation (`Represents.commitDelta`), and
so does the whole-state writer `apply_sync` (`Represents.applySync`). What `Database::load` reads is
then the state itself, up to order (`Represents.load`). -/

namespace AgentScale.Control

open Checked ControlApi

def ControlState.metadataRow (s : ControlState) : MetadataRow :=
  ⟨s.schema, s.audience, s.publicUrl, s.relayCaDer, s.revision, s.relayRevision⟩

/-- Equality of states up to the order of records. -/
structure ControlState.Same (a b : ControlState) : Prop where
  metadata : a.metadataRow = b.metadataRow
  clients : a.clients.Perm b.clients
  edges : a.edges.Perm b.edges
  relays : a.relays.Perm b.relays
  invites : a.invites.Perm b.invites
  provisioners : a.provisioners.Perm b.provisioners
  revocations : a.revocations.Perm b.revocations

namespace ControlState.Same

variable {a b c : ControlState}

theorem refl (a : ControlState) : a.Same a := ⟨rfl, .rfl, .rfl, .rfl, .rfl, .rfl, .rfl⟩

theorem symm (h : a.Same b) : b.Same a :=
  ⟨h.metadata.symm, h.clients.symm, h.edges.symm, h.relays.symm, h.invites.symm,
    h.provisioners.symm, h.revocations.symm⟩

theorem audience (h : a.Same b) : a.audience = b.audience := congrArg MetadataRow.audience h.metadata

theorem revision (h : a.Same b) : a.revision = b.revision := congrArg MetadataRow.revision h.metadata

theorem relayRevision (h : a.Same b) : a.relayRevision = b.relayRevision :=
  congrArg MetadataRow.relayRevision h.metadata

end ControlState.Same

def Tables.activeProvisioners (t : Tables) : List ProvisionerRecord :=
  (t.provisioners.filter (·.active)).map ProvisionerRow.record

/-- The tables hold exactly the records of the state, and every invitation row is stored under the id
    of its invitation. -/
structure Represents (t : Tables) (s : ControlState) : Prop where
  metadata : t.metadata = some s.metadataRow
  clients : t.clients.Perm s.clients
  edges : t.edges.Perm s.edges
  relays : t.relays.Perm s.relays
  invites : (t.invitations.map InvitationRow.record).Perm s.invites
  provisioners : t.activeProvisioners.Perm s.provisioners
  revocations : t.relayRevocations.Perm s.revocations
  keys : ∀ row ∈ t.invitations, row.inviteId = row.inviteJson.inviteId

namespace Represents

variable {t : Tables} {s s' : ControlState} {db db' : Database}

theorem same (h : Represents t s) (h' : Represents t s') : s.Same s' :=
  ⟨Option.some.inj (h.metadata.symm.trans h'.metadata), h.clients.symm.trans h'.clients,
    h.edges.symm.trans h'.edges, h.relays.symm.trans h'.relays, h.invites.symm.trans h'.invites,
    h.provisioners.symm.trans h'.provisioners, h.revocations.symm.trans h'.revocations⟩

end Represents

/-! ## Loading -/

theorem orderBy_perm {α : Type} (le : α → α → Prop) [DecidableRel le] (rows : List α) :
    (orderBy le rows).Perm rows :=
  List.perm_insertionSort le rows

/-- `load` reads a state the tables represent. -/
theorem Database.load_represents {db : Database} {s : ControlState} (h : db.load = .ok s)
    (hkeys : ∀ row ∈ db.tables.invitations, row.inviteId = row.inviteJson.inviteId) :
    Represents db.tables s ∧ s.schema = STATE_SCHEMA := by
  obtain ⟨m, hm, h⟩ := of_bind h
  obtain ⟨_, hschema, h⟩ := of_bind h
  cases h
  refine ⟨⟨okOr_eq_ok.1 hm, (orderBy_perm _ _).symm, (orderBy_perm _ _).symm,
    (orderBy_perm _ _).symm, .rfl, ?_, (orderBy_perm _ _).symm, hkeys⟩, ensure_eq_ok.1 hschema⟩
  exact ((orderBy_perm _ _).symm).map _

/-- `load` succeeds on tables that represent a state of the current schema, and gives that state up to
    order. -/
theorem Represents.load {db : Database} {s : ControlState} (h : Represents db.tables s)
    (hschema : s.schema = STATE_SCHEMA) : ∃ loaded, db.load = .ok loaded ∧ loaded.Same s := by
  have hload : ∃ loaded, db.load = .ok loaded := by
    exact ⟨_, bind_ok (okOr_eq_ok.2 h.metadata) (bind_ok (ensure_of hschema) rfl)⟩
  obtain ⟨loaded, hload⟩ := hload
  exact ⟨loaded, hload, (db.load_represents hload h.keys).1.same h⟩

/-! ## Single statements -/

namespace Database

variable {db db' : Database}

theorem distinct_clients (db : Database) : Keyed.Distinct ClientRecord.endpointId db.tables.clients :=
  of_decide_eq_true (db.valid .clientsKey)

theorem distinct_edges (db : Database) : Keyed.Distinct EdgeRecord.endpointId db.tables.edges :=
  of_decide_eq_true (db.valid .edgesKey)

theorem distinct_relays (db : Database) : Keyed.Distinct RelayRecord.endpointId db.tables.relays :=
  of_decide_eq_true (db.valid .relaysKey)

theorem distinct_revocations (db : Database) :
    Keyed.Distinct RevocationRecord.endpointId db.tables.relayRevocations :=
  of_decide_eq_true (db.valid .revocationsKey)

theorem distinct_provisioners (db : Database) :
    Keyed.Distinct ProvisionerRow.endpointId db.tables.provisioners :=
  of_decide_eq_true (db.valid .provisionersKey)

theorem distinct_invitations (db : Database) :
    Keyed.Distinct InvitationRow.inviteId db.tables.invitations :=
  of_decide_eq_true (db.valid .invitationsKey)

theorem putClient_tables {item : ClientRecord} (h : db.putClient item = .ok db') :
    db'.tables = Tables.putClient item db.tables := by
  obtain ⟨_, _, h⟩ := of_bind h
  exact execute_eq_ok.1 h

theorem putEdge_tables {item : EdgeRecord} (h : db.putEdge item = .ok db') :
    db'.tables = Tables.putEdge item db.tables := by
  obtain ⟨_, _, h⟩ := of_bind h
  exact execute_eq_ok.1 h

theorem putRevocation_tables {item : RevocationRecord} (h : db.putRevocation item = .ok db') :
    db'.tables = Tables.putRevocation item db.tables := by
  obtain ⟨_, _, h⟩ := of_bind h
  obtain ⟨_, _, h⟩ := of_bind h
  exact execute_eq_ok.1 h

end Database

/-- No invitation refers to a Provisioner row that is collected. -/
theorem Tables.collectProvisioners_eq (t : Tables) : Tables.collectProvisioners t =
    { t with provisioners := t.provisioners.filter (fun row => !t.unreferenced row) } := by
  have hinvites : t.invitations.map (fun row =>
      if (t.provisioners.filter t.unreferenced).any (fun p => row.managedBy = some p.endpointId)
      then { row with managedBy := none } else row) = t.invitations := by
    refine (List.map_congr_left (fun row hrow => ?_)).trans (List.map_id _)
    rw [if_neg]
    · rfl
    · rintro hany
      obtain ⟨p, hp, hmanaged⟩ := List.any_eq_true.1 hany
      have hfree := (List.mem_filter.1 hp).2
      simp only [Tables.unreferenced, Bool.and_eq_true, Bool.not_eq_true', List.any_eq_false] at hfree
      exact hfree.1.2 row hrow hmanaged
  unfold Tables.collectProvisioners
  rw [hinvites]

namespace Represents

variable {s : ControlState} {db db' : Database} {t : Tables}

theorem distinct_invites (h : Represents db.tables s) : Keyed.Distinct InviteRecord.id s.invites := by
  refine Keyed.Distinct.perm ?_ h.invites
  have hids : (db.tables.invitations.map InvitationRow.record).map InviteRecord.id =
      db.tables.invitations.map InvitationRow.inviteId := by
    rw [List.map_map]
    exact List.map_congr_left (fun row hrow => (h.keys row hrow).symm)
  unfold Keyed.Distinct
  rw [hids]
  exact db.distinct_invitations

theorem distinct_provisioners (h : Represents db.tables s) :
    Keyed.Distinct ProvisionerRecord.endpointId s.provisioners := by
  refine Keyed.Distinct.perm ?_ h.provisioners
  have hids : db.tables.activeProvisioners.map ProvisionerRecord.endpointId =
      (db.tables.provisioners.filter (·.active)).map ProvisionerRow.endpointId := by
    simp only [Tables.activeProvisioners, List.map_map]
    rfl
  unfold Keyed.Distinct
  rw [hids]
  exact db.distinct_provisioners.sublist List.filter_sublist

/-- A placeholder row is inactive, so it is not part of the state. -/
theorem placeholder (h : Represents t s) (endpointId : String) :
    Represents (Tables.placeholderProvisioner endpointId t) s := by
  unfold Tables.placeholderProvisioner
  split
  · exact h
  · refine { h with provisioners := ?_ }
    have hactive : (t.provisioners ++
        [(⟨endpointId, "deleted:" ++ endpointId, false⟩ : ProvisionerRow)]).filter (·.active) =
        t.provisioners.filter (·.active) := by
      simp
    simpa only [Tables.activeProvisioners, hactive] using h.provisioners

theorem ensurePlaceholder {managedBy : Option String} (h : Represents db.tables s)
    (hdb : db.ensurePlaceholder managedBy = .ok db') : Represents db'.tables s := by
  cases managedBy with
  | none =>
    injection hdb with hdb
    exact hdb ▸ h
  | some endpointId =>
    rw [Database.execute_eq_ok.1 hdb]
    exact h.placeholder endpointId

/-- Collecting Provisioner rows removes inactive rows only. -/
theorem collectProvisioners (h : Represents t s) :
    Represents (Tables.collectProvisioners t) s := by
  have hkept : (t.provisioners.filter (fun row => !t.unreferenced row)).filter (·.active) =
      t.provisioners.filter (·.active) := by
    rw [List.filter_filter]
    refine List.filter_congr (fun row _ => ?_)
    cases hactive : row.active <;> simp [Tables.unreferenced, hactive]
  rw [Tables.collectProvisioners_eq]
  refine { h with provisioners := ?_ }
  simpa only [Tables.activeProvisioners, hkept] using h.provisioners

/-- Deleting a client only clears an `owner_id` column, which is not read back. -/
theorem deleteClient (h : Represents t s) (endpointId : String) :
    Represents (Tables.deleteClient endpointId t)
      (StateChange.apply s (.deleteClient endpointId)) := by
  have hrecords : (Tables.deleteClient endpointId t).invitations.map InvitationRow.record =
      t.invitations.map InvitationRow.record := by
    rw [Tables.deleteClient, List.map_map]
    refine List.map_congr_left (fun row _ => ?_)
    simp only [Function.comp_apply]
    split <;> rfl
  refine { h with clients := Keyed.discard_perm h.clients, invites := ?_, keys := ?_ }
  · rw [hrecords]
    exact h.invites
  · intro row hrow
    obtain ⟨row', hrow', rfl⟩ := List.mem_map.1 hrow
    have hkey := h.keys row' hrow'
    split <;> exact hkey

theorem putInvitation (h : Represents db.tables s) (item : InviteRecord) (ownerId : Option String) :
    Represents (Tables.putInvitation (invitationRow item ownerId) db.tables)
      (StateChange.apply s (.putInvite item)) := by
  refine { h with invites := ?_, keys := ?_ }
  · have hmap : ((Tables.putInvitation (invitationRow item ownerId) db.tables).invitations).map
        InvitationRow.record =
        Keyed.upsert InviteRecord.id item (db.tables.invitations.map InvitationRow.record) :=
      Keyed.map_upsert (fun row hrow => (h.keys row hrow).symm) rfl
    rw [hmap]
    exact Keyed.upsert_congr_perm (h.distinct_invites.perm h.invites.symm) h.invites
  · intro row hrow
    rcases (Keyed.mem_upsert db.distinct_invitations).1 hrow with rfl | ⟨hmem, _⟩
    · rfl
    · exact h.keys row hmem

theorem deleteInvitation (h : Represents t s) (inviteId : String) :
    Represents (Tables.deleteInvitation inviteId t)
      (StateChange.apply s (.deleteInvite inviteId)) := by
  refine { h with invites := ?_, keys := fun row hrow => h.keys row (Keyed.mem_discard.1 hrow).1 }
  have hmap : ((Tables.deleteInvitation inviteId t).invitations).map InvitationRow.record =
      Keyed.discard InviteRecord.id inviteId (t.invitations.map InvitationRow.record) :=
    Keyed.map_discard (fun row hrow => (h.keys row hrow).symm)
  rw [hmap]
  exact Keyed.discard_perm h.invites

theorem putProvisioner (h : Represents db.tables s) (item : ProvisionerRecord) :
    Represents (Tables.putProvisioner item db.tables)
      (StateChange.apply s (.putProvisioner item)) := by
  refine { h with provisioners := ?_ }
  have hrows := Keyed.upsert_perm (x := ⟨item.endpointId, item.name, true⟩) db.distinct_provisioners
  have hactive : ((Keyed.discard ProvisionerRow.endpointId item.endpointId
      db.tables.provisioners).filter (·.active)).map ProvisionerRow.record =
      Keyed.discard ProvisionerRecord.endpointId item.endpointId db.tables.activeProvisioners := by
    rw [Tables.activeProvisioners, ← Keyed.map_discard (fun _ _ => rfl)]
    simp only [Keyed.discard, List.filter_filter, Bool.and_comm]
    rfl
  refine ((hrows.filter _).map _).trans ?_
  rw [List.filter_cons_of_pos rfl, List.map_cons, hactive]
  exact ((Keyed.discard_perm h.provisioners).cons _).trans
    (Keyed.upsert_perm h.distinct_provisioners).symm

theorem deactivateProvisioner (h : Represents t s) (endpointId : String) :
    Represents (Tables.deactivateProvisioner endpointId t)
      (StateChange.apply s (.deleteProvisioner endpointId)) := by
  refine { h with provisioners := ?_ }
  have hactive : (Tables.deactivateProvisioner endpointId t).activeProvisioners =
      Keyed.discard ProvisionerRecord.endpointId endpointId t.activeProvisioners := by
    simp only [Tables.activeProvisioners, Tables.deactivateProvisioner]
    induction t.provisioners with
    | nil => rfl
    | cons row rest ih =>
      by_cases hk : row.endpointId = endpointId
      · cases hactive : row.active <;>
          simp [hk, hactive, ih, Keyed.discard, ProvisionerRow.record]
      · cases hactive : row.active <;>
          simp [hk, hactive, ih, Keyed.discard, ProvisionerRow.record]
  rw [hactive]
  exact Keyed.discard_perm h.provisioners

/-- **One change.** The statements of a change and its in-memory effect keep the relation. -/
theorem apply {relayRevision : Nat} {change : StateChange} (h : Represents db.tables s)
    (hdb : db.applyChange relayRevision change = .ok db') :
    Represents db'.tables (change.apply s) := by
  cases change with
  | putClient item =>
    obtain ⟨db₁, hplace, hdb⟩ := of_bind hdb
    have h₁ := h.ensurePlaceholder hplace
    rw [Database.putClient_tables hdb]
    exact { h₁ with clients := Keyed.upsert_congr_perm db₁.distinct_clients h₁.clients }
  | deleteClient endpointId =>
    rw [Database.execute_eq_ok.1 hdb]
    exact h.deleteClient endpointId
  | putEdge item =>
    rw [Database.putEdge_tables hdb]
    exact { h with edges := Keyed.upsert_congr_perm db.distinct_edges h.edges }
  | deleteEdge endpointId =>
    rw [Database.execute_eq_ok.1 hdb]
    exact { h with edges := Keyed.discard_perm h.edges }
  | putRelay item =>
    rw [Database.execute_eq_ok.1 hdb]
    exact { h with relays := Keyed.upsert_congr_perm db.distinct_relays h.relays }
  | deleteRelay endpointId =>
    rw [Database.execute_eq_ok.1 hdb]
    exact { h with relays := Keyed.discard_perm h.relays }
  | putInvite item =>
    obtain ⟨db₁, hplace, hdb⟩ := of_bind hdb
    rw [Database.execute_eq_ok.1 hdb]
    exact (h.ensurePlaceholder hplace).putInvitation item _
  | deleteInvite inviteId =>
    rw [Database.execute_eq_ok.1 hdb]
    exact h.deleteInvitation inviteId
  | putProvisioner item =>
    rw [Database.execute_eq_ok.1 hdb]
    exact h.putProvisioner item
  | deleteProvisioner endpointId =>
    rw [Database.execute_eq_ok.1 hdb]
    exact h.deactivateProvisioner endpointId
  | putRevocation item =>
    obtain ⟨_, _, hdb⟩ := of_bind hdb
    rw [Database.putRevocation_tables hdb]
    exact { h with
      revocations := Keyed.upsert_congr_perm db.distinct_revocations h.revocations }
  | deleteRevocation endpointId =>
    rw [Database.execute_eq_ok.1 hdb]
    exact { h with revocations := Keyed.discard_perm h.revocations }

end Represents

/-! ## Committed deltas -/

/-- How far a published delta moves the revision. -/
def Publish.revisions : Publish → Nat
  | .none => 0
  | .nodes | .nodesAndRelays => 1

/-- How far a published delta moves the Relay revision. -/
def Publish.relayRevisions : Publish → Nat
  | .none | .nodes => 0
  | .nodesAndRelays => 1

def StateDelta.commit (delta : StateDelta) (s : ControlState) : ControlState :=
  { delta.apply s with
    revision := s.revision + delta.publish.revisions
    relayRevision := s.relayRevision + delta.publish.relayRevisions }

theorem StateChange.apply_metadata (change : StateChange) (s : ControlState) :
    (change.apply s).metadataRow = s.metadataRow := by
  cases change <;> rfl

/-- Changes leave the metadata alone. -/
theorem StateDelta.apply_metadata (delta : StateDelta) (s : ControlState) :
    (delta.apply s).metadataRow = s.metadataRow := by
  have hfold : ∀ (changes : List StateChange) (s : ControlState),
      (changes.foldl StateChange.apply s).metadataRow = s.metadataRow := by
    intro changes
    induction changes with
    | nil => exact fun _ => rfl
    | cons change rest ih => exact fun s => (ih _).trans (change.apply_metadata s)
  exact hfold delta.changes s

theorem StateDelta.commit_schema (delta : StateDelta) (s : ControlState) :
    (delta.commit s).schema = s.schema :=
  congrArg MetadataRow.schemaVersion (delta.apply_metadata s)

variable {delta : StateDelta}

theorem nextRevision_eq_ok {s : ControlState} {revision : Nat}
    (h : delta.nextRevision s = .ok revision) :
    revision = s.revision + delta.publish.revisions := by
  unfold StateDelta.nextRevision at h
  split at h
  · next hp => simpa [hp, Publish.revisions] using h.symm
  · next hp => simpa [hp, Publish.revisions] using (U64.checkedAdd_eq_some.1 (okOr_eq_ok.1 h)).2
  · next hp => simpa [hp, Publish.revisions] using (U64.checkedAdd_eq_some.1 (okOr_eq_ok.1 h)).2

theorem nextRelayRevision_eq_ok {s : ControlState} {relayRevision : Nat}
    (h : delta.nextRelayRevision s = .ok relayRevision) :
    relayRevision = s.relayRevision + delta.publish.relayRevisions := by
  unfold StateDelta.nextRelayRevision at h
  split at h
  · next hp => simpa [hp, Publish.relayRevisions] using h.symm
  · next hp => simpa [hp, Publish.relayRevisions] using h.symm
  · next hp => simpa [hp, Publish.relayRevisions] using (U64.checkedAdd_eq_some.1 (okOr_eq_ok.1 h)).2

/-- A successful metadata update found the expected revisions and replaced the row. -/
theorem Database.updateMetadata_eq_ok {db db' : Database} {update : MetadataRow → MetadataRow}
    {expected expectedRelay revision relayRevision : Nat}
    (h : db.updateMetadata update expected expectedRelay revision relayRevision = .ok db') :
    ∃ m, db.tables.metadata = some m ∧
      db'.tables = { db.tables with metadata := some { update m with revision, relayRevision } } ∧
      I64.Fits revision ∧ I64.Fits relayRevision := by
  obtain ⟨_, hfits, h⟩ := of_bind h
  obtain ⟨_, hrelayFits, h⟩ := of_bind h
  obtain ⟨_, _, h⟩ := of_bind h
  obtain ⟨_, _, h⟩ := of_bind h
  obtain ⟨db₁, hexec, h⟩ := of_bind h
  obtain ⟨_, hchanged, h⟩ := of_bind h
  cases h
  have hmatch := ensure_eq_ok.1 hchanged
  have htables := Database.execute_eq_ok.1 hexec
  rw [if_pos hmatch] at htables
  cases hm : db.tables.metadata with
  | none =>
    rw [Tables.metadataMatches, hm] at hmatch
    cases hmatch
  | some m =>
    rw [hm] at htables
    exact ⟨m, rfl, htables, ensure_eq_ok.1 hfits, ensure_eq_ok.1 hrelayFits⟩

theorem transaction_eq_ok {ioError : Option String} {body : Except String Database} {db : Database}
    (h : transaction ioError body = .ok db) : body = .ok db := by
  obtain ⟨db', hbody, h⟩ := of_bind h
  cases ioError with
  | none => exact hbody.trans h
  | some e => cases h

namespace Represents

variable {s : ControlState} {db db' : Database}

theorem executeCollect (h : Represents db.tables s)
    (hdb : db.execute Tables.collectProvisioners = .ok db') : Represents db'.tables s := by
  rw [Database.execute_eq_ok.1 hdb]
  exact h.collectProvisioners

theorem foldChanges {relayRevision : Nat} {changes : List StateChange} (h : Represents db.tables s)
    (hdb : foldAll (Database.applyChange relayRevision) db changes = .ok db') :
    Represents db'.tables (changes.foldl StateChange.apply s) := by
  induction changes generalizing db s with
  | nil =>
    injection hdb with hdb
    exact hdb ▸ h
  | cons change rest ih =>
    obtain ⟨db₁, hchange, hrest⟩ := of_bind hdb
    exact ih (h.apply hchange) hrest

/-- Replacing the metadata row by that of a state with the same records. -/
theorem setMetadata {t : Tables} (h : Represents t s) (s' : ControlState)
    (hs : { s with
      schema := s'.schema, audience := s'.audience, publicUrl := s'.publicUrl,
      relayCaDer := s'.relayCaDer, revision := s'.revision,
      relayRevision := s'.relayRevision } = s') :
    Represents { t with metadata := some s'.metadataRow } s' := by
  rw [← hs]
  exact { h with metadata := rfl }

theorem applyDeltaSync {revision relayRevision : Nat} (h : Represents db.tables s)
    (hdb : db.applyDeltaSync s.revision s.relayRevision revision relayRevision delta = .ok db') :
    Represents db'.tables { delta.apply s with revision, relayRevision } ∧
      I64.Fits revision ∧ I64.Fits relayRevision := by
  obtain ⟨_, _, hdb⟩ := of_bind hdb
  obtain ⟨_, _, hdb⟩ := of_bind hdb
  obtain ⟨db₁, hfold, hdb⟩ := of_bind hdb
  obtain ⟨db₂, hcollect, hdb⟩ := of_bind hdb
  obtain ⟨m, hm, htables, hfits, hrelayFits⟩ := Database.updateMetadata_eq_ok hdb
  have h₂ : Represents db₂.tables (delta.apply s) := (h.foldChanges hfold).executeCollect hcollect
  cases hm.symm.trans h₂.metadata
  rw [htables]
  exact ⟨h₂.setMetadata { delta.apply s with revision, relayRevision } rfl, hfits, hrelayFits⟩

end Represents

/-- **A commit applies the delta to both sides.** After a successful `commit_delta` the in-memory state
    is the committed one and the tables represent it. -/
theorem commitDelta_eq_ok {ioError : Option String} {store store' : Store}
    (hmirror : Represents store.database.tables store.state)
    (h : commitDelta ioError store delta = .ok store') :
    store'.state = delta.commit store.state ∧
      Represents store'.database.tables store'.state ∧
      I64.Fits store'.state.revision ∧ I64.Fits store'.state.relayRevision := by
  obtain ⟨revision, hrev, h⟩ := of_bind h
  obtain ⟨relayRevision, hrelay, h⟩ := of_bind h
  obtain ⟨database, hdb, h⟩ := of_bind h
  cases h
  have hsync := hmirror.applyDeltaSync (transaction_eq_ok (mapError_eq_ok.1 hdb))
  obtain rfl := nextRevision_eq_ok hrev
  obtain rfl := nextRelayRevision_eq_ok hrelay
  exact ⟨rfl, hsync⟩

/-! ## Whole-state writes -/

/-- The records of a state are distinct in every key the store uses. -/
structure ControlState.Keyed (s : ControlState) : Prop where
  clients : Keyed.Distinct ClientRecord.endpointId s.clients
  edges : Keyed.Distinct EdgeRecord.endpointId s.edges
  relays : Keyed.Distinct RelayRecord.endpointId s.relays
  invites : Keyed.Distinct InviteRecord.id s.invites
  provisioners : Keyed.Distinct ProvisionerRecord.endpointId s.provisioners
  revocations : Keyed.Distinct RevocationRecord.endpointId s.revocations

/-- A field of the state: how it is read and how it is replaced. -/
structure StateField (β : Type) where
  get : ControlState → β
  set : β → ControlState → ControlState
  get_set : ∀ b s, get (set b s) = b
  set_set : ∀ b b' s, set b (set b' s) = set b s
  set_get : ∀ s, set (get s) s = s

namespace StateField

abbrev clients : StateField (List ClientRecord) :=
  ⟨ControlState.clients, fun l s => { s with clients := l }, fun _ _ => rfl, fun _ _ _ => rfl,
    fun _ => rfl⟩

abbrev edges : StateField (List EdgeRecord) :=
  ⟨ControlState.edges, fun l s => { s with edges := l }, fun _ _ => rfl, fun _ _ _ => rfl,
    fun _ => rfl⟩

abbrev relays : StateField (List RelayRecord) :=
  ⟨ControlState.relays, fun l s => { s with relays := l }, fun _ _ => rfl, fun _ _ _ => rfl,
    fun _ => rfl⟩

abbrev invites : StateField (List InviteRecord) :=
  ⟨ControlState.invites, fun l s => { s with invites := l }, fun _ _ => rfl, fun _ _ _ => rfl,
    fun _ => rfl⟩

abbrev provisioners : StateField (List ProvisionerRecord) :=
  ⟨ControlState.provisioners, fun l s => { s with provisioners := l }, fun _ _ => rfl, fun _ _ _ => rfl,
    fun _ => rfl⟩

abbrev revocations : StateField (List RevocationRecord) :=
  ⟨ControlState.revocations, fun l s => { s with revocations := l }, fun _ _ => rfl, fun _ _ _ => rfl,
    fun _ => rfl⟩

end StateField

namespace Represents

variable {s prev next : ControlState} {db db' : Database}

theorem keyed (h : Represents db.tables s) : s.Keyed where
  clients := db.distinct_clients.perm h.clients
  edges := db.distinct_edges.perm h.edges
  relays := db.distinct_relays.perm h.relays
  invites := h.distinct_invites
  provisioners := h.distinct_provisioners
  revocations := db.distinct_revocations.perm h.revocations

/-- A loop of statements that all work on one field of the state folds over that field. -/
theorem foldAll_field {α β : Type} (field : StateField β) (step : β → α → β)
    {f : Database → α → Except String Database}
    (hf : ∀ db db' s x, Represents db.tables s → f db x = .ok db' →
      Represents db'.tables (field.set (step (field.get s) x) s))
    {xs : List α} (h : Represents db.tables s) (hdb : foldAll f db xs = .ok db') :
    Represents db'.tables (field.set (xs.foldl step (field.get s)) s) := by
  induction xs generalizing db s with
  | nil =>
    injection hdb with hdb
    rw [List.foldl_nil, field.set_get]
    exact hdb ▸ h
  | cons x rest ih =>
    obtain ⟨db₁, hx, hrest⟩ := of_bind hdb
    have h₁ := ih (hf _ _ _ _ h hx) hrest
    rwa [field.get_set, field.set_set] at h₁

theorem foldAll_placeholders {ids : List String} (h : Represents db.tables s)
    (hdb : foldAll (fun db id => db.execute (Tables.placeholderProvisioner id)) db ids = .ok db') :
    Represents db'.tables s := by
  induction ids generalizing db with
  | nil =>
    injection hdb with hdb
    exact hdb ▸ h
  | cons id rest ih =>
    obtain ⟨db₁, hid, hrest⟩ := of_bind hdb
    refine ih ?_ hrest
    rw [Database.execute_eq_ok.1 hid]
    exact h.placeholder id

/-- **Whole-state writes.** `apply_sync` brings tables that represent `prev` to tables that represent
    `next`. -/
theorem applySync (h : Represents db.tables prev) (hnext : next.Keyed)
    (hdb : db.applySync prev next = .ok db') :
    Represents db'.tables next ∧ I64.Fits next.revision ∧ I64.Fits next.relayRevision := by
  have hprev := h.keyed
  obtain ⟨_, _, hdb⟩ := of_bind hdb
  obtain ⟨_, _, hdb⟩ := of_bind hdb
  obtain ⟨_, _, hdb⟩ := of_bind hdb
  obtain ⟨_, _, hdb⟩ := of_bind hdb
  obtain ⟨_, _, hdb⟩ := of_bind hdb
  -- the deletions of what `next` no longer has
  obtain ⟨_, hfold, hdb⟩ := of_bind hdb
  have h := h.foldAll_field .invites (fun l k => Keyed.discard InviteRecord.id k l)
    (fun _ _ _ x h hx => by rw [Database.execute_eq_ok.1 hx]; exact h.deleteInvitation x) hfold
  obtain ⟨_, hfold, hdb⟩ := of_bind hdb
  have h := h.foldAll_field .edges (fun l k => Keyed.discard EdgeRecord.endpointId k l)
    (fun _ _ _ x h hx => by
      rw [Database.execute_eq_ok.1 hx]; exact { h with edges := Keyed.discard_perm h.edges }) hfold
  obtain ⟨_, hfold, hdb⟩ := of_bind hdb
  have h := h.foldAll_field .clients (fun l k => Keyed.discard ClientRecord.endpointId k l)
    (fun _ _ _ x h hx => by rw [Database.execute_eq_ok.1 hx]; exact h.deleteClient x) hfold
  obtain ⟨_, hfold, hdb⟩ := of_bind hdb
  have h := h.foldAll_field .relays (fun l k => Keyed.discard RelayRecord.endpointId k l)
    (fun _ _ _ x h hx => by
      rw [Database.execute_eq_ok.1 hx]; exact { h with relays := Keyed.discard_perm h.relays }) hfold
  obtain ⟨_, hfold, hdb⟩ := of_bind hdb
  have h := h.foldAll_field .revocations (fun l k => Keyed.discard RevocationRecord.endpointId k l)
    (fun _ _ _ x h hx => by
      rw [Database.execute_eq_ok.1 hx]
      exact { h with revocations := Keyed.discard_perm h.revocations }) hfold
  -- the rows that are new or differ
  obtain ⟨_, hfold, hdb⟩ := of_bind hdb
  have h := h.foldAll_placeholders hfold
  obtain ⟨_, hfold, hdb⟩ := of_bind hdb
  have h := h.foldAll_field .provisioners (fun l x => Keyed.upsert ProvisionerRecord.endpointId x l)
    (fun _ _ _ x h hx => by rw [Database.execute_eq_ok.1 hx]; exact h.putProvisioner x) hfold
  obtain ⟨_, hfold, hdb⟩ := of_bind hdb
  have h := h.foldAll_field .clients (fun l x => Keyed.upsert ClientRecord.endpointId x l)
    (fun db _ _ _ h hx => by
      rw [Database.putClient_tables hx]
      exact { h with clients := Keyed.upsert_congr_perm db.distinct_clients h.clients }) hfold
  obtain ⟨_, hfold, hdb⟩ := of_bind hdb
  have h := h.foldAll_field .edges (fun l x => Keyed.upsert EdgeRecord.endpointId x l)
    (fun db _ _ _ h hx => by
      rw [Database.putEdge_tables hx]
      exact { h with edges := Keyed.upsert_congr_perm db.distinct_edges h.edges }) hfold
  obtain ⟨_, hfold, hdb⟩ := of_bind hdb
  have h := h.foldAll_field .relays (fun l x => Keyed.upsert RelayRecord.endpointId x l)
    (fun db _ _ _ h hx => by
      rw [Database.execute_eq_ok.1 hx]
      exact { h with relays := Keyed.upsert_congr_perm db.distinct_relays h.relays }) hfold
  obtain ⟨_, hfold, hdb⟩ := of_bind hdb
  have h := h.foldAll_field .revocations (fun l x => Keyed.upsert RevocationRecord.endpointId x l)
    (fun db _ _ _ h hx => by
      rw [Database.putRevocation_tables hx]
      exact { h with
        revocations := Keyed.upsert_congr_perm db.distinct_revocations h.revocations }) hfold
  obtain ⟨_, hfold, hdb⟩ := of_bind hdb
  have h := h.foldAll_field .invites (fun l x => Keyed.upsert InviteRecord.id x l)
    (fun _ _ _ x h hx => by rw [Database.execute_eq_ok.1 hx]; exact h.putInvitation x _) hfold
  -- the Provisioners that are gone, and the metadata row
  obtain ⟨_, hfold, hdb⟩ := of_bind hdb
  have h := h.foldAll_field .provisioners (fun l k => Keyed.discard ProvisionerRecord.endpointId k l)
    (fun _ _ _ x h hx => by rw [Database.execute_eq_ok.1 hx]; exact h.deactivateProvisioner x) hfold
  obtain ⟨_, hcollect, hdb⟩ := of_bind hdb
  have h := h.executeCollect hcollect
  obtain ⟨m, _, htables, hfits⟩ := Database.updateMetadata_eq_ok hdb
  refine ⟨?_, hfits⟩
  rw [htables]
  exact { h with
    metadata := rfl
    clients := h.clients.trans (Keyed.sync_perm hprev.clients hnext.clients)
    edges := h.edges.trans (Keyed.sync_perm hprev.edges hnext.edges)
    relays := h.relays.trans (Keyed.sync_perm hprev.relays hnext.relays)
    invites := h.invites.trans (Keyed.sync_perm hprev.invites hnext.invites)
    provisioners :=
      h.provisioners.trans (Keyed.sync_perm_reverse hprev.provisioners hnext.provisioners)
    revocations := h.revocations.trans (Keyed.sync_perm hprev.revocations hnext.revocations) }

/-- Inserting the invitations of a state, each with the placeholder of its manager. -/
theorem insertInvitation {item : InviteRecord} {ownerId : Option String} (h : Represents db.tables s)
    (hdb : (do
      let db ← db.ensurePlaceholder item.managedBy
      db.execute (fun t => { t with
        invitations := insertRow (invitationRow item ownerId) t.invitations })) = .ok db') :
    Represents db'.tables { s with invites := s.invites ++ [item] } := by
  obtain ⟨db₁, hplace, hdb⟩ := of_bind hdb
  have h₁ := h.ensurePlaceholder hplace
  rw [Database.execute_eq_ok.1 hdb]
  refine { h₁ with invites := ?_, keys := ?_ }
  · have hmap : (db₁.tables.invitations ++ [invitationRow item ownerId]).map InvitationRow.record =
        db₁.tables.invitations.map InvitationRow.record ++ [item] := by
      rw [List.map_append]
      rfl
    simp only [insertRow]
    rw [hmap]
    exact h₁.invites.append_right _
  · intro row hrow
    rcases List.mem_append.1 hrow with hold | hnew
    · exact h₁.keys row hold
    · rw [List.mem_singleton.1 hnew]
      rfl

/-- **A created database.** `create` writes tables that represent the state it is given. -/
theorem create (hprovisioners : Keyed.Distinct ProvisionerRecord.endpointId s.provisioners)
    (hdb : Database.create s = .ok db) : Represents db.tables s := by
  obtain ⟨_, _, hdb⟩ := of_bind hdb
  obtain ⟨db₁, h₁, hdb⟩ := of_bind hdb
  obtain ⟨db₂, h₂, hdb⟩ := of_bind hdb
  obtain ⟨db₃, h₃, hdb⟩ := of_bind hdb
  obtain ⟨db₄, h₄, hdb⟩ := of_bind hdb
  obtain ⟨db₅, h₅, hdb⟩ := of_bind hdb
  obtain ⟨db₆, h₆, hdb⟩ := of_bind hdb
  obtain ⟨_, _, hdb⟩ := of_bind hdb
  obtain ⟨_, _, hdb⟩ := of_bind hdb
  obtain ⟨db₇, h₇, hdb⟩ := of_bind hdb
  -- the tables are empty but for the metadata row
  have h : Represents db₇.tables { s with
      clients := [], edges := [], relays := [], invites := [], provisioners := [],
      revocations := [] } := by
    rw [Database.execute_eq_ok.1 h₇, Database.execute_eq_ok.1 h₆, Database.execute_eq_ok.1 h₅,
      Database.execute_eq_ok.1 h₄, Database.execute_eq_ok.1 h₃, Database.execute_eq_ok.1 h₂,
      Database.execute_eq_ok.1 h₁]
    exact ⟨rfl, .rfl, .rfl, .rfl, .rfl, .rfl, .rfl, fun _ hrow => absurd hrow List.not_mem_nil⟩
  obtain ⟨_, hfold, hdb⟩ := of_bind hdb
  have h := h.foldAll_field .provisioners (fun l x => Keyed.upsert ProvisionerRecord.endpointId x l)
    (fun _ _ _ x h hx => by rw [Database.execute_eq_ok.1 hx]; exact h.putProvisioner x) hfold
  obtain ⟨_, hfold, hdb⟩ := of_bind hdb
  have h := h.foldAll_field .clients (fun l x => l ++ [x]) (fun _ _ _ _ h hx => by
    obtain ⟨_, _, hx⟩ := of_bind hx
    rw [Database.execute_eq_ok.1 hx]
    exact { h with clients := h.clients.append_right _ }) hfold
  obtain ⟨_, hfold, hdb⟩ := of_bind hdb
  have h := h.foldAll_field .edges (fun l x => l ++ [x]) (fun _ _ _ _ h hx => by
    obtain ⟨_, _, hx⟩ := of_bind hx
    rw [Database.execute_eq_ok.1 hx]
    exact { h with edges := h.edges.append_right _ }) hfold
  obtain ⟨_, hfold, hdb⟩ := of_bind hdb
  have h := h.foldAll_field .relays (fun l x => l ++ [x]) (fun _ _ _ _ h hx => by
    rw [Database.execute_eq_ok.1 hx]
    exact { h with relays := h.relays.append_right _ }) hfold
  obtain ⟨_, hfold, hdb⟩ := of_bind hdb
  have h := h.foldAll_field .revocations (fun l x => l ++ [x]) (fun _ _ _ _ h hx => by
    obtain ⟨_, _, hx⟩ := of_bind hx
    obtain ⟨_, _, hx⟩ := of_bind hx
    rw [Database.execute_eq_ok.1 hx]
    exact { h with revocations := h.revocations.append_right _ }) hfold
  obtain ⟨_, hfold, hdb⟩ := of_bind hdb
  have h := h.foldAll_field .invites (fun l x => l ++ [x])
    (fun _ _ _ _ h hx => h.insertInvitation hx) hfold
  have h := h.executeCollect hdb
  simp only [List.foldl_append_eq_append, ← List.flatMap_def, List.flatMap_singleton', List.nil_append] at h
  have hcollect := Keyed.collect_of_distinct hprovisioners
  rw [Keyed.collect] at hcollect
  rwa [hcollect] at h

end Represents

/-! ## What the schema guarantees of the state -/

/-- The declared constraints, read on the in-memory state. -/
structure ControlState.WellFormed (s : ControlState) : Prop where
  keyed : s.Keyed
  audience : s.audience ≠ ""
  clientNames : Keyed.Distinct ClientRecord.name s.clients
  provisionerNames : Keyed.Distinct ProvisionerRecord.name s.provisioners
  relayNames : Keyed.Distinct RelayRecord.name s.relays
  relayUrls : Keyed.Distinct RelayRecord.url s.relays
  edgeNames : Keyed.Distinct (fun edge : EdgeRecord => (edge.ownerId, edge.name)) s.edges
  owners : ∀ edge ∈ s.edges, ∃ client ∈ s.clients, client.endpointId = edge.ownerId
  clientCredentials : ∀ client ∈ s.clients, 0 < client.credentialGeneration ∧
    client.credentialIssuedAt < client.credentialExpiresAt
  edgeCredentials : ∀ edge ∈ s.edges, 0 < edge.credentialGeneration ∧
    edge.credentialIssuedAt < edge.credentialExpiresAt
  tombstones : ∀ r ∈ s.revocations, 0 < r.revokedThroughGeneration ∧ 0 < r.revision
  terminal : ∀ invite ∈ s.invites, invite.state = .pending ↔ invite.terminalAt = none

/-- A represented state is well formed, because the tables meet their constraints. -/
theorem Represents.wellFormed {db : Database} {s : ControlState} (h : Represents db.tables s) :
    s.WellFormed where
  keyed := h.keyed
  audience := by
    have hcheck := db.valid .metadataAudience
    simp only [Constraint.check, h.metadata, Option.all_some, decide_eq_true_eq] at hcheck
    intro hempty
    have hrow : s.metadataRow.audience = "" := hempty
    rw [hrow] at hcheck
    exact absurd hcheck (by decide)
  clientNames := Keyed.Distinct.perm (of_decide_eq_true (db.valid .clientsName)) h.clients
  provisionerNames := by
    have hnames : Keyed.Distinct ProvisionerRow.name (db.tables.provisioners.filter (·.active)) :=
      of_decide_eq_true (db.valid .provisionersActiveName)
    refine Keyed.Distinct.perm ?_ h.provisioners
    rw [Keyed.Distinct, Tables.activeProvisioners, List.map_map]
    exact hnames
  relayNames := Keyed.Distinct.perm (of_decide_eq_true (db.valid .relaysName)) h.relays
  relayUrls := Keyed.Distinct.perm (of_decide_eq_true (db.valid .relaysUrl)) h.relays
  edgeNames := Keyed.Distinct.perm (of_decide_eq_true (db.valid .edgesOwnerName)) h.edges
  owners := by
    intro edge hedge
    obtain ⟨client, hclient, hid⟩ :=
      List.any_eq_true.1 (Lists.all_of_perm (db.valid .edgesOwner) h.edges edge hedge)
    exact ⟨client, h.clients.mem_iff.1 hclient, of_decide_eq_true hid⟩
  clientCredentials := fun client hclient =>
    ⟨of_decide_eq_true (Lists.all_of_perm (db.valid .clientsGeneration) h.clients client hclient),
      of_decide_eq_true (Lists.all_of_perm (db.valid .clientsExpiry) h.clients client hclient)⟩
  edgeCredentials := fun edge hedge =>
    ⟨of_decide_eq_true (Lists.all_of_perm (db.valid .edgesGeneration) h.edges edge hedge),
      of_decide_eq_true (Lists.all_of_perm (db.valid .edgesExpiry) h.edges edge hedge)⟩
  tombstones := fun r hr =>
    ⟨of_decide_eq_true (Lists.all_of_perm (db.valid .revocationsGeneration) h.revocations r hr),
      of_decide_eq_true (Lists.all_of_perm (db.valid .revocationsRevision) h.revocations r hr)⟩
  terminal := by
    intro invite hinvite
    obtain ⟨row, hrow, rfl⟩ := List.mem_map.1 (h.invites.mem_iff.2 hinvite)
    exact of_decide_eq_true (List.all_eq_true.1 (db.valid .invitationsTerminal) row hrow)

end AgentScale.Control
