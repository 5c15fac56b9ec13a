import AgentScale.Control.Invariant

set_option autoImplicit false

/-! # The handlers' checks and the schema's constraints

Every statement of a committed delta is checked against the schema on its own. Here is, statement by
statement, what has to hold of the in-memory state for SQLite to accept it, and for the mutations
other than issuing and revoking invitations that their handlers have checked just that
(`Mutation.commits`). -/

namespace AgentScale.Control

open Checked ControlApi RelayApi

variable {db db' : Database} {s s' : ControlState} {relayRevision : Nat}

/-! ## Revisions -/

theorem Publish.revisions_le (publish : Publish) : publish.revisions ≤ 1 := by
  cases publish <;> decide

theorem Publish.relayRevisions_le (publish : Publish) : publish.relayRevisions ≤ 1 := by
  cases publish <;> decide

theorem ensureAdvance_succeeds {n k : Nat} {error : String} (hfits : n + k ≤ U64.maxValue)
    (hk : k ≤ 1) : ensureAdvance n (n + k) error = .ok () := by
  refine ensure_of ?_
  rcases Nat.le_one_iff_eq_zero_or_eq_one.1 hk with rfl | rfl
  · exact .inl rfl
  · exact .inr (U64.saturatingAdd_eq hfits).symm

theorem nextRevision_succeeds {delta : StateDelta}
    (hfits : s.revision + delta.publish.revisions ≤ U64.maxValue) :
    delta.nextRevision s = .ok (s.revision + delta.publish.revisions) := by
  unfold StateDelta.nextRevision
  cases hpublish : delta.publish <;> rw [hpublish] at hfits
  · rfl
  all_goals exact okOr_eq_ok.2 (U64.checkedAdd_eq_some.2 ⟨hfits, rfl⟩)

theorem nextRelayRevision_succeeds {delta : StateDelta}
    (hfits : s.relayRevision + delta.publish.relayRevisions ≤ U64.maxValue) :
    delta.nextRelayRevision s = .ok (s.relayRevision + delta.publish.relayRevisions) := by
  unfold StateDelta.nextRelayRevision
  cases hpublish : delta.publish <;> rw [hpublish] at hfits
  · rfl
  · rfl
  · exact okOr_eq_ok.2 (U64.checkedAdd_eq_some.2 ⟨hfits, rfl⟩)

/-! ## References between the tables -/

namespace Database

theorem accepts {statement : Tables → Tables}
    (h : ∀ c : Constraint, c.check (statement db.tables) = true) :
    ∃ db', db.execute statement = .ok db' :=
  ⟨⟨statement db.tables, h⟩, execute_eq_ok.2 rfl⟩

theorem client_manager (db : Database) {client : ClientRecord} (h : client ∈ db.tables.clients)
    {id : String} (hid : client.managedBy = some id) :
    ∃ row ∈ db.tables.provisioners, row.endpointId = id := by
  have hall := List.all_eq_true.1 (db.valid .clientsManagedBy) client h
  rw [hid, Option.all_some, List.any_eq_true] at hall
  simpa using hall

theorem invitation_manager (db : Database) {row : InvitationRow} (h : row ∈ db.tables.invitations)
    {id : String} (hid : row.managedBy = some id) :
    ∃ provisioner ∈ db.tables.provisioners, provisioner.endpointId = id := by
  have hall := List.all_eq_true.1 (db.valid .invitationsManagedBy) row h
  rw [hid, Option.all_some, List.any_eq_true] at hall
  simpa using hall

theorem invitation_owner (db : Database) {row : InvitationRow} (h : row ∈ db.tables.invitations)
    {id : String} (hid : row.ownerId = some id) :
    ∃ client ∈ db.tables.clients, client.endpointId = id := by
  have hall := List.all_eq_true.1 (db.valid .invitationsOwner) row h
  rw [hid, Option.all_some, List.any_eq_true] at hall
  simpa using hall

theorem edge_owner (db : Database) {edge : EdgeRecord} (h : edge ∈ db.tables.edges) :
    ∃ client ∈ db.tables.clients, client.endpointId = edge.ownerId := by
  have hall := List.all_eq_true.1 (db.valid .edgesOwner) edge h
  simpa using hall

end Database

/-- A foreign key check: every reference names a row. -/
theorem all_references {α β : Type} {rows : List α} {ref : α → Option String} {targets : List β}
    {id : β → String}
    (h : ∀ row ∈ rows, ∀ k, ref row = some k → ∃ target ∈ targets, id target = k) :
    rows.all (fun row => (ref row).all (fun k => targets.any (fun t => id t = k))) = true := by
  rw [List.all_eq_true]
  intro row hrow
  cases href : ref row with
  | none => rfl
  | some k =>
    obtain ⟨target, hmem, hid⟩ := h row hrow k href
    exact List.any_eq_true.2 ⟨target, hmem, decide_eq_true hid⟩

theorem all_owners {rows : List EdgeRecord} {targets : List ClientRecord}
    (h : ∀ row ∈ rows, ∃ target ∈ targets, target.endpointId = row.ownerId) :
    rows.all (fun row => targets.any (fun t => t.endpointId = row.ownerId)) = true := by
  rw [List.all_eq_true]
  intro row hrow
  obtain ⟨target, hmem, hid⟩ := h row hrow
  exact List.any_eq_true.2 ⟨target, hmem, decide_eq_true hid⟩

/-! ## Statements -/

namespace Represents

/-- Distinct names of the registered Provisioners are distinct names of the active rows. -/
theorem activeNames {t : Tables} (h : Represents t s)
    (hd : Keyed.Distinct ProvisionerRecord.name s.provisioners) :
    Constraint.provisionersActiveName.check t = true := by
  have hrows := hd.perm h.provisioners.symm
  rw [Keyed.Distinct, Tables.activeProvisioners, List.map_map] at hrows
  exact decide_eq_true hrows

variable (h : Represents db.tables s)
include h

/-- A row for a manager can always be made. -/
theorem ensurePlaceholder_succeeds (managedBy : Option String) :
    ∃ db', db.ensurePlaceholder managedBy = .ok db' ∧ Represents db'.tables s ∧
      db'.tables.clients = db.tables.clients ∧ db'.tables.invitations = db.tables.invitations ∧
      ∀ id, managedBy = some id → ∃ row ∈ db'.tables.provisioners, row.endpointId = id := by
  cases managedBy with
  | none => exact ⟨db, rfl, h, rfl, rfl, by simp⟩
  | some id =>
    have hvalid : ∀ c : Constraint,
        c.check (Tables.placeholderProvisioner id db.tables) = true := by
      unfold Tables.placeholderProvisioner
      split
      · exact db.valid
      · next habsent =>
        have habsent' : ∀ row ∈ db.tables.provisioners, row.endpointId ≠ id := by
          simpa using habsent
        have hmore : ∀ k, (∃ row ∈ db.tables.provisioners, row.endpointId = k) →
            ∃ row ∈ db.tables.provisioners ++
              [(⟨id, "deleted:" ++ id, false⟩ : ProvisionerRow)], row.endpointId = k := by
          rintro k ⟨row, hrow, hk⟩
          exact ⟨row, List.mem_append_left _ hrow, hk⟩
        intro c
        have hv := db.valid c
        cases c with
        | provisionersKey =>
          have hd := db.distinct_provisioners
          refine decide_eq_true ?_
          have hput : Keyed.upsert ProvisionerRow.endpointId
              ⟨id, "deleted:" ++ id, false⟩ db.tables.provisioners =
              db.tables.provisioners ++ [⟨id, "deleted:" ++ id, false⟩] :=
            Keyed.upsert_of_absent habsent'
          rw [← hput]
          exact hd.upsert
        | provisionersActiveName => simpa [Constraint.check] using hv
        | clientsManagedBy =>
          exact all_references (fun row hrow k hk => hmore k (db.client_manager hrow hk))
        | invitationsManagedBy =>
          exact all_references (fun row hrow k hk => hmore k (db.invitation_manager hrow hk))
        | _ => exact hv
    obtain ⟨db', hdb'⟩ := Database.accepts hvalid
    have hplace : db.ensurePlaceholder (some id) = .ok db' := hdb'
    refine ⟨db', hplace, h.ensurePlaceholder hplace, ?_, ?_, ?_⟩
    · rw [Database.execute_eq_ok.1 hdb', Tables.placeholderProvisioner]
      split <;> rfl
    · rw [Database.execute_eq_ok.1 hdb', Tables.placeholderProvisioner]
      split <;> rfl
    · rintro _ ⟨⟩
      rw [Database.execute_eq_ok.1 hdb', Tables.placeholderProvisioner]
      split
      · next hany => simpa using hany
      · exact ⟨_, List.mem_append_right _ (List.mem_singleton_self _), rfl⟩

theorem putClient_succeeds {item : ClientRecord} (hfits : I64.Fits item.credentialGeneration)
    (hgen : 0 < item.credentialGeneration) (htimes : item.credentialIssuedAt < item.credentialExpiresAt)
    (hname : ∀ c ∈ s.clients, c.endpointId ≠ item.endpointId → c.name ≠ item.name) :
    ∃ db', db.applyChange relayRevision (.putClient item) = .ok db' := by
  obtain ⟨db₁, hplace, hrep, _, _, hmanager⟩ := h.ensurePlaceholder_succeeds item.managedBy
  have hd := db₁.distinct_clients
  have hvalid : ∀ c : Constraint, c.check (Tables.putClient item db₁.tables) = true := by
    intro c
    have hv := db₁.valid c
    cases c with
    | clientsGeneration => exact Keyed.all_upsert hd hv (decide_eq_true hgen)
    | clientsExpiry => exact Keyed.all_upsert hd hv (decide_eq_true htimes)
    | clientsKey => exact decide_eq_true hd.upsert
    | clientsName =>
      exact decide_eq_true (Keyed.nodup_map_upsert hd (of_decide_eq_true hv)
        (fun c hc => hname c (hrep.clients.mem_iff.1 hc)))
    | clientsManagedBy =>
      refine all_references (fun row hrow k hk => ?_)
      rcases (Keyed.mem_upsert hd).1 hrow with rfl | ⟨hold, _⟩
      · exact hmanager k hk
      · exact db₁.client_manager hold hk
    | edgesOwner => exact all_owners (fun row hrow => Keyed.exists_upsert hd (db₁.edge_owner hrow))
    | invitationsOwner =>
      exact all_references (fun row hrow k hk => Keyed.exists_upsert hd (db₁.invitation_owner hrow hk))
    | _ => exact hv
  obtain ⟨db₂, hput⟩ := Database.accepts hvalid
  exact ⟨db₂, bind_ok hplace (bind_ok (ensure_of hfits) hput)⟩

theorem deleteClient_succeeds {id : String} (hedges : ∀ edge ∈ s.edges, edge.ownerId ≠ id) :
    ∃ db', db.applyChange relayRevision (.deleteClient id) = .ok db' := by
  refine Database.accepts ?_
  -- the invitations keep every column but `owner_id`, which is cleared where it named the client
  have hrows : ∀ row ∈ (Tables.deleteClient id db.tables).invitations, ∃ old ∈ db.tables.invitations,
      (row = old ∧ old.ownerId ≠ some id) ∨ row = { old with ownerId := none } := by
    intro row hrow
    obtain ⟨old, hold, rfl⟩ := List.mem_map.1 hrow
    refine ⟨old, hold, ?_⟩
    split
    · exact .inr rfl
    · next hne => exact .inl ⟨rfl, hne⟩
  have hcolumn : ∀ {β : Type} (f : InvitationRow → β), (∀ row : InvitationRow,
      f { row with ownerId := none } = f row) →
      (Tables.deleteClient id db.tables).invitations.map f = db.tables.invitations.map f := by
    intro β f hf
    rw [Tables.deleteClient, List.map_map]
    refine List.map_congr_left (fun row _ => ?_)
    simp only [Function.comp_apply]
    split
    · exact hf row
    · rfl
  intro c
  have hv := db.valid c
  cases c with
  | clientsGeneration | clientsExpiry => exact Keyed.all_discard hv
  | clientsKey => exact decide_eq_true db.distinct_clients.discard
  | clientsName => exact decide_eq_true ((List.filter_sublist.map _).nodup (of_decide_eq_true hv))
  | clientsManagedBy =>
    exact all_references (fun row hrow k hk => db.client_manager (Keyed.mem_discard.1 hrow).1 hk)
  | edgesOwner =>
    refine all_owners (fun row hrow => ?_)
    obtain ⟨client, hclient, hid⟩ := db.edge_owner hrow
    exact ⟨client, Keyed.mem_discard.2 ⟨hclient, hid ▸ hedges row (h.edges.mem_iff.1 hrow)⟩, hid⟩
  | invitationsOwnerKind =>
    refine List.all_eq_true.2 (fun row hrow => ?_)
    obtain ⟨old, hold, ⟨rfl, _⟩ | rfl⟩ := hrows row hrow
    · exact List.all_eq_true.1 hv row hold
    · exact decide_eq_true (.inr rfl)
  | invitationsTerminal =>
    refine List.all_eq_true.2 (fun row hrow => ?_)
    obtain ⟨old, hold, ⟨rfl, _⟩ | rfl⟩ := hrows row hrow
    · exact List.all_eq_true.1 hv row hold
    · exact List.all_eq_true.1 hv old hold
  | invitationsKey =>
    refine decide_eq_true ?_
    rw [Keyed.Distinct, hcolumn InvitationRow.inviteId (fun _ => rfl)]
    exact of_decide_eq_true hv
  | invitationsRequestId =>
    have hids := congrArg (List.filterMap (fun o : Option String => o))
      (hcolumn InvitationRow.requestId (fun _ => rfl))
    rw [List.filterMap_map, List.filterMap_map] at hids
    refine decide_eq_true ?_
    rw [show List.filterMap InvitationRow.requestId _ = _ from hids]
    exact of_decide_eq_true hv
  | invitationsOwner =>
    refine all_references (fun row hrow k hk => ?_)
    obtain ⟨old, hold, ⟨rfl, hne⟩ | rfl⟩ := hrows row hrow
    · obtain ⟨client, hclient, rfl⟩ := db.invitation_owner hold hk
      exact ⟨client, Keyed.mem_discard.2 ⟨hclient, fun heq => hne (heq ▸ hk)⟩, rfl⟩
    · cases hk
  | invitationsManagedBy =>
    refine all_references (fun row hrow k hk => ?_)
    obtain ⟨old, hold, ⟨rfl, _⟩ | rfl⟩ := hrows row hrow
    · exact db.invitation_manager hold hk
    · exact db.invitation_manager hold hk
  | _ => exact hv

theorem putEdge_succeeds {item : EdgeRecord} (hfits : I64.Fits item.credentialGeneration)
    (hgen : 0 < item.credentialGeneration) (htimes : item.credentialIssuedAt < item.credentialExpiresAt)
    (hname : ∀ e ∈ s.edges, e.endpointId ≠ item.endpointId →
      (e.ownerId, e.name) ≠ (item.ownerId, item.name))
    (howner : ∃ client ∈ s.clients, client.endpointId = item.ownerId) :
    ∃ db', db.applyChange relayRevision (.putEdge item) = .ok db' := by
  have hd := db.distinct_edges
  have hvalid : ∀ c : Constraint, c.check (Tables.putEdge item db.tables) = true := by
    intro c
    have hv := db.valid c
    cases c with
    | edgesGeneration => exact Keyed.all_upsert hd hv (decide_eq_true hgen)
    | edgesExpiry => exact Keyed.all_upsert hd hv (decide_eq_true htimes)
    | edgesKey => exact decide_eq_true hd.upsert
    | edgesOwnerName =>
      exact decide_eq_true (Keyed.nodup_map_upsert hd (of_decide_eq_true hv)
        (fun e he => hname e (h.edges.mem_iff.1 he)))
    | edgesOwner =>
      refine all_owners (fun row hrow => ?_)
      rcases (Keyed.mem_upsert hd).1 hrow with rfl | ⟨hold, _⟩
      · obtain ⟨client, hclient, hid⟩ := howner
        exact ⟨client, h.clients.mem_iff.2 hclient, hid⟩
      · exact db.edge_owner hold
    | _ => exact hv
  obtain ⟨db₂, hput⟩ := Database.accepts hvalid
  exact ⟨db₂, bind_ok (ensure_of hfits) hput⟩

omit h in
theorem deleteEdge_succeeds (id : String) :
    ∃ db', db.applyChange relayRevision (.deleteEdge id) = .ok db' := by
  refine Database.accepts (fun c => ?_)
  have hv := db.valid c
  cases c with
  | edgesGeneration | edgesExpiry | edgesOwner => exact Keyed.all_discard hv
  | edgesKey => exact decide_eq_true db.distinct_edges.discard
  | edgesOwnerName => exact decide_eq_true ((List.filter_sublist.map _).nodup (of_decide_eq_true hv))
  | _ => exact hv

theorem putRelay_succeeds {item : RelayRecord} (hport : item.qadPort ≠ some 0)
    (hname : ∀ r ∈ s.relays, r.endpointId ≠ item.endpointId →
      r.name ≠ item.name ∧ r.url ≠ item.url) :
    ∃ db', db.applyChange relayRevision (.putRelay item) = .ok db' := by
  have hd := db.distinct_relays
  refine Database.accepts (fun c => ?_)
  have hv := db.valid c
  cases c with
  | relaysQadPort => exact Keyed.all_upsert hd hv (decide_eq_true hport)
  | relaysKey => exact decide_eq_true hd.upsert
  | relaysName =>
    exact decide_eq_true (Keyed.nodup_map_upsert hd (of_decide_eq_true hv)
      (fun r hr hne => (hname r (h.relays.mem_iff.1 hr) hne).1))
  | relaysUrl =>
    exact decide_eq_true (Keyed.nodup_map_upsert hd (of_decide_eq_true hv)
      (fun r hr hne => (hname r (h.relays.mem_iff.1 hr) hne).2))
  | _ => exact hv

omit h in
theorem deleteRelay_succeeds (id : String) :
    ∃ db', db.applyChange relayRevision (.deleteRelay id) = .ok db' := by
  refine Database.accepts (fun c => ?_)
  have hv := db.valid c
  cases c with
  | relaysQadPort => exact Keyed.all_discard hv
  | relaysKey => exact decide_eq_true db.distinct_relays.discard
  | relaysName | relaysUrl =>
    exact decide_eq_true ((List.filter_sublist.map _).nodup (of_decide_eq_true hv))
  | _ => exact hv

theorem putInvite_succeeds {item : InviteRecord}
    (hterminal : item.state = .pending ↔ item.terminalAt = none)
    (howner : ∀ ownerId, item.invite.kind = .edge ownerId →
      ∃ client ∈ s.clients, client.endpointId = ownerId)
    (hrequest : ∀ other ∈ s.invites, other.id ≠ item.id → ∀ q, other.requestId = some q →
      item.requestId ≠ some q) :
    ∃ db', db.applyChange relayRevision (.putInvite item) = .ok db' := by
  obtain ⟨db₁, hplace, hrep, _, _, hmanager⟩ := h.ensurePlaceholder_succeeds item.managedBy
  have hd := db₁.distinct_invitations
  have hcolumns : ∀ ownerId, (inviteColumns item.invite.kind).2 = some ownerId →
      item.invite.kind = .edge ownerId := by
    intro ownerId hid
    cases hkind : item.invite.kind with
    | edge id =>
      rw [hkind] at hid
      exact congrArg InviteKind.edge (Option.some.inj hid)
    | client | relay => exact absurd hid (by simp [hkind, inviteColumns])
  have hvalid : ∀ c : Constraint, c.check (Tables.putInvitation
      (invitationRow item (inviteColumns item.invite.kind).2) db₁.tables) = true := by
    intro c
    have hv := db₁.valid c
    cases c with
    | invitationsOwnerKind =>
      refine Keyed.all_upsert hd hv (decide_eq_true ?_)
      cases hkind : item.invite.kind <;> simp [invitationRow, inviteColumns, hkind]
    | invitationsTerminal => exact Keyed.all_upsert hd hv (decide_eq_true hterminal)
    | invitationsKey => exact decide_eq_true hd.upsert
    | invitationsRequestId =>
      refine decide_eq_true (Keyed.nodup_filterMap_upsert hd (of_decide_eq_true hv) ?_)
      intro row hrow hne q hq
      refine hrequest row.record (hrep.invites.mem_iff.1 (List.mem_map_of_mem hrow)) ?_ q hq
      exact fun heq => hne ((hrep.keys row hrow).trans heq)
    | invitationsOwner =>
      refine all_references (fun row hrow k hk => ?_)
      rcases (Keyed.mem_upsert hd).1 hrow with rfl | ⟨hold, _⟩
      · obtain ⟨client, hclient, hid⟩ := howner k (hcolumns k hk)
        exact ⟨client, hrep.clients.mem_iff.2 hclient, hid⟩
      · exact db₁.invitation_owner hold hk
    | invitationsManagedBy =>
      refine all_references (fun row hrow k hk => ?_)
      rcases (Keyed.mem_upsert hd).1 hrow with rfl | ⟨hold, _⟩
      · exact hmanager k hk
      · exact db₁.invitation_manager hold hk
    | _ => exact hv
  obtain ⟨db₂, hput⟩ := Database.accepts hvalid
  exact ⟨db₂, bind_ok hplace hput⟩

omit h in
theorem deleteInvite_succeeds (id : String) :
    ∃ db', db.applyChange relayRevision (.deleteInvite id) = .ok db' := by
  refine Database.accepts (fun c => ?_)
  have hv := db.valid c
  cases c with
  | invitationsOwnerKind | invitationsTerminal | invitationsOwner | invitationsManagedBy =>
    exact Keyed.all_discard hv
  | invitationsKey => exact decide_eq_true db.distinct_invitations.discard
  | invitationsRequestId =>
    exact decide_eq_true ((List.filter_sublist.filterMap _).nodup (of_decide_eq_true hv))
  | _ => exact hv

theorem putProvisioner_succeeds {item : ProvisionerRecord}
    (hname : ∀ p ∈ s.provisioners, p.endpointId ≠ item.endpointId → p.name ≠ item.name) :
    ∃ db', db.applyChange relayRevision (.putProvisioner item) = .ok db' := by
  have hd := db.distinct_provisioners
  refine Database.accepts (fun c => ?_)
  have hv := db.valid c
  cases c with
  | provisionersKey => exact decide_eq_true hd.upsert
  | provisionersActiveName =>
    exact activeNames (h.putProvisioner item) (Keyed.nodup_map_upsert h.distinct_provisioners
      h.wellFormed.provisionerNames hname)
  | clientsManagedBy =>
    exact all_references (fun row hrow k hk => Keyed.exists_upsert hd (db.client_manager hrow hk))
  | invitationsManagedBy =>
    exact all_references (fun row hrow k hk => Keyed.exists_upsert hd (db.invitation_manager hrow hk))
  | _ => exact hv

theorem deleteProvisioner_succeeds (id : String) :
    ∃ db', db.applyChange relayRevision (.deleteProvisioner id) = .ok db' := by
  have hkept : ∀ k, (∃ row ∈ db.tables.provisioners, row.endpointId = k) →
      ∃ row ∈ (Tables.deactivateProvisioner id db.tables).provisioners, row.endpointId = k := by
    rintro k ⟨row, hrow, rfl⟩
    refine ⟨_, List.mem_map_of_mem hrow, ?_⟩
    split <;> rfl
  refine Database.accepts (fun c => ?_)
  have hv := db.valid c
  cases c with
  | provisionersKey =>
    have hids : (Tables.deactivateProvisioner id db.tables).provisioners.map
        ProvisionerRow.endpointId = db.tables.provisioners.map ProvisionerRow.endpointId := by
      rw [Tables.deactivateProvisioner, List.map_map]
      refine List.map_congr_left (fun row _ => ?_)
      simp only [Function.comp_apply]
      split <;> rfl
    refine decide_eq_true ?_
    rw [Keyed.Distinct, hids]
    exact of_decide_eq_true hv
  | provisionersActiveName =>
    exact activeNames (h.deactivateProvisioner id)
      (h.wellFormed.provisionerNames.sublist List.filter_sublist)
  | clientsManagedBy =>
    exact all_references (fun row hrow k hk => hkept k (db.client_manager hrow hk))
  | invitationsManagedBy =>
    exact all_references (fun row hrow k hk => hkept k (db.invitation_manager hrow hk))
  | _ => exact hv

omit h in
theorem putRevocation_succeeds {item : RevocationRecord} (hahead : item.revision ≤ relayRevision)
    (hfits : I64.Fits item.revokedThroughGeneration) (hfits' : I64.Fits item.revision)
    (hgen : 0 < item.revokedThroughGeneration) (hrevision : 0 < item.revision) :
    ∃ db', db.applyChange relayRevision (.putRevocation item) = .ok db' := by
  have hd := db.distinct_revocations
  have hvalid : ∀ c : Constraint, c.check (Tables.putRevocation item db.tables) = true := by
    intro c
    have hv := db.valid c
    cases c with
    | revocationsGeneration => exact Keyed.all_upsert hd hv (decide_eq_true hgen)
    | revocationsRevision => exact Keyed.all_upsert hd hv (decide_eq_true hrevision)
    | revocationsKey => exact decide_eq_true hd.upsert
    | _ => exact hv
  obtain ⟨db₂, hput⟩ := Database.accepts hvalid
  exact ⟨db₂, bind_ok (ensure_of hahead) (bind_ok (ensure_of hfits)
    (bind_ok (ensure_of hfits') hput))⟩

omit h in
theorem deleteRevocation_succeeds (id : String) :
    ∃ db', db.applyChange relayRevision (.deleteRevocation id) = .ok db' := by
  refine Database.accepts (fun c => ?_)
  have hv := db.valid c
  cases c with
  | revocationsGeneration | revocationsRevision => exact Keyed.all_discard hv
  | revocationsKey => exact decide_eq_true db.distinct_revocations.discard
  | _ => exact hv

theorem requestId_unique {a b : InviteRecord} (ha : a ∈ s.invites) (hb : b ∈ s.invites) {q : String}
    (hqa : a.requestId = some q) (hqb : b.requestId = some q) : a = b := by
  have hrows : (db.tables.invitations.filterMap InvitationRow.requestId).Nodup :=
    of_decide_eq_true (db.valid .invitationsRequestId)
  have hperm := h.invites.filterMap InviteRecord.requestId
  rw [List.filterMap_map] at hperm
  exact Keyed.eq_of_nodup_filterMap (hperm.nodup_iff.1 hrows) ha hb hqa hqb

/-! ## Whole deltas -/

omit h in
theorem collectProvisioners_succeeds (db : Database) :
    ∃ db', db.execute Tables.collectProvisioners = .ok db' := by
  refine Database.accepts ?_
  rw [Tables.collectProvisioners_eq]
  -- a row that something refers to is not collected
  have hkept : ∀ row ∈ db.tables.provisioners,
      (db.tables.invitations.any (·.managedBy = some row.endpointId) ||
        db.tables.clients.any (·.managedBy = some row.endpointId)) = true →
      row ∈ db.tables.provisioners.filter (fun row => !db.tables.unreferenced row) := by
    intro row hrow href
    refine List.mem_filter.2 ⟨hrow, ?_⟩
    rcases Bool.or_eq_true_iff.1 href with href | href <;> simp [Tables.unreferenced, href]
  intro c
  have hv := db.valid c
  cases c with
  | provisionersKey => exact decide_eq_true (db.distinct_provisioners.sublist List.filter_sublist)
  | provisionersActiveName =>
    exact decide_eq_true (((List.filter_sublist.filter _).map _).nodup (of_decide_eq_true hv))
  | clientsManagedBy =>
    refine all_references (fun client hclient k hk => ?_)
    obtain ⟨row, hrow, rfl⟩ := db.client_manager hclient hk
    refine ⟨row, hkept row hrow (Bool.or_eq_true_iff.2 (.inr ?_)), rfl⟩
    exact List.any_eq_true.2 ⟨client, hclient, decide_eq_true hk⟩
  | invitationsManagedBy =>
    refine all_references (fun invitation hinvitation k hk => ?_)
    obtain ⟨row, hrow, rfl⟩ := db.invitation_manager hinvitation hk
    refine ⟨row, hkept row hrow (Bool.or_eq_true_iff.2 (.inl ?_)), rfl⟩
    exact List.any_eq_true.2 ⟨invitation, hinvitation, decide_eq_true hk⟩
  | _ => exact hv

theorem updateMetadata_succeeds {revision relayRevision : Nat} (hle : s.revision ≤ revision)
    (hrelayLe : s.relayRevision ≤ relayRevision) (hfits : I64.Fits revision)
    (hrelayFits : I64.Fits relayRevision) :
    ∃ db', db.updateMetadata id s.revision s.relayRevision revision relayRevision = .ok db' := by
  have hmatches : db.tables.metadataMatches s.revision s.relayRevision = true := by
    simp [Tables.metadataMatches, h.metadata, ControlState.metadataRow]
  have hexec : ∃ db', db.execute (fun t =>
      if db.tables.metadataMatches s.revision s.relayRevision then
        { t with metadata := t.metadata.map (fun m => { id m with revision, relayRevision }) }
      else t) = .ok db' := by
    refine Database.accepts (fun c => ?_)
    rw [if_pos hmatches]
    have hv := db.valid c
    cases c with
    | metadataAudience | metadataPublicUrl | metadataRelayCaDer =>
      simp only [Constraint.check, h.metadata, Option.map_some, Option.all_some] at hv ⊢
      exact hv
    | metadataRelayRevision =>
      simp only [Constraint.check, h.metadata, Option.map_some, Option.all_some] at hv ⊢
      exact decide_eq_true (Nat.lt_of_lt_of_le (of_decide_eq_true hv) hrelayLe)
    | _ => exact hv
  obtain ⟨db', hdb'⟩ := hexec
  refine ⟨db', ?_⟩
  refine bind_ok (ensure_of hfits) (bind_ok (ensure_of hrelayFits) ?_)
  refine bind_ok (ensure_of (hfits.mono hle)) (bind_ok (ensure_of (hrelayFits.mono hrelayLe)) ?_)
  refine bind_ok hdb' ?_
  exact bind_ok (ensure_of hmatches) rfl

/-- A delta whose changes are accepted one by one commits, unless a revision leaves SQLite's range. -/
theorem commitDelta_succeeds {delta : StateDelta} (hfits : I64.Fits (delta.commit s).revision)
    (hrelayFits : I64.Fits (delta.commit s).relayRevision)
    (hchanges : ∃ db', foldAll (Database.applyChange (delta.commit s).relayRevision) db
      delta.changes = .ok db') :
    ∃ store, commitDelta none ⟨db, s⟩ delta = .ok store := by
  obtain ⟨db₁, hfold⟩ := hchanges
  obtain ⟨db₂, hcollect⟩ := collectProvisioners_succeeds db₁
  have h₂ : Represents db₂.tables (delta.apply s) := (h.foldChanges hfold).executeCollect hcollect
  have hrevision : (delta.apply s).revision = s.revision :=
    congrArg MetadataRow.revision (delta.apply_metadata s)
  have hrelayRevision : (delta.apply s).relayRevision = s.relayRevision :=
    congrArg MetadataRow.relayRevision (delta.apply_metadata s)
  obtain ⟨db₃, hmetadata⟩ := h₂.updateMetadata_succeeds
    (hrevision.trans_le (Nat.le_add_right s.revision delta.publish.revisions))
    (hrelayRevision.trans_le (Nat.le_add_right s.relayRevision delta.publish.relayRevisions))
    hfits hrelayFits
  rw [hrevision, hrelayRevision] at hmetadata
  have hsync : db.applyDeltaSync s.revision s.relayRevision (delta.commit s).revision
      (delta.commit s).relayRevision delta = .ok db₃ :=
    bind_ok (ensureAdvance_succeeds hfits.le_u64 delta.publish.revisions_le)
      (bind_ok (ensureAdvance_succeeds hrelayFits.le_u64 delta.publish.relayRevisions_le)
        (bind_ok hfold (bind_ok hcollect hmetadata)))
  exact ⟨_, bind_ok (nextRevision_succeeds hfits.le_u64)
    (bind_ok (nextRelayRevision_succeeds hrelayFits.le_u64)
      (bind_ok (mapError_eq_ok.2 (bind_ok hsync rfl)) rfl))⟩

end Represents

/-! ## What the handlers commit -/

variable {P : Platform} {key : SecretKey} {asked : Demand} {amb : Ambient} {delta : StateDelta}

theorem fold_one {change : StateChange} (h : ∃ db', db.applyChange relayRevision change = .ok db') :
    ∃ db', foldAll (Database.applyChange relayRevision) db [change] = .ok db' := by
  obtain ⟨db', hdb'⟩ := h
  exact ⟨db', bind_ok hdb' rfl⟩

theorem fold_two {first second : StateChange} (h : Represents db.tables s)
    (hfirst : ∃ db', db.applyChange relayRevision first = .ok db')
    (hsecond : ∀ db' : Database, Represents db'.tables (first.apply s) →
      ∃ db'', db'.applyChange relayRevision second = .ok db'') :
    ∃ db', foldAll (Database.applyChange relayRevision) db [first, second] = .ok db' := by
  obtain ⟨db₁, hdb₁⟩ := hfirst
  obtain ⟨db₂, hdb₂⟩ := fold_one (hsecond db₁ (h.apply hdb₁))
  exact ⟨db₂, bind_ok hdb₁ hdb₂⟩

/-- Deletions of invitations and tombstones are always accepted. -/
theorem fold_cleanup (now : Int) :
    ∃ db', foldAll (Database.applyChange relayRevision) db (cleanupChanges now s) = .ok db' := by
  have hall : ∀ (changes : List StateChange) (db : Database), (∀ change ∈ changes,
      (∃ id, change = .deleteInvite id) ∨ ∃ id, change = .deleteRevocation id) →
      ∃ db', foldAll (Database.applyChange relayRevision) db changes = .ok db' := by
    intro changes
    induction changes with
    | nil => exact fun db _ => ⟨db, rfl⟩
    | cons change rest ih =>
      intro db hchanges
      obtain ⟨db₁, hdb₁⟩ : ∃ db₁, db.applyChange relayRevision change = .ok db₁ := by
        rcases hchanges change List.mem_cons_self with ⟨id, rfl⟩ | ⟨id, rfl⟩
        · exact Represents.deleteInvite_succeeds id
        · exact Represents.deleteRevocation_succeeds id
      obtain ⟨db₂, hdb₂⟩ := ih db₁ (fun c hc => hchanges c (List.mem_cons_of_mem _ hc))
      exact ⟨db₂, bind_ok hdb₁ hdb₂⟩
  refine hall _ db (fun change hchange => ?_)
  rcases List.mem_append.1 hchange with hchange | hchange
  · obtain ⟨invite, _, rfl⟩ := List.mem_map.1 hchange
    exact .inl ⟨invite.id, rfl⟩
  · obtain ⟨r, _, rfl⟩ := List.mem_map.1 hchange
    exact .inr ⟨r.endpointId, rfl⟩

/-- The tombstone of a removed registration is accepted under the next Relay revision. -/
theorem revocationChange_succeeds (hacc : Accounted P s) (hfits : I64.Fits (s.revision + 1))
    (hrelayFits : I64.Fits (s.relayRevision + 1)) {r : Registration} (hr : r ∈ s.registrations)
    (hgen : 0 < r.generation) (expiresAt : Int) : ∃ db'', db'.applyChange (s.relayRevision + 1)
      (revocationChange s r.endpointId r.generation expiresAt) = .ok db'' := by
  have hle : (revocationRecord s r.endpointId r.generation expiresAt).revokedThroughGeneration ≤
      s.revision := by
    have hown := hacc.generation_le r hr
    rcases revocationRecord_generation s r.endpointId r.generation expiresAt with h | ⟨old, hold, _, h⟩
    · exact h.trans_le hown
    · exact h.trans_le (max_le (hacc.tombstone_le old hold).1 hown)
  have hrevision : (revocationRecord s r.endpointId r.generation expiresAt).revision =
      s.relayRevision + 1 := by
    rw [revocationRecord_revision, U64.saturatingAdd_eq hrelayFits.le_u64]
  refine Represents.putRevocation_succeeds hrevision.le (hfits.mono (hle.trans (Nat.le_succ _)))
    (hrevision ▸ hrelayFits) ?_ (hrevision ▸ Nat.succ_pos _)
  exact Nat.lt_of_lt_of_le hgen (revocationRecord_covers s r.endpointId r.generation expiresAt).1

/-- **The handlers' checks suffice.** Unless it issues or revokes an invitation, a committed delta is
    accepted statement by statement. -/
theorem Mutation.accepted (h : Mutation P asked amb s delta) (hasked : ¬ asked.invites)
    (hrep : Represents db.tables s) (hacc : Accounted P s) (hclock : amb.received < I64.maxValue)
    (hfits : I64.Fits (delta.commit s).revision)
    (hrelayFits : I64.Fits (delta.commit s).relayRevision) :
    ∃ db', foldAll (Database.applyChange (delta.commit s).relayRevision) db delta.changes =
      .ok db' := by
  have hwf := hrep.wellFormed
  have htimes : amb.received < I64.saturatingAdd amb.received RELAY_CREDENTIAL_LIFETIME_SECS :=
    I64.lt_saturatingAdd (by decide) hclock
  cases h with
  | claim invite endpointId port change mem pending node inTime validPort =>
    obtain ⟨hfree, howner⟩ := claimedNodeChange_free P node
    -- the node first, and then the invitation, whose owner and request id are as before
    have hput : ∀ db' : Database, ∀ s' : ControlState, Represents db'.tables s' →
        s'.invites = s.invites → (∀ ownerId, invite.invite.kind = .edge ownerId →
          s'.clients = s.clients) → ∃ db'', db'.applyChange (s.relayRevision + 0)
        (.putInvite (invite.claim endpointId.text amb.received)) = .ok db'' := by
      intro db' s' hrep' hinvites hclients
      refine hrep'.putInvite_succeeds (by simp [InviteRecord.claim]) ?_ ?_
      · intro ownerId hkind
        rw [hclients ownerId hkind]
        exact howner ownerId hkind
      · intro other hother hne q hq hq'
        rw [hinvites] at hother
        have hid : other.id = invite.id :=
          congrArg InviteRecord.id (hrep.requestId_unique hother mem hq hq')
        exact hne hid
    rcases claimedNodeChange_eq_ok P node with ⟨hkind, _, rfl⟩ | ⟨ownerId, hkind, _, rfl⟩ |
      ⟨url, hkind, _, rfl⟩
    · rw [hkind] at hfree
      refine fold_two hrep (hrep.putClient_succeeds hfits (Nat.succ_pos _) htimes ?_)
        (fun db' hrep' => hput db' _ hrep' rfl ?_)
      · intro c hc _ heq
        exact List.any_eq_false.1 hfree c hc (decide_eq_true heq)
      · exact fun id hid => absurd (hkind.symm.trans hid) (by simp)
    · rw [hkind] at hfree
      refine fold_two hrep (hrep.putEdge_succeeds hfits (Nat.succ_pos _) htimes ?_
        (howner ownerId hkind)) (fun db' hrep' => hput db' _ hrep' rfl (fun _ _ => rfl))
      intro e he _ heq
      obtain ⟨hownerId, hname⟩ := Prod.mk.inj heq
      exact List.any_eq_false.1 hfree e he (by simp [hownerId, hname])
    · rw [hkind] at hfree
      refine fold_two hrep (hrep.putRelay_succeeds validPort ?_)
        (fun db' hrep' => hput db' _ hrep' rfl (fun _ _ => rfl))
      intro r hr _
      have hfree' := List.any_eq_false.1 hfree r hr
      simp only [Bool.or_eq_true, decide_eq_true_eq, not_or] at hfree'
      exact hfree'
  | newInvite record id pending unclaimed open_ lives free manager permitted =>
    exact absurd permitted hasked
  | revokeInvite invite mem pending permitted => exact absurd permitted hasked
  | removeClient client mem named empty =>
    have hgen := (hwf.clientCredentials client mem).1
    refine fold_two hrep (hrep.deleteClient_succeeds (checkClientIsEmpty_eq_ok.1 empty).1) ?_
    exact fun db' _ => revocationChange_succeeds (r := client.registration) hacc hfits hrelayFits
      (mem_registrations.2 (.inl ⟨client, mem, rfl⟩)) hgen _
  | removeEdge edge mem named =>
    have hgen := (hwf.edgeCredentials edge mem).1
    refine fold_two hrep (Represents.deleteEdge_succeeds _) ?_
    exact fun db' _ => revocationChange_succeeds (r := edge.registration) hacc hfits hrelayFits
      (mem_registrations.2 (.inr ⟨edge, mem, rfl⟩)) hgen _
  | transferEdge edge newOwner mem owner free named =>
    obtain ⟨hgen, hexpiry⟩ := hwf.edgeCredentials edge mem
    have hle := hacc.generation_le _ (mem_registrations.2 (.inr ⟨edge, mem, rfl⟩))
    refine fold_one (hrep.putEdge_succeeds (hfits.mono (hle.trans (Nat.le_add_right _ _))) hgen
      hexpiry ?_ owner)
    rintro other hother _ heq
    obtain ⟨hownerId, hname⟩ := Prod.mk.inj heq
    exact free other hother hownerId hname
  | removeRelay relay mem => exact fold_one (Represents.deleteRelay_succeeds _)
  | addProvisioner name endpointId free =>
    exact fold_one (hrep.putProvisioner_succeeds (fun p hp _ => (free p hp).1))
  | removeProvisioner provisioner mem => exact fold_one (hrep.deleteProvisioner_succeeds _)
  | qadPort relay port mem validPort =>
    refine fold_one (hrep.putRelay_succeeds validPort ?_)
    intro r hr hne
    exact ⟨hwf.relayNames.ne_of_key (b := relay) hr mem (g := RelayRecord.endpointId) hne,
      hwf.relayUrls.ne_of_key (b := relay) hr mem (g := RelayRecord.endpointId) hne⟩
  | renewClient client mem due =>
    have hle := hacc.generation_le _ (mem_registrations.2 (.inl ⟨client, mem, rfl⟩))
    refine fold_one (hrep.putClient_succeeds (hfits.mono hle)
      (hwf.clientCredentials client mem).1 htimes ?_)
    intro c hc hne
    exact hwf.clientNames.ne_of_key (b := client) hc mem (g := ClientRecord.endpointId) hne
  | renewEdge edge mem due =>
    have hle := hacc.generation_le _ (mem_registrations.2 (.inr ⟨edge, mem, rfl⟩))
    refine fold_one (hrep.putEdge_succeeds (hfits.mono hle) (hwf.edgeCredentials edge mem).1 htimes
      ?_ (hwf.owners edge mem))
    intro e he hne
    exact hwf.edgeNames.ne_of_key (b := edge) he mem (g := EdgeRecord.endpointId) hne
  | cleanup => exact fold_cleanup amb.clock
  | bootstrap record id pending unclaimed open_ noRelay kind permitted =>
    exact absurd permitted hasked

/-- **The handlers' checks imply the schema's constraints.** Below the last second of the clock,
    whatever a claim, a port update, a renewal, a removal, a transfer, a change of Provisioners or a
    cleanup decides to commit is accepted statement by statement, and the commit succeeds unless
    SQLite reports an I/O error or a revision leaves its range. -/
theorem checks_imply_constraints {w : World} (hr : (control P key).Reachable w)
    (hrun : w.process = some s) {op : Operation P} (hop : ¬ op.invites)
    (hclock : amb.received < I64.maxValue) {respond : ControlState → Except ApiError Response}
    (hplan : op.plan P key amb s = .ok (.commit delta respond))
    (hfits : I64.Fits (delta.commit s).revision)
    (hrelayFits : I64.Fits (delta.commit s).relayRevision) :
    (∃ db', foldAll (Database.applyChange (delta.commit s).relayRevision) w.database
      delta.changes = .ok db') ∧
      ∃ store, commitDelta none ⟨w.database, s⟩ delta = .ok store := by
  obtain ⟨l, hl, href⟩ := exists_ledger hr
  obtain rfl := href.process s hrun
  have hmutation : Mutation P ⟨fun _ => True, fun _ => True, fun _ _ => True, False⟩ amb l.state
      delta := Operation.plan_mutation
    ⟨fun _ _ => trivial, fun _ _ => trivial, fun _ _ => trivial, hop⟩ hplan
  have haccepted := hmutation.accepted id href.represents (Ledger.accounted_of_reachable hl) hclock
    hfits hrelayFits
  exact ⟨haccepted, href.represents.commitDelta_succeeds hfits hrelayFits haccepted⟩

/-- The delta a handler has decided to commit. -/
def planned {α : Type} : Except ApiError (Plan α) → Option StateDelta
  | .ok (.commit delta _) => some delta
  | _ => none

theorem planned_eq_some {α : Type} {plan : Except ApiError (Plan α)}
    (h : planned plan = some delta) : ∃ respond, plan = .ok (.commit delta respond) := by
  unfold planned at h
  split at h
  · next delta' respond =>
    cases h
    exact ⟨respond, rfl⟩
  · cases h

section Example

open Reference

/-- The removal of an edge is accepted, tombstone included. -/
theorem edge_removal_meets_constraints : ∃ w s delta,
    (control (platform []) controlKey).Reachable w ∧ w.process = some s ∧
      delta.changes.length = 2 ∧ (∃ respond, Operation.plan (platform []) controlKey
        (w.ambient s "remove-e") s (.localAdmin (.removeEdge "a/e")) = .ok (.commit delta respond)) ∧
      ∃ store, commitDelta none ⟨w.database, s⟩ delta = .ok store := by
  obtain ⟨w, hr, hcheck⟩ := World.exists_after controlKey (fun _ _ _ => True)
    (enrolEdge (platform []) controlKey nodeKey otherKey)
    (fun w => w.process.any (fun s => w.clock < I64.maxValue ∧
      (planned (Operation.plan (platform []) controlKey (w.ambient s "remove-e") s
        (.localAdmin (.removeEdge "a/e")))).any (fun delta => delta.changes.length = 2 ∧
          I64.Fits (delta.commit s).revision ∧ I64.Fits (delta.commit s).relayRevision)))
    (by decide +kernel)
  obtain ⟨s, hs, hcheck⟩ := (Option.any_eq_true _ _).1 hcheck
  obtain ⟨hclock, hplanned⟩ := of_decide_eq_true hcheck
  obtain ⟨delta, hdelta, hcheck⟩ := (Option.any_eq_true _ _).1 hplanned
  obtain ⟨hlength, hfits, hrelayFits⟩ := of_decide_eq_true hcheck
  obtain ⟨respond, hplan⟩ := planned_eq_some hdelta
  exact ⟨w, s, delta, hr, hs, hlength, ⟨respond, hplan⟩,
    (checks_imply_constraints hr hs id hclock hplan hfits hrelayFits).2⟩

/-- In the last second of the clock a renewed credential would expire when it is issued, which the
    schema forbids. -/
theorem renewal_in_last_second_violates_check : ∃ w s amb op delta,
    (control (platform []) controlKey).Reachable w ∧ w.process = some s ∧ amb.Admissible w ∧
      amb.ioError = none ∧ op = .watchRenewal (watchRequest (platform []) nodeKey I64.maxValue 0) ∧
      (∃ respond, Operation.plan (platform []) controlKey amb s op = .ok (.commit delta respond)) ∧
      I64.Fits (delta.commit s).revision ∧ I64.Fits (delta.commit s).relayRevision ∧
      ∃ e, commitDelta none ⟨w.database, s⟩ delta = .error e ∧
        e.message = Constraint.clientsExpiry.message := by
  obtain ⟨w, hr, hcheck⟩ := World.exists_after controlKey (fun _ _ _ => True)
    (enrolClient (platform []) controlKey nodeKey ++ [.tick I64.maxValue])
    (fun w => w.process.any (fun s => "renewal" ∉ w.drawn ∧
      (planned (Operation.plan (platform []) controlKey (w.ambient s "renewal") s
        (.watchRenewal (watchRequest (platform []) nodeKey I64.maxValue 0)))).any (fun delta =>
          (I64.Fits (delta.commit s).revision ∧ I64.Fits (delta.commit s).relayRevision) ∧
          (((commitDelta none ⟨w.database, s⟩ delta).map (fun _ => "")).tryCatch
            (fun e => .ok e.message)).toOption = some Constraint.clientsExpiry.message)))
    (by decide +kernel)
  obtain ⟨s, hs, hcheck⟩ := (Option.any_eq_true _ _).1 hcheck
  obtain ⟨hfresh, hplanned⟩ := of_decide_eq_true hcheck
  obtain ⟨delta, hdelta, hcheck⟩ := (Option.any_eq_true _ _).1 hplanned
  obtain ⟨⟨hfits, hrelayFits⟩, herror⟩ := of_decide_eq_true hcheck
  refine ⟨w, s, w.ambient s "renewal", _, delta, hr, hs, World.ambient_admissible hr hs hfresh, rfl,
    rfl, planned_eq_some hdelta, hfits, hrelayFits, ?_⟩
  cases hcommit : commitDelta none ⟨w.database, s⟩ delta with
  | error e =>
    rw [hcommit] at herror
    exact ⟨e, rfl, Option.some.inj herror⟩
  | ok store =>
    rw [hcommit] at herror
    have hmessage : "" = Constraint.clientsExpiry.message := Option.some.inj herror
    exact absurd hmessage (by decide)

end Example

end AgentScale.Control
