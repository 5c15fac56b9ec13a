import AgentScale.Control.Invariant
import AgentScale.Library.Reservation

set_option autoImplicit false

/-! # What a pending invitation reserves

An active pending invitation is meant to reserve its name, and a client invitation of a Provisioner to
keep that Provisioner registered. Both are checked when something is created or removed, at the clock
of that moment; a claim tests the expiry against the time it was received. A claim that is served
after its invitation has expired therefore meets a state that no longer respects the invitation
(`late_claim_outlives_its_manager`, `reserved_names_are_taken`). When claims are served in time,
and no edge is moved onto a reserved name, everything stays respected. -/

namespace AgentScale.Control

open Checked ControlApi RelayApi Reservation

variable {P : Platform} {key : SecretKey} {amb : Ambient} {s s' : ControlState} {delta : StateDelta}
  {now : Int}

/-! ## Claims served in time -/

/-- A claim is served before its invitation expires. -/
def InTime (amb : Ambient) (_ : ControlState) : Operation P → Prop
  | .claim request => amb.clock ≤ request.token.invite.expiresAt
  | _ => True

instance (amb : Ambient) (s : ControlState) (op : Operation P) : Decidable (InTime amb s op) :=
  match op with
  | .claim request => Int.decLe amb.clock request.token.invite.expiresAt
  | .clientEdgeInvite _ | .clientEdgeRemove _ | .provisioner _ _ | .watchRenewal _ | .watch _ _
  | .relayWatchPort _ | .relayWatch _ | .localAdmin _ | .cleanup => .isTrue trivial

/-- What may be asked for when claims are served in time. -/
def Demand.inTime (amb : Ambient) : Demand :=
  ⟨fun _ => True, fun invite => amb.clock ≤ invite.expiresAt, fun _ _ => True, True⟩

theorem InTime.within {op : Operation P} (h : InTime amb s op) : op.Within s (.inTime amb) where
  removes := fun _ _ => trivial
  enrols := by
    rintro request rfl
    exact h
  moves := fun _ _ => trivial
  invites := fun _ => trivial

theorem active_of_later {now' : Int} (hle : now ≤ now') {invite : InviteRecord}
    (h : inviteIsActivePending now' invite = true) : inviteIsActivePending now invite = true := by
  simp only [inviteIsActivePending, Bool.and_eq_true, decide_eq_true_eq] at h ⊢
  exact ⟨h.1, hle.trans h.2⟩

theorem active_iff {invite : InviteRecord} : inviteIsActivePending now invite = true ↔
    invite.state = .pending ∧ now ≤ invite.invite.expiresAt := by
  simp [inviteIsActivePending]

/-! ## Managers -/

/-- A registered Provisioner. -/
def HasProvisioner (s : ControlState) (id : String) : Prop :=
  ∃ provisioner ∈ s.provisioners, provisioner.endpointId = id

/-- The managers of clients, and of the clients that active invitations would enrol, are registered. -/
structure ManagersRegistered (now : Int) (s : ControlState) : Prop where
  clients : ∀ client ∈ s.clients, ∀ p, client.managedBy = some p → HasProvisioner s p
  invites : ∀ invite ∈ s.invites, inviteIsActivePending now invite = true →
    invite.invite.kind = .client → ∀ p, invite.managedBy = some p → HasProvisioner s p

namespace ManagersRegistered

theorem later {now' : Int} (h : ManagersRegistered now s) (hle : now ≤ now') :
    ManagersRegistered now' s :=
  ⟨h.clients, fun invite hinvite hactive => h.invites invite hinvite (active_of_later hle hactive)⟩

theorem congr (h : ManagersRegistered now s) (hs : s'.Same s) : ManagersRegistered now s' := by
  have hprovisioners : ∀ p, HasProvisioner s p → HasProvisioner s' p := by
    rintro p ⟨provisioner, hmem, hid⟩
    exact ⟨provisioner, hs.provisioners.mem_iff.2 hmem, hid⟩
  refine ⟨?_, ?_⟩
  · intro client hclient p hp
    exact hprovisioners p (h.clients client (hs.clients.mem_iff.1 hclient) p hp)
  · intro invite hinvite hactive hkind p hp
    exact hprovisioners p (h.invites invite (hs.invites.mem_iff.1 hinvite) hactive hkind p hp)

/-- With the same Provisioners, it is enough that no manager is new. -/
theorem of_old (h : ManagersRegistered now s)
    (hprovisioners : ∀ p, HasProvisioner s p → HasProvisioner s' p)
    (hclients : ∀ client ∈ s'.clients, ∀ p, client.managedBy = some p →
      HasProvisioner s p)
    (hinvites : ∀ invite ∈ s'.invites, inviteIsActivePending now invite = true →
      invite ∈ s.invites) : ManagersRegistered now s' where
  clients := fun client hclient p hp => hprovisioners p (hclients client hclient p hp)
  invites := fun invite hinvite hactive hkind p hp =>
    hprovisioners p (h.invites invite (hinvites invite hinvite hactive) hactive hkind p hp)

/-- **One step.** A claim that is served in time finds its manager, and a manager of anything active
    is not removed. -/
theorem step (h : ManagersRegistered now s) (hk : s.Keyed) (hclock : amb.clock = now)
    (hm : Mutation P (.inTime amb) amb s delta) : ManagersRegistered now (delta.commit s) := by
  cases hm with
  | claim invite endpointId port change mem pending node inTime validPort named =>
    have hmanager : invite.invite.kind = .client → ∀ p, invite.managedBy = some p →
        HasProvisioner s p :=
      h.invites invite mem (active_iff.2 ⟨pending, hclock ▸ named⟩)
    have hactive : ∀ other ∈ Keyed.upsert InviteRecord.id
        (invite.claim endpointId.text amb.received) s.invites,
        inviteIsActivePending now other = true → other ∈ s.invites := by
      intro other hother hactive
      rcases (Keyed.mem_upsert hk.invites).1 hother with rfl | ⟨hold, _⟩
      · exact absurd (active_iff.1 hactive).1 (by simp [InviteRecord.claim])
      · exact hold
    rcases claimedNodeChange_eq_ok P node with ⟨hkind, _, rfl⟩ | ⟨_, _, _, rfl⟩ | ⟨_, _, _, rfl⟩
    · refine h.of_old (fun _ => id) ?_ hactive
      intro client hclient p hp
      rcases (Keyed.mem_upsert hk.clients).1 hclient with rfl | ⟨hold, _⟩
      · exact hmanager hkind p hp
      · exact h.clients client hold p hp
    · exact h.of_old (fun _ => id) h.clients hactive
    · exact h.of_old (fun _ => id) h.clients hactive
  | newInvite record id pending unclaimed open_ lives free manager =>
    refine ⟨h.clients, ?_⟩
    intro invite hinvite hactive hkind p hp
    rcases (Keyed.mem_upsert hk.invites).1 hinvite with rfl | ⟨hold, _⟩
    · exact manager hkind p hp
    · exact h.invites invite hold hactive hkind p hp
  | revokeInvite invite mem pending =>
    refine h.of_old (fun _ => id) h.clients ?_
    intro other hother hactive
    rcases (Keyed.mem_upsert hk.invites).1 hother with rfl | ⟨hold, _⟩
    · exact absurd (active_iff.1 hactive).1 (by simp [InviteRecord.revoke])
    · exact hold
  | removeClient client mem =>
    exact h.of_old (fun _ => id)
      (fun other hother => h.clients other (Keyed.mem_discard.1 hother).1) (fun _ hi _ => hi)
  | removeEdge | transferEdge | removeRelay | qadPort | renewEdge => exact ⟨h.clients, h.invites⟩
  | addProvisioner name endpointId free =>
    refine h.of_old ?_ h.clients (fun _ hi _ => hi)
    rintro p ⟨provisioner, hmem, hid⟩
    exact ⟨provisioner, (Keyed.mem_upsert hk.provisioners).2 (.inr ⟨hmem, (free provisioner hmem).2⟩),
      hid⟩
  | removeProvisioner provisioner mem noClients noInvites =>
    have hkeep : ∀ p, p ≠ provisioner.endpointId → HasProvisioner s p → ∃ other ∈
        Keyed.discard ProvisionerRecord.endpointId provisioner.endpointId s.provisioners,
          other.endpointId = p := by
      rintro p hne ⟨other, hmem, rfl⟩
      exact ⟨other, Keyed.mem_discard.2 ⟨hmem, hne⟩, rfl⟩
    refine ⟨?_, ?_⟩
    · intro client hclient p hp
      exact hkeep p (fun heq => noClients client hclient (heq ▸ hp)) (h.clients client hclient p hp)
    · intro invite hinvite hactive hkind p hp
      refine hkeep p (fun heq => ?_) (h.invites invite hinvite hactive hkind p hp)
      exact noInvites invite hinvite (hclock ▸ hactive) (heq ▸ hp)
  | renewClient client mem =>
    refine h.of_old (fun _ => id) ?_ (fun _ hi _ => hi)
    intro other hother p hp
    rcases (Keyed.mem_upsert hk.clients).1 hother with rfl | ⟨hold, _⟩
    · exact h.clients client mem p hp
    · exact h.clients other hold p hp
  | cleanup =>
    rw [cleanup_commit hk]
    exact h.of_old (fun _ => id) h.clients (fun _ hi _ => (List.mem_filter.1 hi).1)
  | bootstrap record id pending unclaimed open_ noRelay kind =>
    obtain ⟨url, hrelay⟩ := kind
    refine ⟨?_, ?_⟩
    · rw [bootstrap_commit_invites]
      exact h.clients
    · intro invite hinvite hactive hkind p hp
      rcases (mem_bootstrap_invites hk).1 hinvite with rfl | ⟨⟨hold, _⟩, _⟩
      · cases hkind.symm.trans hrelay
      · rw [bootstrap_commit_invites]
        exact h.invites invite hold hactive hkind p hp

end ManagersRegistered

/-- **Every run** in which claims are served in time. -/
theorem Ledger.managersRegistered_of_reachable {l : Ledger}
    (h : (ledgerWhere P key InTime).Reachable l) : ManagersRegistered l.clock l.state := by
  refine h.invariant (P := fun l => ManagersRegistered l.clock l.state) ?_ ?_
  · rintro l ⟨⟨audience, publicUrl, relayCaDer, hstate⟩, _⟩
    rw [hstate]
    exact ⟨by simp [initialState], by simp [initialState]⟩
  · intro l l' hr hmanagers hstep
    cases hstep with
    | tick now later => exact hmanagers.later later
    | draw | issue => exact hmanagers
    | reorder s same => exact hmanagers.congr same
    | commit amb delta tokens enrolled received clock draws decision =>
      exact hmanagers.step (wellFormed_of_reachable hr).keyed clock
        (decision.mutation (fun op allows => allows.within) trivial)

/-- **Every managed client has a registered manager**, in every run in which each claim is served
    before its invitation expires. -/
theorem managed_clients_have_registered_managers {w : World}
    (hr : (controlWhere P key InTime).Reachable w) (hs : w.Shows s) :
    ∀ client ∈ s.clients, ∀ p, client.managedBy = some p →
      ∃ provisioner ∈ s.provisioners, provisioner.endpointId = p := by
  obtain ⟨l, hl, _, hsame, _⟩ := hs.ledgerWhere hr
  exact ((Ledger.managersRegistered_of_reachable hl).congr hsame).clients

section Example

open Reference

/-- A client that was enrolled for a Provisioner. -/
theorem managed_client_has_registered_manager : ∃ w s client,
    (controlWhere (platform []) controlKey InTime).Reachable w ∧ w.Shows s ∧ client ∈ s.clients ∧
      client.managedBy = some (publicKey otherKey) ∧
      ∃ provisioner ∈ s.provisioners, provisioner.endpointId = publicKey otherKey := by
  obtain ⟨w, hr, hcheck⟩ := World.exists_after controlKey InTime
    (manageClient (platform []) controlKey nodeKey otherKey)
    (fun w => w.process.any (fun s => s.clients.any (fun client =>
      client.managedBy = some (publicKey otherKey)))) (by decide +kernel)
  obtain ⟨s, hs, hcheck⟩ := (Option.any_eq_true _ _).1 hcheck
  obtain ⟨client, hmem, hmanaged⟩ := List.any_eq_true.1 hcheck
  have hmanaged := of_decide_eq_true hmanaged
  exact ⟨w, s, client, hr, .inl hs, hmem, hmanaged,
    managed_clients_have_registered_managers hr (.inl hs) client hmem _ hmanaged⟩

/-- The claim of a client invitation is received in its last second. Before it is served the
    invitation expires, which allows its Provisioner to be removed. -/
theorem late_claim_outlives_its_manager : ∃ w s client,
    (control (platform []) controlKey).Reachable w ∧ w.Shows s ∧ client ∈ s.clients ∧
      client.managedBy = some (publicKey otherKey) ∧ s.provisioners = [] := by
  obtain ⟨w, hr, hcheck⟩ := World.exists_after controlKey (fun _ _ _ => True)
    [.start relayCa,
      .operate (fun _ => .localAdmin (.addProvisioner "p" (publicKey otherKey))) "add-p",
      .operate (provisionerAsks (platform []) otherKey 0 "request-1"
        (.inviteClient "b" 3600 joinSecret)) "invite-b",
      .tick 3601,
      .operate (fun _ => .localAdmin (.removeProvisioner "p")) "remove-p",
      .late 3600 (claimRequest (platform []) controlKey nodeKey 3600 "invite-b") "claim-b"]
    (fun w => w.process.any (fun s => s.provisioners.isEmpty && s.clients.any (fun client =>
      client.managedBy = some (publicKey otherKey)))) (by decide +kernel)
  obtain ⟨s, hs, hcheck⟩ := (Option.any_eq_true _ _).1 hcheck
  rw [Bool.and_eq_true] at hcheck
  obtain ⟨client, hmem, hmanaged⟩ := List.any_eq_true.1 hcheck.2
  exact ⟨w, s, client, hr, .inl hs, hmem, of_decide_eq_true hmanaged,
    List.isEmpty_iff.1 hcheck.1⟩

end Example

/-! ## Names -/

/-- A name in its scope, which a node holds or an invitation reserves. -/
structure Holding where
  name : String
  kind : InviteKind

/-- Two holdings cannot exist side by side. -/
def Holding.clash (a b : Holding) : Prop :=
  match a.kind, b.kind with
  | .client, .client => a.name = b.name
  | .edge left, .edge right => left = right ∧ a.name = b.name
  | .relay left, .relay right => a.name = b.name ∨ left = right
  | _, _ => False

theorem Holding.clash_symm (a b : Holding) (h : a.clash b) : b.clash a := by
  obtain ⟨name, kind⟩ := a
  obtain ⟨name', kind'⟩ := b
  cases kind <;> cases kind' <;> simp_all [Holding.clash, eq_comm]

def InviteRecord.holding (record : InviteRecord) : Holding := ⟨record.invite.name, record.invite.kind⟩
def ClientRecord.holding (client : ClientRecord) : Holding := ⟨client.name, .client⟩
def EdgeRecord.holding (edge : EdgeRecord) : Holding := ⟨edge.name, .edge edge.ownerId⟩
def RelayRecord.holding (relay : RelayRecord) : Holding := ⟨relay.name, .relay relay.url⟩

/-- What the registered nodes hold. -/
def Held (s : ControlState) (a : Holding) : Prop :=
  (∃ client ∈ s.clients, client.holding = a) ∨ (∃ edge ∈ s.edges, edge.holding = a) ∨
    ∃ relay ∈ s.relays, relay.holding = a

/-- What the active pending invitations reserve, by the id of the invitation. -/
def Reserved (now : Int) (s : ControlState) (id : String) (a : Holding) : Prop :=
  ∃ invite ∈ s.invites, inviteIsActivePending now invite = true ∧ invite.id = id ∧
    invite.holding = a

variable {kind : InviteKind} {name : String} {record : InviteRecord}

theorem inviteConflicts_iff :
    inviteConflicts name kind record = true ↔ record.holding.clash ⟨name, kind⟩ := by
  unfold inviteConflicts InviteRecord.holding Holding.clash
  cases record.invite.kind <;> cases kind <;> simp

@[simp] theorem ClientRecord.clash_iff {client : ClientRecord} :
    client.holding.clash ⟨name, kind⟩ ↔ kind = .client ∧ client.name = name := by
  cases kind <;> simp [ClientRecord.holding, Holding.clash]

@[simp] theorem EdgeRecord.clash_iff {edge : EdgeRecord} :
    edge.holding.clash ⟨name, kind⟩ ↔ kind = .edge edge.ownerId ∧ edge.name = name := by
  cases kind <;> simp [EdgeRecord.holding, Holding.clash, eq_comm]

@[simp] theorem RelayRecord.clash_iff {relay : RelayRecord} :
    relay.holding.clash ⟨name, kind⟩ ↔
      ∃ url, kind = .relay url ∧ (relay.name = name ∨ relay.url = url) := by
  cases kind <;> simp [RelayRecord.holding, Holding.clash]

theorem nodeConflicts_iff :
    nodeConflicts s name kind = true ↔ ∃ a, Held s a ∧ a.clash ⟨name, kind⟩ := by
  constructor
  · intro h
    cases kind with
    | client =>
      obtain ⟨client, hmem, hname⟩ := List.any_eq_true.1 h
      exact ⟨client.holding, .inl ⟨client, hmem, rfl⟩, by simpa using hname⟩
    | edge ownerId =>
      obtain ⟨edge, hmem, hname⟩ := List.any_eq_true.1 h
      simp only [Bool.and_eq_true, decide_eq_true_eq] at hname
      exact ⟨edge.holding, .inr (.inl ⟨edge, hmem, rfl⟩),
        EdgeRecord.clash_iff.2 ⟨congrArg InviteKind.edge hname.1.symm, hname.2⟩⟩
    | relay url =>
      obtain ⟨relay, hmem, hname⟩ := List.any_eq_true.1 h
      exact ⟨relay.holding, .inr (.inr ⟨relay, hmem, rfl⟩), by simpa using hname⟩
  · rintro ⟨a, ⟨client, hmem, rfl⟩ | ⟨edge, hmem, rfl⟩ | ⟨relay, hmem, rfl⟩, hclash⟩
    · obtain ⟨rfl, hname⟩ := ClientRecord.clash_iff.1 hclash
      exact List.any_eq_true.2 ⟨client, hmem, by simpa using hname⟩
    · obtain ⟨rfl, hname⟩ := EdgeRecord.clash_iff.1 hclash
      exact List.any_eq_true.2 ⟨edge, hmem, by simpa using hname⟩
    · obtain ⟨url, rfl, hname⟩ := RelayRecord.clash_iff.1 hclash
      exact List.any_eq_true.2 ⟨relay, hmem, by simpa using hname⟩

/-- Every active pending invitation is respected. -/
abbrev NamesReserved (now : Int) (s : ControlState) : Prop :=
  Respected Holding.clash (Held s) (Reserved now s)

/-- Claims are served in time, and no edge is moved to a name that an active invitation reserves. -/
structure KeepsReservations (amb : Ambient) (s : ControlState) (op : Operation P) : Prop where
  inTime : InTime amb s op
  moves : ∀ move ∈ op.moves s, ∀ invite ∈ s.invites, inviteIsActivePending amb.clock invite = true →
    inviteConflicts move.2 (.edge move.1) invite = false

instance (amb : Ambient) (s : ControlState) (op : Operation P) :
    Decidable (KeepsReservations amb s op) :=
  decidable_of_iff (InTime amb s op ∧ ∀ move ∈ op.moves s, ∀ invite ∈ s.invites,
      inviteIsActivePending amb.clock invite = true →
        inviteConflicts move.2 (.edge move.1) invite = false)
    ⟨fun h => ⟨h.1, h.2⟩, fun h => ⟨h.inTime, h.moves⟩⟩

/-- What may be asked for when reservations are kept. -/
def Demand.reserving (amb : Ambient) (s : ControlState) : Demand :=
  ⟨fun _ => True, fun invite => amb.clock ≤ invite.expiresAt, fun owner name =>
    ∀ id a, Reserved amb.clock s id a → ¬ a.clash ⟨name, .edge owner⟩, True⟩

theorem KeepsReservations.within {op : Operation P} (h : KeepsReservations amb s op) :
    op.Within s (.reserving amb s) where
  removes := fun _ _ => trivial
  enrols := h.inTime.within.enrols
  moves := by
    rintro move hmove id a ⟨invite, hinvite, hactive, _, rfl⟩ hclash
    have hfree := h.moves move hmove invite hinvite hactive
    exact absurd (inviteConflicts_iff.2 hclash) (by simp [hfree])
  invites := fun _ => trivial

namespace NamesReserved

theorem later {now' : Int} (h : NamesReserved now s) (hle : now ≤ now') : NamesReserved now' s := by
  refine h.mono (fun _ => id) ?_
  rintro id a ⟨invite, hinvite, hactive, hrest⟩
  exact ⟨invite, hinvite, active_of_later hle hactive, hrest⟩

theorem congr (h : NamesReserved now s) (hs : s'.Same s) : NamesReserved now s' := by
  refine h.mono ?_ ?_
  · rintro a (⟨client, hmem, ha⟩ | ⟨edge, hmem, ha⟩ | ⟨relay, hmem, ha⟩)
    · exact .inl ⟨client, hs.clients.mem_iff.1 hmem, ha⟩
    · exact .inr (.inl ⟨edge, hs.edges.mem_iff.1 hmem, ha⟩)
    · exact .inr (.inr ⟨relay, hs.relays.mem_iff.1 hmem, ha⟩)
  · rintro id a ⟨invite, hmem, hrest⟩
    exact ⟨invite, hs.invites.mem_iff.1 hmem, hrest⟩

end NamesReserved

/-- An active invitation after an upsert of another record under its id is an old one. -/
theorem reserved_of_upsert (hk : s.Keyed) {id : String} {a : Holding} {s' : ControlState}
    (hinvites : s'.invites = Keyed.upsert InviteRecord.id record s.invites)
    (h : Reserved now s' id a) : (Reserved now s id a ∧ id ≠ record.id) ∨
      (inviteIsActivePending now record = true ∧ id = record.id ∧ a = record.holding) := by
  obtain ⟨invite, hmem, hactive, rfl, rfl⟩ := h
  rw [hinvites] at hmem
  rcases (Keyed.mem_upsert hk.invites).1 hmem with rfl | ⟨hold, hne⟩
  · exact .inr ⟨hactive, rfl, rfl⟩
  · exact .inl ⟨⟨invite, hold, hactive, rfl, rfl⟩, hne⟩

/-- What is held when the records of a state look like records of another. -/
theorem held_of_old (hclients : ∀ c ∈ s'.clients, ∃ old ∈ s.clients, old.holding = c.holding)
    (hedges : ∀ e ∈ s'.edges, ∃ old ∈ s.edges, old.holding = e.holding)
    (hrelays : ∀ r ∈ s'.relays, ∃ old ∈ s.relays, old.holding = r.holding) (a : Holding)
    (h : Held s' a) : Held s a := by
  rcases h with ⟨client, hmem, rfl⟩ | ⟨edge, hmem, rfl⟩ | ⟨relay, hmem, rfl⟩
  · exact .inl (hclients client hmem)
  · exact .inr (.inl (hedges edge hmem))
  · exact .inr (.inr (hrelays relay hmem))

/-- A record that is still there. -/
theorem exists_self {α : Type} {f : α → Holding} {l : List α} :
    ∀ a ∈ l, ∃ old ∈ l, f old = f a :=
  fun a ha => ⟨a, ha, rfl⟩

/-- A record that was there before others were discarded. -/
theorem exists_discarded {α : Type} {f : α → Holding} {id : α → String} {k : String} {l : List α} :
    ∀ a ∈ Keyed.discard id k l, ∃ old ∈ l, f old = f a :=
  fun a ha => ⟨a, (Keyed.mem_discard.1 ha).1, rfl⟩

theorem exists_replaced {α : Type} {f : α → Holding} {id : α → String} {l : List α} {x old : α}
    (h : Keyed.Distinct id l) (hold : old ∈ l) (hf : f old = f x) :
    ∀ a ∈ Keyed.upsert id x l, ∃ old ∈ l, f old = f a := by
  intro a ha
  rcases (Keyed.mem_upsert h).1 ha with rfl | ⟨hmem, _⟩
  · exact ⟨old, hold, hf⟩
  · exact ⟨a, hmem, rfl⟩

/-- What a claim takes is what its invitation has reserved. -/
theorem held_of_claim (hk : s.Keyed) {record invite : InviteRecord} {endpointId : EndpointId P}
    {port : Option UInt16} {generation : Nat} {received : Int} {change : StateChange}
    (h : claimedNodeChange P s invite.invite endpointId invite.managedBy port generation received =
      .ok change) (a : Holding)
    (ha : Held (StateDelta.commit (.topology [change, .putInvite record]) s) a) :
    Held s a ∨ a = invite.holding := by
  have hnew : ∀ {α : Type} {f : α → Holding} {id : α → String} {l : List α} {x : α},
      Keyed.Distinct id l → (∃ b ∈ Keyed.upsert id x l, f b = a) → (∃ b ∈ l, f b = a) ∨ a = f x := by
    rintro α f id l x hl ⟨b, hb, rfl⟩
    rcases (Keyed.mem_upsert hl).1 hb with rfl | ⟨hb, _⟩
    · exact .inr rfl
    · exact .inl ⟨b, hb, rfl⟩
  rcases claimedNodeChange_eq_ok P h with ⟨hkind, _, rfl⟩ | ⟨ownerId, hkind, _, rfl⟩ |
    ⟨url, hkind, _, rfl⟩
  · rcases ha with hc | he | hr
    · rcases hnew hk.clients hc with hold | heq
      · exact .inl (.inl hold)
      · exact .inr (heq.trans (by rw [InviteRecord.holding, hkind, ClientRecord.holding]))
    · exact .inl (.inr (.inl he))
    · exact .inl (.inr (.inr hr))
  · rcases ha with hc | he | hr
    · exact .inl (.inl hc)
    · rcases hnew hk.edges he with hold | heq
      · exact .inl (.inr (.inl hold))
      · exact .inr (heq.trans (by rw [InviteRecord.holding, hkind, EdgeRecord.holding]))
    · exact .inl (.inr (.inr hr))
  · rcases ha with hc | he | hr
    · exact .inl (.inl hc)
    · exact .inl (.inr (.inl he))
    · rcases hnew hk.relays hr with hold | heq
      · exact .inl (.inr (.inr hold))
      · exact .inr (heq.trans (by rw [InviteRecord.holding, hkind, RelayRecord.holding]))

/-- The invitation that `bootstrap` makes for a first Relay. -/
theorem NamesReserved.bootstrap (h : NamesReserved now s) (hk : s.Keyed) {url : String}
    (hkind : record.invite.kind = .relay url) (noRelay : s.relays = []) :
    NamesReserved now ((StateDelta.quiet (staleRelayInvites s ++ [.putInvite record])).commit s) := by
  -- only Relays clash with a Relay: none has enrolled, and the pending ones are replaced
  have hrelay : ∀ b : Holding, record.holding.clash b → ∃ url, b.kind = .relay url := by
    rintro ⟨name, kind⟩ hclash
    cases kind with
    | relay url => exact ⟨url, rfl⟩
    | client | edge => exact absurd hclash (by simp [InviteRecord.holding, hkind, Holding.clash])
  have hkept : Respected Holding.clash (Held s) (fun id a => ∃ invite ∈ s.invites,
      invite.isPendingRelay = false ∧ inviteIsActivePending now invite = true ∧
        invite.id = id ∧ invite.holding = a) := by
    refine h.mono (fun _ => id) ?_
    rintro id a ⟨invite, hmem, _, hrest⟩
    exact ⟨invite, hmem, hrest⟩
  refine hkept.reserve (i := record.id) (a := record.holding) Holding.clash_symm ?_ ?_ ?_ ?_
  · intro b hb hclash
    rw [bootstrap_commit_invites] at hb
    obtain ⟨_, hb'⟩ := hrelay b hclash
    rcases hb with ⟨client, _, rfl⟩ | ⟨edge, _, rfl⟩ | ⟨relay, hmem, rfl⟩
    · exact absurd hb' (by simp [ClientRecord.holding])
    · exact absurd hb' (by simp [EdgeRecord.holding])
    · exact absurd hmem (by simp [noRelay])
  · rintro id _ ⟨invite, _, hkeep, hactive, _, rfl⟩ hclash
    obtain ⟨_, hkind'⟩ := hrelay _ hclash
    have hpending := (active_iff.1 hactive).1
    unfold InviteRecord.holding at hkind'
    simp only at hkind'
    simp [InviteRecord.isPendingRelay, hkind', hpending] at hkeep
  · intro b hb
    rw [bootstrap_commit_invites] at hb
    exact hb
  · rintro id _ ⟨invite, hmem, hactive, rfl, rfl⟩
    rcases (mem_bootstrap_invites hk).1 hmem with rfl | ⟨⟨hold, hkeep⟩, _⟩
    · exact .inr ⟨rfl, rfl⟩
    · exact .inl ⟨invite, hold, hkeep, hactive, rfl, rfl⟩

/-- **One step.** A claim takes what it has reserved, a new invitation reserves what is free, and an
    edge is moved to a name that is not reserved. -/
theorem NamesReserved.step (h : NamesReserved now s) (hk : s.Keyed) (hclock : amb.clock = now)
    (hm : Mutation P (.reserving amb s) amb s delta) : NamesReserved now (delta.commit s) := by
  cases hm with
  | claim invite endpointId port change mem pending node inTime validPort named =>
    have hreserved : Reserved now s invite.id invite.holding :=
      ⟨invite, mem, active_iff.2 ⟨pending, hclock ▸ named⟩, rfl, rfl⟩
    refine h.redeem hreserved (held_of_claim hk node) ?_
    intro id a ha
    have hinvites : (StateDelta.commit (.topology [change,
        .putInvite (invite.claim endpointId.text amb.received)]) s).invites =
        Keyed.upsert InviteRecord.id (invite.claim endpointId.text amb.received) s.invites := by
      rcases claimedNodeChange_eq_ok P node with ⟨_, _, rfl⟩ | ⟨_, _, _, rfl⟩ | ⟨_, _, _, rfl⟩ <;>
        rfl
    rcases reserved_of_upsert hk hinvites ha with hold | ⟨hactive, _⟩
    · exact hold
    · exact absurd (active_iff.1 hactive).1 (by simp [InviteRecord.claim])
  | newInvite record hid pending unclaimed open_ lives free manager =>
    obtain ⟨hnodes, hinvites⟩ := validateInviteName_eq_ok.1 free
    refine h.reserve (i := record.id) (a := record.holding) Holding.clash_symm ?_ ?_
      (fun _ => id) ?_
    · intro b hb hclash
      have hconflict : nodeConflicts s record.invite.name record.invite.kind = true :=
        nodeConflicts_iff.2 ⟨b, hb, Holding.clash_symm _ _ hclash⟩
      exact absurd hconflict (by simp [hnodes])
    · rintro id _ ⟨other, hother, hactive, _, rfl⟩ hclash
      have hconflict := inviteConflicts_iff.2 (Holding.clash_symm _ _ hclash)
      exact absurd hconflict (by simp [hinvites other hother (hclock ▸ hactive)])
    · intro id a ha
      rcases reserved_of_upsert hk rfl ha with ⟨hold, _⟩ | ⟨_, hnew⟩
      · exact .inl hold
      · exact .inr hnew
  | revokeInvite invite mem pending =>
    refine h.mono (fun _ => id) (fun id a ha => ?_)
    rcases reserved_of_upsert hk rfl ha with ⟨hold, _⟩ | ⟨hactive, _⟩
    · exact hold
    · exact absurd (active_iff.1 hactive).1 (by simp [InviteRecord.revoke])
  | removeClient client mem =>
    exact h.mono (held_of_old exists_discarded exists_self exists_self) (fun _ _ => id)
  | removeEdge edge mem =>
    exact h.mono (held_of_old exists_self exists_discarded exists_self) (fun _ _ => id)
  | transferEdge edge newOwner mem owner free named =>
    refine h.hold (a := ⟨edge.name, .edge newOwner⟩) (hclock ▸ named) ?_ (fun _ _ => id)
    rintro a (hclient | ⟨moved, hmoved, rfl⟩ | hrelay)
    · exact .inl (.inl hclient)
    · rcases (Keyed.mem_upsert hk.edges).1 hmoved with rfl | ⟨hold, _⟩
      · exact .inr rfl
      · exact .inl (.inr (.inl ⟨moved, hold, rfl⟩))
    · exact .inl (.inr (.inr hrelay))
  | removeRelay relay mem =>
    exact h.mono (held_of_old exists_self exists_self exists_discarded) (fun _ _ => id)
  | addProvisioner | removeProvisioner => exact h.mono (fun _ => id) (fun _ _ => id)
  | qadPort relay port mem =>
    exact h.mono (held_of_old exists_self exists_self (exists_replaced hk.relays mem rfl))
      (fun _ _ => id)
  | renewClient client mem =>
    exact h.mono (held_of_old (exists_replaced hk.clients mem rfl) exists_self exists_self)
      (fun _ _ => id)
  | renewEdge edge mem =>
    exact h.mono (held_of_old exists_self (exists_replaced hk.edges mem rfl) exists_self)
      (fun _ _ => id)
  | cleanup =>
    rw [cleanup_commit hk]
    refine h.mono (fun _ => id) ?_
    rintro id a ⟨invite, hmem, hrest⟩
    exact ⟨invite, (List.mem_filter.1 hmem).1, hrest⟩
  | bootstrap record hid pending unclaimed open_ noRelay kind =>
    obtain ⟨url, hkind⟩ := kind
    exact h.bootstrap hk hkind noRelay

/-- **Every run** in which reservations are kept. -/
theorem Ledger.namesReserved_of_reachable {l : Ledger}
    (h : (ledgerWhere P key KeepsReservations).Reachable l) : NamesReserved l.clock l.state := by
  refine h.invariant (P := fun l => NamesReserved l.clock l.state) ?_ ?_
  · rintro l ⟨⟨audience, publicUrl, relayCaDer, hstate⟩, _⟩
    rw [hstate]
    constructor <;> simp [Reserved, initialState]
  · intro l l' hr hreserved hstep
    cases hstep with
    | tick now later => exact hreserved.later later
    | draw | issue => exact hreserved
    | reorder s same => exact hreserved.congr same
    | commit amb delta tokens enrolled received clock draws decision =>
      exact hreserved.step (wellFormed_of_reachable hr).keyed clock
        (decision.mutation (fun op allows => allows.within) trivial)

/-- The bearer of an invitation whose name is free is enrolled, unless the owner of the edge is
    gone. -/
theorem claimedNodeChange_of_free {invite : Invite} {endpointId : EndpointId P}
    (managedBy : Option String) (port : Option UInt16) (generation : Nat) (received : Int)
    (hfree : nodeConflicts s invite.name invite.kind = false)
    (hfresh : ¬ Registered s endpointId.text) :
    (∃ change, claimedNodeChange P s invite endpointId managedBy port generation received =
      .ok change) ∨
    claimedNodeChange P s invite endpointId managedBy port generation received =
      .error (ApiError.bad "unknown client") := by
  -- no record of the kind has the name, and none has the identity
  have hnone : ∀ {α : Type} {l : List α} {p q : α → Bool}, l.any p = false →
      (∀ item ∈ l, q item = false) → ¬ l.any (fun item => p item || q item) = true := by
    intro α l p q hp hq hany
    obtain ⟨item, hmem, hitem⟩ := List.any_eq_true.1 hany
    simp [List.any_eq_false.1 hp item hmem, hq item hmem] at hitem
  unfold claimedNodeChange
  cases hkind : invite.kind with
  | client =>
    left
    rw [hkind] at hfree
    refine ⟨_, bind_ok (ensure_of (hnone hfree (fun client hmem => ?_))) rfl⟩
    exact decide_eq_false (fun heq => hfresh (.inl ⟨client, hmem, heq⟩))
  | edge ownerId =>
    rw [hkind] at hfree
    by_cases howner : s.clients.any (·.endpointId = ownerId) = true
    · left
      refine ⟨_, bind_ok (ensure_of howner) (bind_ok (ensure_of
        (hnone hfree (fun edge hmem => ?_))) rfl)⟩
      exact decide_eq_false (fun heq => hfresh (.inr (.inl ⟨edge, hmem, heq⟩)))
    · right
      simp only [anyhowClientExists, ensure, if_neg howner]
      rfl
  | relay url =>
    left
    rw [hkind] at hfree
    refine ⟨_, bind_ok (ensure_of (hnone hfree (fun relay hmem => ?_))) rfl⟩
    exact decide_eq_false (fun heq => hfresh (.inr (.inr ⟨relay, hmem, heq⟩)))

/-- **An active invitation reserves its name**, in every run in which claims are served in time and no
    edge is moved to a reserved name: no two active invitations clash, none clashes with a registered
    node, and a new identity that redeems one is not refused for its name. -/
theorem active_invitations_reserve_their_names {w : World}
    (hr : (controlWhere P key KeepsReservations).Reachable w) (hs : w.Shows s)
    (hnow : w.clock ≤ now) :
    (∀ a ∈ s.invites, ∀ b ∈ s.invites, inviteIsActivePending now a = true →
      inviteIsActivePending now b = true → a.id ≠ b.id →
        inviteConflicts a.invite.name a.invite.kind b = false) ∧
    ∀ a ∈ s.invites, inviteIsActivePending now a = true →
      nodeConflicts s a.invite.name a.invite.kind = false ∧
      ∀ (endpointId : EndpointId P) managedBy port generation received,
        ¬ Registered s endpointId.text →
        (∃ change, claimedNodeChange P s a.invite endpointId managedBy port generation received =
          .ok change) ∨
        claimedNodeChange P s a.invite endpointId managedBy port generation received =
          .error (ApiError.bad "unknown client") := by
  obtain ⟨l, hl, href, hsame, _⟩ := hs.ledgerWhere hr
  have hreserved : NamesReserved now s := by
    have hledger := (Ledger.namesReserved_of_reachable hl).congr hsame
    rw [href.clock] at hledger
    exact hledger.later hnow
  have hnodes : ∀ a ∈ s.invites, inviteIsActivePending now a = true →
      nodeConflicts s a.invite.name a.invite.kind = false := by
    intro a ha hactive
    rw [Bool.eq_false_iff]
    intro hconflict
    obtain ⟨b, hb, hclash⟩ := nodeConflicts_iff.1 hconflict
    exact hreserved.held a.id a.holding ⟨a, ha, hactive, rfl, rfl⟩ b hb
      (Holding.clash_symm _ _ hclash)
  refine ⟨?_, fun a ha hactive => ⟨hnodes a ha hactive, ?_⟩⟩
  · intro a ha b hb hactive hactive' hne
    rw [Bool.eq_false_iff]
    intro hconflict
    exact hreserved.reserved b.id b.holding a.id a.holding ⟨b, hb, hactive', rfl, rfl⟩
      ⟨a, ha, hactive, rfl, rfl⟩ hne.symm (inviteConflicts_iff.1 hconflict)
  · intro endpointId managedBy port generation received hfresh
    exact claimedNodeChange_of_free managedBy port generation received (hnodes a ha hactive) hfresh

section Example

open Reference

/-- Clients `a` and `c` and the edge `a/e` have enrolled. Client `c` invites an edge with the given
    name, and then `a/e` is moved to it. -/
def inviteAndMove (name : String) : List (Event (platform [])) :=
  enrolEdge (platform []) controlKey nodeKey nodeKey ++
    [.operate (fun _ => .localAdmin (.inviteClient "c" 3600)) "invite-c",
      .operate (claimRequest (platform []) controlKey otherKey 0 "invite-c") "claim-c",
      .operate (fun _ => .localAdmin (.inviteEdge name "c" 3600)) "invite-for-c",
      .operate (fun _ => .localAdmin (.transferEdge "a/e" "c")) "move-e"]

/-- An edge moves next to the name that an invitation reserves. -/
theorem pending_edge_invitation_reserves_its_name : ∃ w s a,
    (controlWhere (platform []) controlKey KeepsReservations).Reachable w ∧ w.Shows s ∧
      a ∈ s.invites ∧ inviteIsActivePending w.clock a = true ∧
      a.invite.kind = .edge (publicKey otherKey) ∧
      s.edges.any (fun edge => edge.ownerId = publicKey otherKey) = true ∧
      nodeConflicts s a.invite.name a.invite.kind = false := by
  obtain ⟨w, hr, hcheck⟩ := World.exists_after controlKey KeepsReservations (inviteAndMove "f")
    (fun w => w.process.any (fun s => s.invites.any (fun a => inviteIsActivePending w.clock a = true ∧
      a.invite.kind = .edge (publicKey otherKey) ∧
      s.edges.any (fun edge => edge.ownerId = publicKey otherKey) = true))) (by decide +kernel)
  obtain ⟨s, hs, hcheck⟩ := (Option.any_eq_true _ _).1 hcheck
  obtain ⟨a, ha, hcheck⟩ := List.any_eq_true.1 hcheck
  obtain ⟨hactive, hkind, hmoved⟩ := of_decide_eq_true hcheck
  exact ⟨w, s, a, hr, .inl hs, ha, hactive, hkind, hmoved,
    ((active_invitations_reserve_their_names hr (.inl hs) le_rfl).2 a ha hactive).1⟩

/-- What a run has to show for a reserved name to be taken. -/
theorem exists_taken (events : List (Event (platform [])))
    (h : (World.after controlKey (fun _ _ _ => True) events).any (fun w => w.process.any (fun s => s.invites.any (fun a => inviteIsActivePending w.clock a = true ∧ a.invite.kind = kind ∧ nodeConflicts s a.invite.name a.invite.kind = true))) = true) :
    ∃ w s a, (control (platform []) controlKey).Reachable w ∧ w.Shows s ∧ a ∈ s.invites ∧
      inviteIsActivePending w.clock a = true ∧ a.invite.kind = kind ∧
      nodeConflicts s a.invite.name a.invite.kind = true := by
  obtain ⟨w, hr, hcheck⟩ := World.exists_after controlKey (fun _ _ _ => True) events _ h
  obtain ⟨s, hs, hcheck⟩ := (Option.any_eq_true _ _).1 hcheck
  obtain ⟨a, ha, hcheck⟩ := List.any_eq_true.1 hcheck
  exact ⟨w, s, a, hr, .inl hs, ha, of_decide_eq_true hcheck⟩

/-- An edge is moved to a client that has invited an edge of this name. And a claim that is received
    in the last second of its invitation is served when the name has been given to a new one. -/
theorem reserved_names_are_taken :
    (∃ w s a, (control (platform []) controlKey).Reachable w ∧ w.Shows s ∧ a ∈ s.invites ∧
      inviteIsActivePending w.clock a = true ∧ a.invite.kind = .edge (publicKey otherKey) ∧
      nodeConflicts s a.invite.name a.invite.kind = true) ∧
    ∃ w s a, (control (platform []) controlKey).Reachable w ∧ w.Shows s ∧ a ∈ s.invites ∧
      inviteIsActivePending w.clock a = true ∧ a.invite.kind = .client ∧
      nodeConflicts s a.invite.name a.invite.kind = true := by
  refine ⟨exists_taken (inviteAndMove "e") (by decide +kernel), exists_taken
    [.start relayCa, .operate (fun _ => .localAdmin (.inviteClient "a" 3600)) "invite-a", .tick 3601,
      .operate (fun _ => .localAdmin (.inviteClient "a" 3600)) "invite-a-again",
      .late 3600 (claimRequest (platform []) controlKey nodeKey 3600 "invite-a") "claim-a"]
    (by decide +kernel)⟩

end Example

end AgentScale.Control
