import AgentScale.Control.NodeMap
import AgentScale.Library.Lists

set_option autoImplicit false

/-! # The deltas Control commits

The functions that compute state changes, and `Mutation`: the complete list of deltas the handlers
commit, each with the facts its handler has checked. The handlers are shown to commit nothing else,
one lemma each, and every invariant is then proved by cases on `Mutation`. -/

namespace AgentScale.Control

open Checked ControlApi RelayApi

variable (P : Platform)

/-! ## Revocation -/

/-- `revocation_change`: the tombstone for a removed registration, merged with the one the endpoint
    already has. -/
def revocationRecord (state : ControlState) (endpointId : String) (generation : Nat)
    (expiresAt : Int) : RevocationRecord :=
  let revision := U64.saturatingAdd state.relayRevision 1
  match Keyed.lookup RevocationRecord.endpointId endpointId state.revocations with
  | some existing =>
    { endpointId, revokedThroughGeneration := max existing.revokedThroughGeneration generation,
      expiresAt := max existing.expiresAt expiresAt, revision }
  | none => { endpointId, revokedThroughGeneration := generation, expiresAt, revision }

def revocationChange (state : ControlState) (endpointId : String) (generation : Nat)
    (expiresAt : Int) : StateChange :=
  .putRevocation (revocationRecord state endpointId generation expiresAt)

theorem revocationRecord_endpointId (state : ControlState) (endpointId : String) (generation : Nat)
    (expiresAt : Int) :
    (revocationRecord state endpointId generation expiresAt).endpointId = endpointId := by
  unfold revocationRecord
  split <;> rfl

theorem revocationRecord_revision (state : ControlState) (endpointId : String) (generation : Nat)
    (expiresAt : Int) :
    (revocationRecord state endpointId generation expiresAt).revision =
      U64.saturatingAdd state.relayRevision 1 := by
  unfold revocationRecord
  split <;> rfl

/-- The new tombstone covers the removed registration. -/
theorem revocationRecord_covers (state : ControlState) (endpointId : String) (generation : Nat)
    (expiresAt : Int) :
    generation ≤ (revocationRecord state endpointId generation expiresAt).revokedThroughGeneration ∧
      expiresAt ≤ (revocationRecord state endpointId generation expiresAt).expiresAt := by
  unfold revocationRecord
  split
  · exact ⟨le_max_right _ _, le_max_right _ _⟩
  · exact ⟨le_rfl, le_rfl⟩

/-- The generation of the new tombstone is the removed one or that of the old tombstone. -/
theorem revocationRecord_generation (state : ControlState) (endpointId : String) (generation : Nat)
    (expiresAt : Int) :
    (revocationRecord state endpointId generation expiresAt).revokedThroughGeneration = generation ∨
      ∃ old ∈ state.revocations, old.endpointId = endpointId ∧
        (revocationRecord state endpointId generation expiresAt).revokedThroughGeneration =
          max old.revokedThroughGeneration generation := by
  unfold revocationRecord
  split
  · next old h =>
    obtain ⟨hmem, hid⟩ := Keyed.mem_of_lookup h
    exact .inr ⟨old, hmem, hid, rfl⟩
  · exact .inl rfl

/-! ## Cleanup -/

/-- The moment the retention of an invitation starts. -/
def InviteRecord.terminal (now : Int) (invite : InviteRecord) : Int :=
  match invite.state with
  | .pending => invite.invite.expiresAt
  | .claimed | .revoked => invite.terminalAt.getD now

/-- Whether an invitation is past its retention. -/
def InviteRecord.retired (now : Int) (invite : InviteRecord) : Bool :=
  I64.saturatingAdd (invite.terminal now) INVITATION_RETENTION_SECS ≤ now

/-- `cleanup_invitations`, the in-memory form used at startup. -/
def cleanupInvitations (now : Int) (state : ControlState) : ControlState :=
  { state with invites := state.invites.filter (fun invite => !invite.retired now) }

/-- `cleanup_revocations`, the in-memory form used at startup. -/
def cleanupRevocations (now : Int) (state : ControlState) : ControlState :=
  { state with revocations := state.revocations.filter (fun r => decide (now < r.expiresAt)) }

/-- The changes one round of `invitation_cleanup_loop` commits. -/
def cleanupChanges (now : Int) (state : ControlState) : List StateChange :=
  (state.invites.filter (·.retired now)).map (fun invite => .deleteInvite invite.id) ++
    (state.revocations.filter (fun r => decide (r.expiresAt ≤ now))).map
      (fun r => .deleteRevocation r.endpointId)

/-- `cleanup`: one round of `invitation_cleanup_loop`, which commits only when there is something to
    delete. -/
def cleanup (now : Int) (state : ControlState) : Except ApiError (Plan Unit) :=
  if cleanupChanges now state = [] then .ok (.reply ())
  else .ok (.commit (.quiet (cleanupChanges now state)) (fun _ => .ok ()))

/-! ## Offline preparation -/

/-- A pending Relay invitation, which `bootstrap` replaces. -/
def InviteRecord.isPendingRelay (invite : InviteRecord) : Bool :=
  match invite.invite.kind, invite.state with
  | .relay _, .pending => true
  | _, _ => false

/-- The invitations `bootstrap` deletes. -/
def staleRelayInvites (state : ControlState) : List StateChange :=
  (state.invites.filter (·.isPendingRelay)).map (fun invite => .deleteInvite invite.id)

/-! ## Enrolment -/

/-- `claimed_node_change`: the node record a claim creates. -/
def claimedNodeChange (state : ControlState) (invite : Invite) (endpointId : EndpointId P)
    (managedBy : Option String) (relayQadPort : Option UInt16) (credentialGeneration : Nat)
    (now : Int) : Except ApiError StateChange :=
  let expiresAt := I64.saturatingAdd now RELAY_CREDENTIAL_LIFETIME_SECS
  match invite.kind with
  | .client => do
    ensure (¬ state.clients.any (fun item =>
        item.name = invite.name || item.endpointId = endpointId.text))
      (ApiError.conflict "client name or identity already exists")
    return .putClient ⟨invite.name, endpointId.text, managedBy, credentialGeneration, now, expiresAt⟩
  | .edge ownerId => do
    anyhowClientExists state ownerId
    ensure (¬ state.edges.any (fun item =>
        (item.ownerId = ownerId && item.name = invite.name) || item.endpointId = endpointId.text))
      (ApiError.conflict "edge name or identity already exists")
    return .putEdge ⟨invite.name, endpointId.text, ownerId, credentialGeneration, now, expiresAt⟩
  | .relay url => do
    ensure (¬ state.relays.any (fun item =>
        item.name = invite.name || item.url = url || item.endpointId = endpointId.text))
      (ApiError.conflict "relay name, URL, or identity already exists")
    return .putRelay ⟨invite.name, endpointId.text, url, relayQadPort⟩

/-- The record a claim leaves behind. -/
def InviteRecord.claim (invite : InviteRecord) (endpointId : String) (now : Int) : InviteRecord :=
  { invite with state := .claimed, claimedBy := some endpointId, terminalAt := some now }

/-- The record a revocation leaves behind. -/
def InviteRecord.revoke (invite : InviteRecord) (now : Int) : InviteRecord :=
  { invite with state := .revoked, terminalAt := some now }

/-- The credential times after a renewal at `now`. -/
def ClientRecord.renew (record : ClientRecord) (now : Int) : ClientRecord :=
  { record with
    credentialIssuedAt := now
    credentialExpiresAt := I64.saturatingAdd now RELAY_CREDENTIAL_LIFETIME_SECS }

@[inherit_doc ClientRecord.renew]
def EdgeRecord.renew (record : EdgeRecord) (now : Int) : EdgeRecord :=
  { record with
    credentialIssuedAt := now
    credentialExpiresAt := I64.saturatingAdd now RELAY_CREDENTIAL_LIFETIME_SECS }

/-- A registration that expires this early is renewed. -/
def renewAt (now : Int) : Int := I64.saturatingAdd now RELAY_CREDENTIAL_RENEW_BEFORE_SECS

/-! ## The complete list -/

/-- A Client or Edge registration, as far as Relays are concerned. -/
structure Registration where
  kind : RelaySubjectKind
  endpointId : String
  generation : Nat
  expiresAt : Int
deriving DecidableEq

def ClientRecord.registration (r : ClientRecord) : Registration :=
  ⟨.client, r.endpointId, r.credentialGeneration, r.credentialExpiresAt⟩

def EdgeRecord.registration (r : EdgeRecord) : Registration :=
  ⟨.edge, r.endpointId, r.credentialGeneration, r.credentialExpiresAt⟩

def ControlState.registrations (s : ControlState) : List Registration :=
  s.clients.map ClientRecord.registration ++ s.edges.map EdgeRecord.registration

def namedClients (s : ControlState) (name : String) : List Registration :=
  (s.clients.filter (fun client => client.name = name)).map ClientRecord.registration

/-- The registrations of the edges with a name whose owner has a name. -/
def namedEdges (s : ControlState) (owner name : String) : List Registration :=
  (s.edges.filter (fun edge => edge.name = name && s.clients.any (fun client =>
    client.name = owner && client.endpointId = edge.ownerId))).map EdgeRecord.registration

theorem mem_namedClients {s : ControlState} {client : ClientRecord} (h : client ∈ s.clients) :
    client.registration ∈ namedClients s client.name :=
  List.mem_map_of_mem (List.mem_filter.2 ⟨h, by simp⟩)

theorem mem_namedEdges {s : ControlState} {edge : EdgeRecord} {owner : ClientRecord}
    (h : edge ∈ s.edges) (howner : owner ∈ s.clients) (hid : owner.endpointId = edge.ownerId) :
    edge.registration ∈ namedEdges s owner.name edge.name := by
  refine List.mem_map_of_mem (List.mem_filter.2 ⟨h, ?_⟩)
  rw [Bool.and_eq_true, List.any_eq_true]
  exact ⟨by simp, owner, howner, by simp [hid]⟩

/-- What a request asks for, as far as the deltas depend on it: the registrations to remove, the
    invitation to use up, the edges to move, by new owner and name, and whether invitations are to be
    issued or revoked. -/
structure Demand where
  removes : Registration → Prop
  enrols : Invite → Prop
  moves : String → String → Prop
  invites : Prop

/-- A delta some handler commits in state `s` for a request with the given demand, with everything the
    handler has checked. -/
inductive Mutation (asked : Demand) (amb : Ambient) (s : ControlState) : StateDelta → Prop
  | claim (invite : InviteRecord) (endpointId : EndpointId P) (port : Option UInt16)
      (change : StateChange) (mem : invite ∈ s.invites) (pending : invite.state = .pending)
      (node : claimedNodeChange P s invite.invite endpointId invite.managedBy port (s.revision + 1)
        amb.received = .ok change)
      (inTime : amb.received ≤ invite.invite.expiresAt) (validPort : port ≠ some 0)
      (named : asked.enrols invite.invite) :
      Mutation asked amb s
        (.topology [change, .putInvite (invite.claim endpointId.text amb.received)])
  | newInvite (record : InviteRecord) (id : record.id = amb.inviteToken)
      (pending : record.state = .pending) (unclaimed : record.claimedBy = none)
      (open_ : record.terminalAt = none) (lives : amb.clock < record.invite.expiresAt)
      (free : validateInviteName s amb.clock record.invite.name record.invite.kind = .ok ())
      (manager : record.invite.kind = .client → ∀ p, record.managedBy = some p →
        ∃ provisioner ∈ s.provisioners, provisioner.endpointId = p)
      (permitted : asked.invites) :
      Mutation asked amb s (.topology [.putInvite record])
  | revokeInvite (invite : InviteRecord) (mem : invite ∈ s.invites)
      (pending : invite.state = .pending) (permitted : asked.invites) :
      Mutation asked amb s (.topology [.putInvite (invite.revoke amb.clock)])
  | removeClient (client : ClientRecord) (mem : client ∈ s.clients)
      (named : asked.removes client.registration)
      (empty : checkClientIsEmpty s amb.clock client = .ok ()) :
      Mutation asked amb s (.revocation [.deleteClient client.endpointId,
        revocationChange s client.endpointId client.credentialGeneration client.credentialExpiresAt])
  | removeEdge (edge : EdgeRecord) (mem : edge ∈ s.edges)
      (named : asked.removes edge.registration) :
      Mutation asked amb s (.revocation [.deleteEdge edge.endpointId,
        revocationChange s edge.endpointId edge.credentialGeneration edge.credentialExpiresAt])
  | transferEdge (edge : EdgeRecord) (newOwner : String) (mem : edge ∈ s.edges)
      (owner : ∃ client ∈ s.clients, client.endpointId = newOwner)
      (free : ∀ other ∈ s.edges, other.ownerId = newOwner → other.name ≠ edge.name)
      (named : asked.moves newOwner edge.name) :
      Mutation asked amb s (.topology [.putEdge { edge with ownerId := newOwner }])
  | removeRelay (relay : RelayRecord) (mem : relay ∈ s.relays) :
      Mutation asked amb s (.revocation [.deleteRelay relay.endpointId])
  | addProvisioner (name : String) (endpointId : EndpointId P)
      (free : ∀ other ∈ s.provisioners, other.name ≠ name ∧ other.endpointId ≠ endpointId.text) :
      Mutation asked amb s (.topology [.putProvisioner ⟨name, endpointId.text⟩])
  | removeProvisioner (provisioner : ProvisionerRecord) (mem : provisioner ∈ s.provisioners)
      (noClients : ∀ client ∈ s.clients, client.managedBy ≠ some provisioner.endpointId)
      (noInvites : ∀ invite ∈ s.invites, inviteIsActivePending amb.clock invite = true →
        invite.managedBy ≠ some provisioner.endpointId) :
      Mutation asked amb s (.topology [.deleteProvisioner provisioner.endpointId])
  | qadPort (relay : RelayRecord) (port : Option UInt16) (mem : relay ∈ s.relays)
      (validPort : port ≠ some 0) :
      Mutation asked amb s (.topology [.putRelay { relay with qadPort := port }])
  | renewClient (client : ClientRecord) (mem : client ∈ s.clients)
      (due : client.credentialExpiresAt ≤ renewAt amb.received) :
      Mutation asked amb s (.quiet [.putClient (client.renew amb.received)])
  | renewEdge (edge : EdgeRecord) (mem : edge ∈ s.edges)
      (due : edge.credentialExpiresAt ≤ renewAt amb.received) :
      Mutation asked amb s (.quiet [.putEdge (edge.renew amb.received)])
  | cleanup : Mutation asked amb s (.quiet (cleanupChanges amb.clock s))
  | bootstrap (record : InviteRecord) (id : record.id = amb.inviteToken)
      (pending : record.state = .pending) (unclaimed : record.claimedBy = none)
      (open_ : record.terminalAt = none) (noRelay : s.relays = [])
      (kind : ∃ url, record.invite.kind = .relay url) (permitted : asked.invites) :
      Mutation asked amb s (.quiet (staleRelayInvites s ++ [.putInvite record]))

variable {state : ControlState}

/-- What a successful enrolment puts, by the kind of the invitation. -/
theorem claimedNodeChange_eq_ok {invite : Invite} {endpointId : EndpointId P}
    {managedBy : Option String} {port : Option UInt16} {generation : Nat} {now : Int}
    {change : StateChange}
    (h : claimedNodeChange P state invite endpointId managedBy port generation now = .ok change) :
    (invite.kind = .client ∧ (∀ c ∈ state.clients, c.endpointId ≠ endpointId.text) ∧
      change = .putClient ⟨invite.name, endpointId.text, managedBy, generation, now,
        I64.saturatingAdd now RELAY_CREDENTIAL_LIFETIME_SECS⟩) ∨
    (∃ ownerId, invite.kind = .edge ownerId ∧ (∀ e ∈ state.edges, e.endpointId ≠ endpointId.text) ∧
      change = .putEdge ⟨invite.name, endpointId.text, ownerId, generation, now,
        I64.saturatingAdd now RELAY_CREDENTIAL_LIFETIME_SECS⟩) ∨
    (∃ url, invite.kind = .relay url ∧ (∀ r ∈ state.relays, r.endpointId ≠ endpointId.text) ∧
      change = .putRelay ⟨invite.name, endpointId.text, url, port⟩) := by
  unfold claimedNodeChange at h
  split at h
  · next hkind =>
    obtain ⟨_, hfree, h⟩ := of_bind h
    injection h with h
    refine .inl ⟨hkind, ?_, h.symm⟩
    intro c hc he
    exact ensure_eq_ok.1 hfree (List.any_eq_true.2 ⟨c, hc, by simp [he]⟩)
  · next ownerId hkind =>
    obtain ⟨_, _, h⟩ := of_bind h
    obtain ⟨_, hfree, h⟩ := of_bind h
    injection h with h
    refine .inr (.inl ⟨ownerId, hkind, ?_, h.symm⟩)
    intro e hm he
    exact ensure_eq_ok.1 hfree (List.any_eq_true.2 ⟨e, hm, by simp [he]⟩)
  · next url hkind =>
    obtain ⟨_, hfree, h⟩ := of_bind h
    injection h with h
    refine .inr (.inr ⟨url, hkind, ?_, h.symm⟩)
    intro r hm he
    exact ensure_eq_ok.1 hfree (List.any_eq_true.2 ⟨r, hm, by simp [he]⟩)

/-- A successful enrolment has found its name free, and the owner of an edge registered. -/
theorem claimedNodeChange_free {invite : Invite} {endpointId : EndpointId P}
    {managedBy : Option String} {port : Option UInt16} {generation : Nat} {now : Int}
    {change : StateChange}
    (h : claimedNodeChange P state invite endpointId managedBy port generation now = .ok change) :
    nodeConflicts state invite.name invite.kind = false ∧ ∀ ownerId, invite.kind = .edge ownerId →
      ∃ client ∈ state.clients, client.endpointId = ownerId := by
  unfold claimedNodeChange at h
  split at h
  · next hkind =>
    obtain ⟨_, hfree, _⟩ := of_bind h
    rw [hkind]
    exact ⟨Lists.any_eq_false_of_imp (ensure_eq_ok.1 hfree) (fun item hitem => by simp_all), by simp⟩
  · next ownerId hkind =>
    obtain ⟨_, howner, h⟩ := of_bind h
    obtain ⟨_, hfree, _⟩ := of_bind h
    rw [hkind]
    refine ⟨Lists.any_eq_false_of_imp (ensure_eq_ok.1 hfree) (fun item hitem => by simp_all), ?_⟩
    intro id hid
    injection hid with hid
    obtain ⟨client, hclient, hmatch⟩ := List.any_eq_true.1 (ensure_eq_ok.1 howner)
    exact ⟨client, hclient, (of_decide_eq_true hmatch).trans hid⟩
  · next url hkind =>
    obtain ⟨_, hfree, _⟩ := of_bind h
    rw [hkind]
    refine ⟨Lists.any_eq_false_of_imp (ensure_eq_ok.1 hfree) (fun item hitem => ?_), by simp⟩
    rw [Bool.or_eq_true] at hitem ⊢
    exact .inl (by simpa using hitem)

theorem cleanup_mutation {asked : Demand} {amb : Ambient} {delta : StateDelta}
    {respond : ControlState → Except ApiError Unit}
    (h : cleanup amb.clock state = .ok (.commit delta respond)) :
    Mutation P asked amb state delta := by
  unfold cleanup at h
  split at h
  · cases h
  · obtain ⟨rfl, _⟩ := Plan.commit.inj (Except.ok.inj h)
    exact .cleanup

/-- A renewal never shortens a credential. -/
theorem le_renewed {old now : Int} (h : old ≤ renewAt now) :
    old ≤ I64.saturatingAdd now RELAY_CREDENTIAL_LIFETIME_SECS :=
  h.trans (I64.saturatingAdd_mono le_rfl (by decide))

end AgentScale.Control
