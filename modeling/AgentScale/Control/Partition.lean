import AgentScale.Control.Invariant

set_option autoImplicit false

/-! # Provisioners and their partitions

What a Provisioner's request can change: the clients the Provisioner manages, their edges, and the
invitations it has issued (`requests_stay_in_their_partition`). A request that names the revision it
expects changes something only when that is the current revision, and then moves the revision by one,
so of two requests made from the same revision at most one takes effect (`no_update_is_lost`). -/

namespace AgentScale.Control

open Checked ControlApi

variable {P : Platform} {key : SecretKey} {amb : Ambient} {s s' : ControlState} {delta : StateDelta}
  {allowed : Ambient → ControlState → Operation P → Prop}

/-! ## The frame of a request -/

/-- From `s` to `s'`, only the partition of a Provisioner has changed. -/
structure OnlyPartition (provisionerId : String) (s s' : ControlState) : Prop where
  clients : ∀ client : ClientRecord, client.managedBy ≠ some provisionerId →
    (client ∈ s'.clients ↔ client ∈ s.clients)
  edges : ∀ edge : EdgeRecord, ¬ Manages s provisionerId edge.ownerId →
    (edge ∈ s'.edges ↔ edge ∈ s.edges)
  invites : ∀ invite : InviteRecord, invite.managedBy ≠ some provisionerId →
    (invite ∈ s'.invites ↔ invite ∈ s.invites)
  relays : s'.relays = s.relays
  provisioners : s'.provisioners = s.provisioners
  newInvites : ∀ invite ∈ s'.invites, (∀ old ∈ s.invites, old.id ≠ invite.id) →
    invite.managedBy = some provisionerId ∧
      ∀ ownerId, invite.invite.kind = .edge ownerId → Manages s provisionerId ownerId
  transfers : ∀ edge ∈ s.edges, ∀ moved ∈ s'.edges, moved.endpointId = edge.endpointId →
    moved.ownerId ≠ edge.ownerId →
      Manages s provisionerId edge.ownerId ∧ Manages s provisionerId moved.ownerId

theorem not_new {invite : InviteRecord} (h : invite ∈ s.invites) {p : Prop}
    (hnew : ∀ old ∈ s.invites, old.id ≠ invite.id) : p :=
  absurd rfl (hnew invite h)

theorem not_moved (hk : s.Keyed) {edge moved : EdgeRecord} (hedge : edge ∈ s.edges)
    (hmoved : moved ∈ s.edges) (hid : moved.endpointId = edge.endpointId)
    (howner : moved.ownerId ≠ edge.ownerId) {p : Prop} : p :=
  absurd (congrArg EdgeRecord.ownerId (hk.edges.eq_of_key hmoved hedge hid)) howner

theorem OnlyPartition.refl (hk : s.Keyed) (provisionerId : String) :
    OnlyPartition provisionerId s s where
  clients := fun _ _ => .rfl
  edges := fun _ _ => .rfl
  invites := fun _ _ => .rfl
  relays := rfl
  provisioners := rfl
  newInvites := fun _ hinvite hnew => not_new hinvite hnew
  transfers := fun _ hedge _ hmoved hid howner => not_moved hk hedge hmoved hid howner

/-- **One commit.** What a Provisioner's request commits stays inside its partition. -/
theorem ManagedMutation.onlyPartition {asked : Registration → Prop} {provisionerId : String}
    (h : ManagedMutation asked amb s provisionerId delta) (hk : s.Keyed)
    (hfresh : ∀ invite ∈ s.invites, invite.id ≠ amb.inviteToken) :
    OnlyPartition provisionerId s (delta.commit s) := by
  have hrefl := OnlyPartition.refl hk provisionerId
  cases h with
  | newInvite record id pending unclaimed open_ managed owner =>
    have hmem : ∀ invite, invite ∈ Keyed.upsert InviteRecord.id record s.invites ↔
        invite = record ∨ (invite ∈ s.invites ∧ invite.id ≠ record.id) :=
      fun _ => Keyed.mem_upsert hk.invites
    refine { hrefl with invites := ?_, newInvites := ?_ }
    · intro invite hother
      refine (hmem invite).trans ⟨?_, fun hold => .inr ⟨hold, id ▸ hfresh invite hold⟩⟩
      rintro (rfl | ⟨hold, _⟩)
      · exact absurd managed hother
      · exact hold
    · intro invite hinvite hnew
      rcases (hmem invite).1 hinvite with rfl | ⟨hold, _⟩
      · exact ⟨managed, owner⟩
      · exact not_new hold hnew
  | revokeInvite invite mem pending managed =>
    have hmem : ∀ other,
        other ∈ Keyed.upsert InviteRecord.id (invite.revoke amb.clock) s.invites ↔
          other = invite.revoke amb.clock ∨ (other ∈ s.invites ∧ other.id ≠ invite.id) :=
      fun _ => Keyed.mem_upsert hk.invites
    refine { hrefl with invites := ?_, newInvites := ?_ }
    · intro other hother
      refine (hmem other).trans ⟨?_, fun hold => .inr ⟨hold, fun hid => hother ?_⟩⟩
      · rintro (rfl | ⟨hold, _⟩)
        · exact absurd managed hother
        · exact hold
      · rw [hk.invites.eq_of_key hold mem hid]
        exact managed
    · intro other hinvite hnew
      rcases (hmem other).1 hinvite with rfl | ⟨hold, _⟩
      · exact absurd rfl (hnew invite mem)
      · exact not_new hold hnew
  | removeClient client mem named managed =>
    refine { hrefl with clients := ?_ }
    intro other hother
    refine Keyed.mem_discard.trans ⟨And.left, fun hold => ⟨hold, fun hid => hother ?_⟩⟩
    rw [hk.clients.eq_of_key hold mem hid]
    exact managed
  | removeEdge edge mem named managed =>
    refine { hrefl with edges := ?_, transfers := ?_ }
    · intro other hother
      refine Keyed.mem_discard.trans ⟨And.left, fun hold => ⟨hold, fun hid => hother ?_⟩⟩
      rw [hk.edges.eq_of_key hold mem hid]
      exact managed
    · intro old hold moved hmoved
      exact hrefl.transfers old hold moved (Keyed.mem_discard.1 hmoved).1
  | transferEdge edge newOwner mem managed target =>
    have hmem : ∀ other, other ∈ Keyed.upsert EdgeRecord.endpointId
        { edge with ownerId := newOwner } s.edges ↔
          other = { edge with ownerId := newOwner } ∨
            (other ∈ s.edges ∧ other.endpointId ≠ edge.endpointId) :=
      fun _ => Keyed.mem_upsert hk.edges
    refine { hrefl with edges := ?_, transfers := ?_ }
    · intro other hother
      refine (hmem other).trans ⟨?_, fun hold => .inr ⟨hold, fun hid => hother ?_⟩⟩
      · rintro (rfl | ⟨hold, _⟩)
        · exact absurd target hother
        · exact hold
      · rw [hk.edges.eq_of_key hold mem hid]
        exact managed
    · intro old hold moved hmoved hid howner
      rcases (hmem moved).1 hmoved with rfl | ⟨hmoved, _⟩
      · rw [hk.edges.eq_of_key hold mem hid.symm]
        exact ⟨managed, target⟩
      · exact not_moved hk hold hmoved hid howner

/-! ## Requests -/

/-- The id drawn for a request is not in use. -/
theorem World.fresh_token {w : World} {l : Ledger} (hl : (ledgerWhere P key allowed).Reachable l)
    (href : Refines w l) (hamb : amb.Admissible w) :
    ∀ invite ∈ l.state.invites, invite.id ≠ amb.inviteToken := by
  intro invite hinvite hid
  exact hamb.fresh (href.drawn ▸ hid ▸ Ledger.drawn_of_reachable hl invite hinvite)

/-- What a Provisioner's request does: nothing, or a commit that is authorized. -/
theorem World.provisioner_cases {w : World} {l : Ledger} (href : Refines w l)
    (hrun : w.process = some s) (provisioner : EndpointId P) (request : ProvisionerRequest) :
    w.Unmoved (w.operate P key amb (.provisioner provisioner request) s).2 ∨
      ∃ delta, Authorized .any amb s provisioner request delta ∧
        (w.operate P key amb (.provisioner provisioner request) s).2.process =
          some (delta.commit s) := by
  rcases World.operate_cases (P := P) href hrun with
    hunmoved | ⟨delta, respond, hplan, hprocess, _⟩
  · exact .inl hunmoved
  · obtain ⟨_, hcommit, _⟩ := map_eq_commit hplan
    exact .inr ⟨delta, provisionerRequest_commit (fun _ _ => trivial) (fun _ _ => trivial)
      (fun _ => trivial) hcommit, hprocess⟩

/-- The topology lists exactly the Provisioner's clients, their edges, and its invitations. -/
structure ListsPartition (provisionerId : String) (s : ControlState) (t : ProvisionerTopology) :
    Prop where
  clients : t.clients.map (fun c => (c.name, c.endpointId)) =
    (s.clients.filter (fun c => c.managedBy = some provisionerId)).map
      (fun c => (c.name, c.endpointId))
  edges : ∀ c ∈ t.clients, c.edges.map (fun e => (e.name, e.endpointId)) =
    (s.edges.filter (fun e => e.ownerId = c.endpointId)).map (fun e => (e.name, e.endpointId))
  invites : t.invites.map InviteInfo.inviteId =
    (s.invites.filter (fun i => i.managedBy = some provisionerId)).map InviteRecord.id

theorem provisionerTopology_lists (s : ControlState) (now : Int) (provisionerId : String) :
    ListsPartition provisionerId s (provisionerTopology s now provisionerId) where
  clients := by
    simp only [provisionerTopology, List.map_map]
    rfl
  edges := by
    intro c hc
    obtain ⟨client, _, rfl⟩ := List.mem_map.1 hc
    simp only [managedClientInfo, List.map_map]
    rfl
  invites := by
    simp only [provisionerTopology, List.map_map]
    rfl

/-- **Requests stay in their partition.** Whatever a Provisioner asks for, everything outside its
    partition is as before, and the topology it is shown is its partition. -/
theorem requests_stay_in_their_partition {w : World} (hr : (control P key).Reachable w)
    (hrun : w.process = some s) (hamb : amb.Admissible w) (provisioner : EndpointId P)
    (request : ProvisionerRequest) :
    (∃ s', (w.operate P key amb (.provisioner provisioner request) s).2.process = some s' ∧
      OnlyPartition provisioner.text s s') ∧
    ∀ answer, (w.operate P key amb (.provisioner provisioner request) s).1 = .ok answer →
      request.action = .getTopology → ∃ topology, answer = .provisioner (.topology topology) ∧
        ListsPartition provisioner.text s topology := by
  obtain ⟨l, hl, href⟩ := exists_ledger hr
  obtain rfl := href.process s hrun
  have hk := (Ledger.wellFormed_of_reachable hl).keyed
  refine ⟨?_, ?_⟩
  · rcases World.provisioner_cases href hrun provisioner request with hunmoved | ⟨delta, hauth, hs'⟩
    · exact ⟨l.state, hunmoved.2.trans hrun, .refl hk _⟩
    · exact ⟨_, hs', hauth.managed.onlyPartition hk (World.fresh_token hl href hamb)⟩
  · intro answer hanswer haction
    rcases hresult : Plan.run amb.ioError ⟨w.database, l.state⟩
      ((Operation.provisioner provisioner request).plan P key amb l.state) with ⟨result, store⟩
    simp only [World.operate, hresult] at hanswer
    subst hanswer
    rcases Plan.run_cases hresult with ⟨_, ⟨_, he⟩ | ⟨_, hreply, hok⟩⟩ | ⟨_, _, hcommit, _⟩
    · cases he
    · cases hok
      obtain ⟨response, hresponse, rfl⟩ := map_eq_reply hreply
      obtain rfl := Plan.reply.inj (provisionerRequest_getTopology haction hresponse)
      exact ⟨_, rfl, provisionerTopology_lists _ _ _⟩
    · obtain ⟨_, hcommit, _⟩ := map_eq_commit hcommit
      exact absurd (provisionerRequest_getTopology haction hcommit) (by simp)

section Example

open Reference

/-- The Provisioner's request to remove its client. -/
def removeManaged (s : ControlState) : Operation (platform []) :=
  provisionerAsks (platform []) otherKey 0 "request-2" (.removeClient "b") s

/-- The world in which the request has been served. -/
def World.afterRemoval (w : World) (s : ControlState) : World :=
  (w.operate (platform []) controlKey (w.ambient s "remove-b") (removeManaged s) s).2

/-- A client of the Provisioner and one that nobody manages have enrolled, and the request to remove
    the first is about to be served. -/
theorem exists_removal : ∃ w s, (control (platform []) controlKey).Reachable w ∧
    w.process = some s ∧ "remove-b" ∉ w.drawn ∧ s.clients.length = 2 ∧
      ∃ s', (w.afterRemoval s).process = some s' ∧ s'.clients.length = 1 := by
  obtain ⟨w, hr, hcheck⟩ := World.exists_after controlKey (fun _ _ _ => True)
    (manageAndEnrol (platform []) controlKey nodeKey otherKey)
    (fun w => w.process.any (fun s => "remove-b" ∉ w.drawn ∧ s.clients.length = 2 ∧
      (w.afterRemoval s).process.any (fun s' => s'.clients.length = 1) = true)) (by decide +kernel)
  obtain ⟨s, hs, hcheck⟩ := (Option.any_eq_true _ _).1 hcheck
  obtain ⟨hfresh, hclients, hremoved⟩ := of_decide_eq_true hcheck
  obtain ⟨s', hs', hlength⟩ := (Option.any_eq_true _ _).1 hremoved
  exact ⟨w, s, hr, hs, hfresh, hclients, s', hs', of_decide_eq_true hlength⟩

/-- Removing its client leaves the client that nobody manages. -/
theorem removal_of_managed_client_stays_in_partition : ∃ w s s',
    (control (platform []) controlKey).Reachable w ∧ w.process = some s ∧
      (w.afterRemoval s).process = some s' ∧ s.clients.length = 2 ∧ s'.clients.length = 1 ∧
      OnlyPartition (publicKey otherKey) s s' := by
  obtain ⟨w, s, hr, hs, hfresh, hclients, s', hs', hlength⟩ := exists_removal
  obtain ⟨⟨s'', hs'', honly⟩, _⟩ := requests_stay_in_their_partition hr hs
    (World.ambient_admissible hr hs hfresh) (otherKey.public (platform []))
    (requestOf 0 "request-2" (.removeClient "b") s)
  cases hs'.symm.trans hs''
  exact ⟨w, s, s', hr, hs, hs', hclients, hlength, honly⟩

end Example

/-- A Provisioner's commit publishes one new revision. -/
theorem ManagedMutation.revision {asked : Registration → Prop} {provisionerId : String}
    (h : ManagedMutation asked amb s provisionerId delta) :
    (delta.commit s).revision = s.revision + 1 := by
  cases h <;> rfl

/-- A request that expects a revision changes nothing, or finds it and moves it by one. -/
theorem World.expected_cases (amb : Ambient) {w : World} {provisioner : EndpointId P}
    {request : ProvisionerRequest} {r : Nat} (hr : (control P key).Reachable w)
    (hrun : w.process = some s) (hexpects : request.expectedRevision = some r) :
    w.Unmoved (w.operate P key amb (.provisioner provisioner request) s).2 ∨
      (s.revision = r ∧ ∃ s',
        (w.operate P key amb (.provisioner provisioner request) s).2.process = some s' ∧
          s'.revision = r + 1) := by
  obtain ⟨l, hl, href⟩ := exists_ledger hr
  rcases World.provisioner_cases href hrun provisioner request with hunmoved | ⟨delta, hauth, hs'⟩
  · exact .inl hunmoved
  · have hrevision := hauth.expected r hexpects
    exact .inr ⟨hrevision.symm, _, hs', by rw [hauth.managed.revision, hrevision]⟩

/-- **No update is lost.** A request that expects revision `r` changes something only when `r` is the
    current revision, which it then moves by one. Of two such requests, however much happens between
    them, at most one changes anything. -/
theorem no_update_is_lost {w : World} (hr : (control P key).Reachable w)
    (hrun : w.process = some s) (hamb : amb.Admissible w) (provisioner : EndpointId P)
    (request : ProvisionerRequest) {r : Nat} (hexpects : request.expectedRevision = some r) :
    (¬ w.Unmoved (w.operate P key amb (.provisioner provisioner request) s).2 →
      s.revision = r ∧ ∃ s',
        (w.operate P key amb (.provisioner provisioner request) s).2.process = some s' ∧
          s'.revision = r + 1) ∧
    (s.revision ≠ r → w.Unmoved (w.operate P key amb (.provisioner provisioner request) s).2) ∧
    ∀ w₂ s₂ amb₂ (provisioner₂ : EndpointId P) (request₂ : ProvisionerRequest),
      (control P key).Steps (w.operate P key amb (.provisioner provisioner request) s).2 w₂ →
      w₂.process = some s₂ → amb₂.Admissible w₂ → request₂.expectedRevision = some r →
      w.Unmoved (w.operate P key amb (.provisioner provisioner request) s).2 ∨
        w₂.Unmoved (w₂.operate P key amb₂ (.provisioner provisioner₂ request₂) s₂).2 := by
  have hr' := hr.step (.operate w amb (.provisioner provisioner request) s hrun hamb trivial)
  refine ⟨fun hmoved => (World.expected_cases amb hr hrun hexpects).resolve_left hmoved,
    fun hne => (World.expected_cases amb hr hrun hexpects).resolve_right (fun h => hne h.1), ?_⟩
  intro w₂ s₂ amb₂ provisioner₂ request₂ hsteps hrun₂ _ hexpects₂
  rcases World.expected_cases amb hr hrun hexpects with hunmoved | ⟨_, s', hs', hrevision⟩
  · exact .inl hunmoved
  · right
    refine (World.expected_cases amb₂ (hr'.steps hsteps) hrun₂ hexpects₂).resolve_right ?_
    -- the revision has moved on, and never goes back
    rintro ⟨hrevision₂, _⟩
    obtain ⟨l, hl, href⟩ := exists_ledger hr'
    obtain ⟨l₂, hledger, href₂⟩ := (control_simulates_ledger P key).steps hr' hl href hsteps
    have hle := (Ledger.revision_le_of_steps hl hledger).1
    rw [← href.process s' hs', ← href₂.process s₂ hrun₂] at hle
    omega

open Reference in
/-- A removal moves the revision, and no second request from the same revision changes anything. -/
theorem removal_of_managed_client_is_exclusive : ∃ w s,
    (control (platform []) controlKey).Reachable w ∧ w.process = some s ∧
      ¬ w.Unmoved (w.afterRemoval s) ∧
      ∀ w₂ s₂ amb₂ (provisioner₂ : EndpointId (platform [])) (request₂ : ProvisionerRequest),
        (control (platform []) controlKey).Steps (w.afterRemoval s) w₂ → w₂.process = some s₂ →
        amb₂.Admissible w₂ → request₂.expectedRevision = some s.revision →
        w₂.Unmoved (w₂.operate _ controlKey amb₂ (.provisioner provisioner₂ request₂) s₂).2 := by
  obtain ⟨w, s, hr, hs, hfresh, hclients, s', hs', hlength⟩ := exists_removal
  have hmoved : ¬ w.Unmoved (w.afterRemoval s) := by
    rintro ⟨_, hsame⟩
    cases hs'.symm.trans (hsame.trans hs)
    omega
  obtain ⟨hone, _, htwo⟩ := no_update_is_lost hr hs (World.ambient_admissible hr hs hfresh)
    (otherKey.public (platform [])) (requestOf 0 "request-2" (.removeClient "b") s) rfl
  exact ⟨w, s, hr, hs, hmoved, fun w₂ s₂ amb₂ provisioner₂ request₂ hsteps hs₂ hamb₂ hexpects =>
    (htwo w₂ s₂ amb₂ provisioner₂ request₂ hsteps hs₂ hamb₂ hexpects).resolve_left hmoved⟩

end AgentScale.Control
