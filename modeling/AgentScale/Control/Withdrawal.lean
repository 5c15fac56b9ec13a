import AgentScale.Control.Constraints

set_option autoImplicit false

/-! # Revoking an invitation

`RevokeInvite`, of the local administrator and of the Provisioner that manages the invitation, writes
the record back as revoked. The writer `apply_delta_sync` puts the owner of an edge invitation into the
column `owner_id`, which refers to the registered clients. The client may be gone: it can be removed
when its edge invitations have expired, and the database then clears the column, but not the owner in
the record. Such an invitation cannot be revoked any more. -/

namespace AgentScale.Control

open Checked ControlApi

variable {P : Platform} {key : SecretKey} {amb : Ambient} {s : ControlState} {w : World}
  {invite : InviteRecord} {op : Operation P}

/-- A request to revoke the invitation, by the local administrator, or by the Provisioner that manages
    it in a request that passes the checks and expects no revision or the current one. -/
inductive Revokes (amb : Ambient) (s : ControlState) (invite : InviteRecord) : Operation P → Prop
  | localAdmin : Revokes amb s invite (.localAdmin (.revokeInvite invite.id))
  | provisioner (provisioner : EndpointId P) (request : ProvisionerRequest)
      (passes : Passes amb s provisioner request) (action : request.action = .revokeInvite invite.id)
      (manages : invite.managedBy = some provisioner.text)
      (expected : request.expectedRevision = none ∨ request.expectedRevision = some s.revision) :
      Revokes amb s invite (.provisioner provisioner request)

/-- The state with the invitation revoked, and nothing else changed but the revision. -/
def ControlState.revoking (s : ControlState) (invite : InviteRecord) (now : Int) : ControlState :=
  { s with
    revision := s.revision + 1
    invites := s.invites.map (fun r => if r = invite then r.revoke now else r) }

/-- The operation has revoked the invitation, in memory and in the database. -/
structure Revoked (amb : Ambient) (s : ControlState) (invite : InviteRecord)
    (outcome : Except ApiError Response × World) : Prop where
  answered : ∃ answer, outcome.1 = .ok answer
  memory : outcome.2.process = some (s.revoking invite amb.clock)
  database : Represents outcome.2.database.tables (s.revoking invite amb.clock)

/-- The client that an edge invitation is for is registered. -/
def OwnerRegistered (s : ControlState) (invite : InviteRecord) : Prop :=
  ∀ ownerId, invite.invite.kind = .edge ownerId → ∃ client ∈ s.clients, client.endpointId = ownerId

/-! ## The decision -/

theorem checkExpectedRevision_of {expected : Option Nat}
    (h : expected = none ∨ expected = some s.revision) : checkExpectedRevision s expected = .ok () := by
  rcases h with rfl | rfl
  · rfl
  · exact ensure_of rfl

theorem localRevokeInvite_of_pending (hk : s.Keyed) (hmem : invite ∈ s.invites)
    (hpending : invite.state = .pending) : localRevokeInvite amb invite.id s =
      acknowledged (.topology [.putInvite (invite.revoke amb.clock)]) := by
  have hfound : Keyed.lookup InviteRecord.id invite.id s.invites = some invite :=
    (Keyed.lookup_eq_some hk.invites).2 ⟨hmem, rfl⟩
  rw [localRevokeInvite, okOr_eq_ok.2 hfound, ok_bind, hpending]

theorem provisionerRevokeInvite_of_pending (hk : s.Keyed) (hmem : invite ∈ s.invites)
    (hpending : invite.state = .pending) {provisionerId : String} {request : ProvisionerRequest}
    (hmanages : invite.managedBy = some provisionerId)
    (hexpected : request.expectedRevision = none ∨ request.expectedRevision = some s.revision) :
    provisionerRevokeInvite amb provisionerId request invite.id s =
      .ok (.commit (.topology [.putInvite (invite.revoke amb.clock)]) provisionerOk) := by
  have hfound : s.invites.find? (fun item => item.id = invite.id &&
      item.managedBy = some provisionerId) = some invite := by
    cases hfind : s.invites.find? (fun item => item.id = invite.id &&
        item.managedBy = some provisionerId) with
    | none =>
      have hnone := List.find?_eq_none.1 hfind invite hmem
      simp [hmanages] at hnone
    | some found =>
      have hfound := List.find?_some hfind
      simp only [Bool.and_eq_true, decide_eq_true_eq] at hfound
      rw [hk.invites.eq_of_key (List.mem_of_find?_eq_some hfind) hmem hfound.1]
  rw [provisionerRevokeInvite, okOr_eq_ok.2 hfound, ok_bind, hpending]
  exact bind_ok (checkExpectedRevision_of hexpected) rfl

/-- Every request to revoke a pending invitation decides to write it back. -/
theorem Revokes.plan (h : Revokes amb s invite op) (hk : s.Keyed) (hmem : invite ∈ s.invites)
    (hpending : invite.state = .pending) (key : SecretKey) :
    ∃ respond, op.plan P key amb s =
        .ok (.commit (.topology [.putInvite (invite.revoke amb.clock)]) respond) ∧
      ∀ s', ∃ answer, respond s' = .ok answer := by
  cases h with
  | localAdmin =>
    refine ⟨fun _ => .ok (.localAdmin .ok), ?_, fun s' => ⟨_, rfl⟩⟩
    rw [Operation.plan, dispatchLocalAdmin, localRevokeInvite_of_pending hk hmem hpending]
    rfl
  | provisioner provisioner request passes action manages expected =>
    refine ⟨fun s' => .ok (.provisioner (.ok s'.revision)), ?_, fun s' => ⟨_, rfl⟩⟩
    have hrequest : provisionerRequest P key amb provisioner request s =
        .ok (.commit (.topology [.putInvite (invite.revoke amb.clock)]) provisionerOk) := by
      refine (provisionerRequest_eq_ok (by rw [action]; simp)).2 ⟨passes, ?_⟩
      rw [dispatchProvisionerMutation, action]
      exact provisionerRevokeInvite_of_pending hk hmem hpending manages expected
    rw [Operation.plan, hrequest]
    rfl

/-! ## The write -/

/-- The database takes an invitation only with a registered owner. -/
theorem Represents.putInvite_owner {db db' : Database} {relayRevision : Nat} {item : InviteRecord}
    (h : Represents db.tables s) (hput : db.applyChange relayRevision (.putInvite item) = .ok db') :
    OwnerRegistered s item := by
  intro ownerId hkind
  -- the row is written with its owner, and the foreign key holds in the new tables
  obtain ⟨db₁, hplace, hput⟩ := of_bind hput
  have htables := Database.execute_eq_ok.1 hput
  have hrow : invitationRow item (some ownerId) ∈ db'.tables.invitations := by
    rw [htables, hkind]
    exact (Keyed.mem_upsert db₁.distinct_invitations).2 (.inl rfl)
  obtain ⟨client, hclient, hid⟩ := db'.invitation_owner hrow rfl
  rw [htables] at hclient
  exact ⟨client, (h.ensurePlaceholder hplace).clients.mem_iff.1 hclient, hid⟩

/-- Writing the revoked record back replaces it in place. -/
theorem upsert_revoke {invites : List InviteRecord} (hd : Keyed.Distinct InviteRecord.id invites)
    (hmem : invite ∈ invites) (now : Int) : Keyed.upsert InviteRecord.id (invite.revoke now) invites =
      invites.map (fun r => if r = invite then r.revoke now else r) := by
  have hid : (invite.revoke now).id = invite.id := rfl
  induction invites with
  | nil => exact absurd hmem List.not_mem_nil
  | cons r rest ih =>
    obtain ⟨hhead, htail⟩ := Keyed.distinct_cons.1 hd
    rw [Keyed.upsert, List.map_cons, hid]
    by_cases hr : r = invite
    · subst hr
      have hrest : rest.map (fun r' => if r' = r then r'.revoke now else r') = rest := by
        refine (List.map_congr_left (fun r' hr' => ?_)).trans (List.map_id rest)
        exact if_neg (fun heq => hhead r' hr' (congrArg InviteRecord.id heq))
      rw [if_pos rfl, if_pos rfl, hrest]
    · have hrest := (List.mem_cons.1 hmem).resolve_left (Ne.symm hr)
      rw [if_neg (fun heq => hhead invite hrest heq.symm), if_neg hr, ih htail hrest]

theorem revoke_commit (hk : s.Keyed) (hmem : invite ∈ s.invites) (now : Int) :
    (StateDelta.topology [.putInvite (invite.revoke now)]).commit s = s.revoking invite now := by
  unfold ControlState.revoking
  rw [← upsert_revoke hk.invites hmem]
  rfl

/-- The delta is accepted exactly when the owner is registered. -/
theorem revoke_accepted_iff {db : Database} (h : Represents db.tables s) (hmem : invite ∈ s.invites)
    (now : Int) (relayRevision : Nat) :
    (∃ db', db.applyChange relayRevision (.putInvite (invite.revoke now)) = .ok db') ↔
      OwnerRegistered s invite := by
  constructor
  · rintro ⟨db', hput⟩
    have howner : OwnerRegistered s (invite.revoke now) := h.putInvite_owner hput
    exact howner
  · intro howner
    refine h.putInvite_succeeds (by simp [InviteRecord.revoke]) howner ?_
    -- the request id is that of the record itself
    intro other hother hne q hq hq'
    have hid : other.id = invite.id :=
      congrArg InviteRecord.id (h.requestId_unique hother hmem hq hq')
    exact hne hid

/-- A commit has carried out its statements. -/
theorem commitDelta_changes {ioError : Option String} {store store' : Store} {delta : StateDelta}
    (h : commitDelta ioError store delta = .ok store') :
    ∃ relayRevision db', foldAll (Database.applyChange relayRevision) store.database delta.changes =
      .ok db' := by
  obtain ⟨_, _, h⟩ := of_bind h
  obtain ⟨relayRevision, _, h⟩ := of_bind h
  obtain ⟨_, hsync, _⟩ := of_bind h
  have hsync := transaction_eq_ok (mapError_eq_ok.1 hsync)
  obtain ⟨_, _, hsync⟩ := of_bind hsync
  obtain ⟨_, _, hsync⟩ := of_bind hsync
  obtain ⟨db', hfold, _⟩ := of_bind hsync
  exact ⟨relayRevision, db', hfold⟩

/-! ## The request -/

/-- **A pending invitation can be revoked exactly while its owner is registered.** In every reachable
    state, whatever the kind of the invitation and whether it has expired or not, a request of the local
    administrator or of its Provisioner revokes it, in memory and in the database and changing nothing
    else, if and only if it is not for an edge or the client it is for is registered. -/
theorem pending_invitation_is_revoked_iff (hr : (control P key).Reachable w)
    (hrun : w.process = some s) (hio : amb.ioError = none) (hfits : I64.Fits (s.revision + 1))
    (hmem : invite ∈ s.invites) (hpending : invite.state = .pending)
    (hop : Revokes amb s invite op) :
    Revoked amb s invite (w.operate P key amb op s) ↔ OwnerRegistered s invite := by
  obtain ⟨l, hl, href⟩ := exists_ledger hr
  obtain rfl := href.process s hrun
  have hk := href.represents.keyed
  obtain ⟨respond, hplan, hanswers⟩ := hop.plan hk hmem hpending key
  constructor
  · rintro ⟨⟨answer, hanswer⟩, _, _⟩
    cases hcommit : commitDelta amb.ioError ⟨w.database, l.state⟩
        (.topology [.putInvite (invite.revoke amb.clock)]) with
    | error e => simp [World.operate, hplan, Plan.run, hcommit] at hanswer
    | ok store =>
      obtain ⟨relayRevision, _, hfold⟩ := commitDelta_changes hcommit
      obtain ⟨db', hput, _⟩ := of_bind hfold
      exact (revoke_accepted_iff href.represents hmem amb.clock relayRevision).1 ⟨db', hput⟩
  · intro howner
    have haccepted : ∃ db', w.database.applyChange l.state.relayRevision
        (.putInvite (invite.revoke amb.clock)) = .ok db' :=
      (revoke_accepted_iff href.represents hmem amb.clock _).2 howner
    obtain ⟨store, hcommit⟩ : ∃ store, commitDelta none ⟨w.database, l.state⟩
        (.topology [.putInvite (invite.revoke amb.clock)]) = .ok store :=
      href.represents.commitDelta_succeeds hfits (Ledger.fits_of_reachable hl).2 (fold_one haccepted)
    obtain ⟨hstate, hrep, _⟩ := commitDelta_eq_ok href.represents hcommit
    rw [revoke_commit hk hmem] at hstate
    rw [hstate] at hrep
    obtain ⟨answer, hanswer⟩ := hanswers store.state
    have houtcome : (w.operate P key amb op l.state).1 = .ok answer ∧
        (w.operate P key amb op l.state).2.process = some store.state ∧
        (w.operate P key amb op l.state).2.database = store.database := by
      simp only [World.operate, hplan, Plan.run, hio, hcommit, hanswer, and_self]
    refine ⟨⟨answer, houtcome.1⟩, ?_, ?_⟩
    · rw [houtcome.2.1, hstate]
    · rw [houtcome.2.2]
      exact hrep

section Example

open Reference

/-- A client `a` has enrolled, and an edge has been invited for it. -/
def inviteEdgeOfClient (ttlSecs : Nat) : List (Event (platform [])) :=
  enrolClient (platform []) controlKey nodeKey ++
    [.operate (fun _ => .localAdmin (.inviteEdge "e" "a" ttlSecs)) "invite-e"]

/-- An invitation whose owner is registered is revoked. -/
theorem edge_invitation_is_revoked : ∃ w s invite,
    (control (platform []) controlKey).Reachable w ∧ w.process = some s ∧ invite ∈ s.invites ∧
      invite.id = "invite-e" ∧ Revoked (w.ambient s "revoke") s invite
        (w.operate (platform []) controlKey (w.ambient s "revoke")
          (.localAdmin (.revokeInvite invite.id)) s) := by
  obtain ⟨w, hr, hcheck⟩ := World.exists_after controlKey (fun _ _ _ => True) (inviteEdgeOfClient 60)
    (fun w => w.process.any (fun s => I64.Fits (s.revision + 1) ∧ s.invites.any (fun r =>
      r.id = "invite-e" ∧ r.state = .pending ∧
        s.clients.any (fun client => r.invite.kind = .edge client.endpointId))))
    (by decide +kernel)
  obtain ⟨s, hs, hcheck⟩ := (Option.any_eq_true _ _).1 hcheck
  obtain ⟨hfits, hcheck⟩ := of_decide_eq_true hcheck
  obtain ⟨invite, hmem, hcheck⟩ := List.any_eq_true.1 hcheck
  obtain ⟨hid, hpending, howner⟩ := of_decide_eq_true hcheck
  obtain ⟨client, hclient, hkind⟩ := List.any_eq_true.1 howner
  refine ⟨w, s, invite, hr, hs, hmem, hid,
    (pending_invitation_is_revoked_iff hr hs rfl hfits hmem hpending .localAdmin).2 ?_⟩
  intro ownerId howner
  exact ⟨client, hclient, InviteKind.edge.inj ((of_decide_eq_true hkind).symm.trans howner)⟩

/-- The message of a refused request. -/
def refusal {α : Type} : Except ApiError α → Option String
  | .error e => some e.message
  | .ok _ => none

/-- The invitation of an edge expires, its owner is removed, and the local administrator revokes the
    invitation: the request fails on the foreign key. -/
theorem expired_invitation_of_removed_client_is_not_revoked : ∃ w s invite amb,
    (control (platform []) controlKey).Reachable w ∧ w.process = some s ∧ amb.Admissible w ∧
      amb.ioError = none ∧ I64.Fits (s.revision + 1) ∧ invite ∈ s.invites ∧
      invite.state = .pending ∧
      refusal (w.operate (platform []) controlKey amb (.localAdmin (.revokeInvite invite.id)) s).1 =
        some Constraint.invitationsOwner.message := by
  obtain ⟨w, hr, hcheck⟩ := World.exists_after controlKey (fun _ _ _ => True)
    (inviteEdgeOfClient 60 ++
      [.tick 100, .operate (fun _ => .localAdmin (.removeClient "a")) "remove-a"])
    (fun w => w.process.any (fun s => "revoke" ∉ w.drawn ∧ I64.Fits (s.revision + 1) ∧
      s.invites.any (fun r => r.state = .pending ∧
        refusal (w.operate (platform []) controlKey (w.ambient s "revoke")
          (.localAdmin (.revokeInvite r.id)) s).1 = some Constraint.invitationsOwner.message)))
    (by decide +kernel)
  obtain ⟨s, hs, hcheck⟩ := (Option.any_eq_true _ _).1 hcheck
  obtain ⟨hfresh, hfits, hcheck⟩ := of_decide_eq_true hcheck
  obtain ⟨invite, hmem, hcheck⟩ := List.any_eq_true.1 hcheck
  obtain ⟨hpending, hrefused⟩ := of_decide_eq_true hcheck
  exact ⟨w, s, invite, w.ambient s "revoke", hr, hs, World.ambient_admissible hr hs hfresh, rfl, hfits,
    hmem, hpending, hrefused⟩

end Example

end AgentScale.Control
