import AgentScale.Control.Invitations
import AgentScale.Control.Partition
import AgentScale.Control.Constraints

set_option autoImplicit false

/-! # Requests that are delivered again

A Provisioner retries a request that it has no answer to. Whether a retry is harmless is decided by
what the state offers at that time: a withdrawal is carried out again when its target is back
(`withdrawals_are_idempotent`), and an invitation is returned as long as its owner can be resolved
(`invitation_retries_agree`). Request ids are compared within a Provisioner in memory, but across all
principals by the database (`invitation_is_created_iff`). -/

namespace AgentScale.Control

open Checked ControlApi

variable {P : Platform} {key : SecretKey} {amb : Ambient} {s s' : ControlState} {delta : StateDelta}
  {provisioner : EndpointId P} {request : ProvisionerRequest}

/-! ## Withdrawals -/

/-- The actions that revoke, remove or move something. -/
def Withdraws : ProvisionerAction → Prop
  | .revokeInvite _ | .removeClient _ | .removeEdge .. | .transferEdge .. => True
  | .getTopology | .inviteClient .. | .inviteEdge .. => False

/-- Nothing of the Provisioner answers to what the action names. An invitation is named by an id that
    is never used again, the other targets by names. -/
def TargetGone (P : Platform) (s : ControlState) (provisionerId : String) :
    ProvisionerAction → Prop
  | .removeClient name =>
    ∀ client ∈ s.clients, client.name = name → client.managedBy ≠ some provisionerId
  | .removeEdge owner name =>
    ∀ client ∈ s.clients, client.name = owner → client.managedBy = some provisionerId →
      ∀ edge ∈ s.edges, edge.ownerId = client.endpointId → edge.name ≠ name
  | .transferEdge owner name endpointId _ =>
    ∀ client ∈ s.clients, client.name = owner → client.managedBy = some provisionerId →
      ∀ edge ∈ s.edges, edge.ownerId = client.endpointId → edge.name = name →
        ∀ parsed, parseEndpointId P endpointId = some parsed → edge.endpointId ≠ parsed.text
  | .revokeInvite _ | .getTopology | .inviteClient .. | .inviteEdge .. => True

/-- What a withdrawal commits: it revokes the pending invitation it names, or its target is there. -/
theorem withdrawal_target {respond : ControlState → Except ApiError ProvisionerResponse}
    (haction : Withdraws request.action)
    (h : provisionerRequest P key amb provisioner request s = .ok (.commit delta respond)) :
    (∃ invite ∈ s.invites, request.action = .revokeInvite invite.id ∧ invite.state = .pending ∧
      delta = .topology [.putInvite (invite.revoke amb.clock)]) ∨
    ¬ TargetGone P s provisioner.text request.action := by
  have hquery : request.action ≠ .getTopology := by
    intro hquery
    rw [hquery] at haction
    exact haction
  obtain ⟨_, h⟩ := (provisionerRequest_eq_ok hquery).1 h
  unfold dispatchProvisionerMutation at h
  cases hkind : request.action with
  | getTopology | inviteClient | inviteEdge =>
    rw [hkind] at haction
    exact haction.elim
  | revokeInvite inviteId =>
    simp only [hkind] at h
    obtain ⟨invite, hmem, rfl, _, hpending, _, hdelta⟩ := provisionerRevokeInvite_eq_commit h
    exact .inl ⟨invite, hmem, rfl, hpending, hdelta⟩
  | removeClient name =>
    simp only [hkind] at h
    obtain ⟨client, hmem, hname, hmanaged, _⟩ := provisionerRemoveClient_eq_commit h
    exact .inr (fun hgone => hgone client hmem hname hmanaged)
  | removeEdge owner name =>
    simp only [hkind] at h
    obtain ⟨client, hclient, hname, hmanaged, edge, hmem, hownerId, hedge, _⟩ :=
      provisionerRemoveEdge_eq_commit h
    exact .inr (fun hgone => hgone client hclient hname hmanaged edge hmem hownerId hedge)
  | transferEdge owner name endpointId newOwner =>
    simp only [hkind] at h
    obtain ⟨parsed, hparsed, client, hclient, hname, hmanaged, _, _, _, _, edge, hmem, hownerId,
      hedge, hendpoint, _⟩ := provisionerTransferEdge_eq_commit h
    exact .inr (fun hgone => hgone client hclient hname hmanaged edge hmem hownerId hedge parsed
      hparsed hendpoint)

/-- **Withdrawals are idempotent as long as their target stays away.** After a request to revoke,
    remove or move something has taken effect, and whatever has happened since, delivering it again
    changes nothing unless the Provisioner has something again that answers to the name. A request to
    revoke an invitation never takes effect twice. -/
theorem withdrawals_are_idempotent {w w₂ : World} {s₂ : ControlState} {amb₂ : Ambient}
    (hr : (control P key).Reachable w) (hrun : w.process = some s) (hamb : amb.Admissible w)
    (haction : Withdraws request.action)
    (hmoved : ¬ w.Unmoved (w.operate P key amb (.provisioner provisioner request) s).2)
    (hsteps : (control P key).Steps (w.operate P key amb (.provisioner provisioner request) s).2 w₂)
    (hrun₂ : w₂.process = some s₂) (hgone : TargetGone P s₂ provisioner.text request.action) :
    w₂.Unmoved (w₂.operate P key amb₂ (.provisioner provisioner request) s₂).2 := by
  refine World.unmoved_of_plan hrun₂ (fun delta₂ respond₂ hplan₂ => ?_)
  obtain ⟨_, hrequest₂, _⟩ := map_eq_commit hplan₂
  rcases withdrawal_target haction hrequest₂ with ⟨invite₂, hmem₂, hrevokes₂, hpending₂, _⟩ | hback
  · -- the first delivery has revoked this very invitation, and it stays revoked
    obtain ⟨l, _, href⟩ := exists_ledger hr
    obtain ⟨delta, respond, hplan, hprocess, _⟩ :=
      (World.operate_cases href hrun).resolve_left hmoved
    obtain ⟨_, hrequest, _⟩ := map_eq_commit hplan
    rcases withdrawal_target haction hrequest with ⟨invite, hmem, hrevokes, _, rfl⟩ | hback
    · have hr' := hr.step (.operate w amb (.provisioner provisioner request) s hrun hamb trivial)
      have hk := (href.process s hrun) ▸ href.represents.keyed
      have hid : invite₂.id = invite.id :=
        ProvisionerAction.revokeInvite.inj (hrevokes₂.symm.trans hrevokes)
      have hrevoked : invite.revoke amb.clock ∈
          (StateDelta.commit (.topology [.putInvite (invite.revoke amb.clock)]) s).invites :=
        (Keyed.mem_upsert hk.invites).2 (.inl rfl)
      have hevolves := World.Shows.evolves hr' hsteps (.inl hprocess) (.inl hrun₂) hrevoked hmem₂ hid
      rw [hevolves.of_terminal (by simp [InviteRecord.revoke])] at hpending₂
      exact absurd hpending₂ (by simp [InviteRecord.revoke])
    · rw [hrevokes₂] at hback
      exact hback trivial
  · exact hback hgone

section Example

open Reference

/-- The Provisioner's request to remove the edge `e` of its client `b`, whatever the revision. -/
def removeEdgeRequest : ProvisionerRequest :=
  { protocolVersion := CONTROL_PROTOCOL_VERSION, audience := "agents", requestId := "request-2",
    issuedAt := 0, expectedRevision := none, action := .removeEdge "b" "e" }

/-- The edge `e` of the client `b` enrols. -/
def enrolManagedEdge (inviteId claimId : String) : List (Event (platform [])) :=
  [.operate (fun _ => .localAdmin (.inviteEdge "e" "b" 3600)) inviteId,
    .operate (claimRequest (platform []) controlKey otherKey 0 inviteId) claimId]

/-- The world in which the request has been served. -/
def World.afterEdgeRemoval (w : World) (s : ControlState) (token : String) : World :=
  (w.operate (platform []) controlKey (w.ambient s token)
    (.provisioner (otherKey.public (platform [])) removeEdgeRequest) s).2

/-- The edge of a managed client has enrolled, and the request to remove it takes effect. -/
theorem exists_edge_removal (later : List (Event (platform []))) (check : World → Bool)
    (h : (World.after controlKey (fun _ _ _ => True)
      (manageClient (platform []) controlKey nodeKey otherKey ++
        enrolManagedEdge "invite-e" "claim-e")).any (fun w => w.process.any (fun s =>
          "remove-e" ∉ w.drawn ∧ s.edges ≠ [] ∧
          (w.afterEdgeRemoval s "remove-e").process.any (fun s' => s'.edges = []) = true ∧
          (Transition.runAll (World.perform controlKey (fun _ _ _ => True))
            (w.afterEdgeRemoval s "remove-e") later).any check = true)) = true) :
    ∃ w s w₂, (control (platform []) controlKey).Reachable w ∧ w.process = some s ∧
      (w.ambient s "remove-e").Admissible w ∧ ¬ w.Unmoved (w.afterEdgeRemoval s "remove-e") ∧
      (control (platform []) controlKey).Steps (w.afterEdgeRemoval s "remove-e") w₂ ∧
      check w₂ = true := by
  obtain ⟨w, hr, hcheck⟩ := World.exists_after controlKey _ _ _ h
  obtain ⟨s, hs, hcheck⟩ := (Option.any_eq_true _ _).1 hcheck
  obtain ⟨hfresh, hedges, hremoved, hlater⟩ := of_decide_eq_true hcheck
  obtain ⟨s', hs', hempty⟩ := (Option.any_eq_true _ _).1 hremoved
  obtain ⟨w₂, hrun, hcheck₂⟩ := (Option.any_eq_true _ _).1 hlater
  have hamb := World.ambient_admissible hr hs hfresh
  refine ⟨w, s, w₂, hr, hs, hamb, ?_, ?_, hcheck₂⟩
  · rintro ⟨_, hsame⟩
    cases hs'.symm.trans (hsame.trans hs)
    exact hedges (of_decide_eq_true hempty)
  · exact World.steps_of_run (hr.step (.operate w _ _ s hs hamb trivial)) hrun

/-- Delivered again at once, the removal of an edge changes nothing. -/
theorem edge_removal_is_idempotent : ∃ w s w₂ s₂, (control (platform []) controlKey).Reachable w ∧
    w.process = some s ∧ ¬ w.Unmoved (w.afterEdgeRemoval s "remove-e") ∧
    (control (platform []) controlKey).Steps (w.afterEdgeRemoval s "remove-e") w₂ ∧
    w₂.process = some s₂ ∧ s₂.clients ≠ [] ∧ w₂.Unmoved (w₂.afterEdgeRemoval s₂ "again") := by
  obtain ⟨w, s, w₂, hr, hs, hamb, hmoved, hsteps, hcheck⟩ := exists_edge_removal []
    (fun w₂ => w₂.process.any (fun s₂ => s₂.clients ≠ [] ∧ s₂.edges = [])) (by decide +kernel)
  obtain ⟨s₂, hs₂, hcheck⟩ := (Option.any_eq_true _ _).1 hcheck
  obtain ⟨hclients, hedges⟩ := of_decide_eq_true hcheck
  have haction : Withdraws removeEdgeRequest.action := trivial
  refine ⟨w, s, w₂, s₂, hr, hs, hmoved, hsteps, hs₂, hclients, ?_⟩
  refine withdrawals_are_idempotent hr hs hamb haction hmoved hsteps hs₂ ?_
  intro _ _ _ _ edge hedge
  rw [hedges] at hedge
  exact absurd hedge List.not_mem_nil

/-- The edge has enrolled again under its name before the removal is delivered a second time, and is
    removed again. -/
theorem redelivered_removal_removes_new_edge : ∃ w s w₂ s₂,
    (control (platform []) controlKey).Reachable w ∧ w.process = some s ∧
      (w.ambient s "remove-e").Admissible w ∧ ¬ w.Unmoved (w.afterEdgeRemoval s "remove-e") ∧
      (control (platform []) controlKey).Steps (w.afterEdgeRemoval s "remove-e") w₂ ∧
      w₂.process = some s₂ ∧ (w₂.ambient s₂ "again").Admissible w₂ ∧
      checkTime removeEdgeRequest.issuedAt w₂.clock = .ok () ∧
      ¬ w₂.Unmoved (w₂.afterEdgeRemoval s₂ "again") := by
  obtain ⟨w, s, w₂, hr, hs, hamb, hmoved, hsteps, hcheck⟩ :=
    exists_edge_removal (enrolManagedEdge "invite-e-2" "claim-e-2")
    (fun w₂ => w₂.process.any (fun s₂ => "again" ∉ w₂.drawn ∧ w₂.clock = 0 ∧ s₂.edges ≠ [] ∧
      (w₂.afterEdgeRemoval s₂ "again").process.any (fun s' => s'.edges = []) = true))
    (by decide +kernel)
  obtain ⟨s₂, hs₂, hcheck⟩ := (Option.any_eq_true _ _).1 hcheck
  obtain ⟨hfresh, hclock, hedges, hremoved⟩ := of_decide_eq_true hcheck
  obtain ⟨s', hs', hempty⟩ := (Option.any_eq_true _ _).1 hremoved
  have hr₂ := (hr.step (.operate w _ _ s hs hamb trivial)).steps hsteps
  refine ⟨w, s, w₂, s₂, hr, hs, hamb, hmoved, hsteps, hs₂, World.ambient_admissible hr₂ hs₂ hfresh,
    by rw [hclock]; rfl, ?_⟩
  rintro ⟨_, hsame⟩
  cases hs'.symm.trans (hsame.trans hs₂)
  exact hedges (of_decide_eq_true hempty)

end Example

/-! ## Invitations -/

def Invites : ProvisionerAction → Prop
  | .inviteClient .. | .inviteEdge .. => True
  | .getTopology | .revokeInvite _ | .removeClient _ | .removeEdge .. | .transferEdge .. => False

/-- What an action asks to be invited to, in the state at hand. -/
inductive Resolves (s : ControlState) (provisionerId : String) :
    ProvisionerAction → String → InviteKind → Nat → String → Prop
  | client (name : String) (ttlSecs : Nat) (secret : String) :
      Resolves s provisionerId (.inviteClient name ttlSecs secret) name .client ttlSecs secret
  | edge (owner name : String) (ttlSecs : Nat) (secret ownerId : String)
      (owned : managedClientId s owner provisionerId = .ok ownerId) :
      Resolves s provisionerId (.inviteEdge owner name ttlSecs secret) name (.edge ownerId) ttlSecs
        secret

/-- The owner an action names, if it names one, is a client of the Provisioner. -/
def OwnerManaged (s : ControlState) (provisionerId : String) : ProvisionerAction → Prop
  | .inviteEdge owner _ _ _ =>
    ∃ client ∈ s.clients, client.name = owner ∧ client.managedBy = some provisionerId
  | _ => True

section Resolution

variable {provisionerId : String} {action : ProvisionerAction} {name name' secret secret' : String}
  {kind kind' : InviteKind} {ttlSecs ttlSecs' : Nat}

/-- Only the kind depends on the state. -/
theorem Resolves.same (h : Resolves s provisionerId action name kind ttlSecs secret)
    (h' : Resolves s' provisionerId action name' kind' ttlSecs' secret') :
    name' = name ∧ secret' = secret := by
  cases h <;> cases h' <;> exact ⟨rfl, rfl⟩

theorem Resolves.invites (h : Resolves s provisionerId action name kind ttlSecs secret) :
    Invites action := by
  cases h <;> trivial

theorem Resolves.ownerManaged (h : Resolves s provisionerId action name kind ttlSecs secret) :
    OwnerManaged s provisionerId action := by
  cases h with
  | client => trivial
  | edge owner _ _ _ ownerId owned =>
    obtain ⟨client, hclient, hname, _, hmanaged⟩ := managedClientId_eq_ok owned
    exact ⟨client, hclient, hname, hmanaged⟩

theorem OwnerManaged.resolves (h : OwnerManaged s provisionerId action) (haction : Invites action) :
    ∃ name kind ttlSecs secret, Resolves s provisionerId action name kind ttlSecs secret := by
  cases action with
  | inviteClient name ttlSecs secret => exact ⟨_, _, _, _, .client name ttlSecs secret⟩
  | inviteEdge owner name ttlSecs secret =>
    obtain ⟨client, hclient, hname, hmanaged⟩ := h
    have hfound : ∃ found, managedClient s owner provisionerId = some found := by
      refine Option.isSome_iff_exists.1 (List.find?_isSome.2 ⟨client, hclient, ?_⟩)
      simp [hname, hmanaged]
    obtain ⟨found, hfound⟩ := hfound
    refine ⟨_, _, _, _, .edge owner name ttlSecs secret found.endpointId (okOr_eq_ok.2 ?_)⟩
    rw [hfound, Option.map_some]
  | getTopology | revokeInvite | removeClient | removeEdge | transferEdge => exact haction.elim

/-- An invitation is dispatched once its owner has been resolved. -/
theorem dispatch_invite {plan : Plan ProvisionerResponse} (haction : Invites request.action) :
    dispatchProvisionerMutation P key amb provisionerId request s = .ok plan ↔
      ∃ name kind ttlSecs secret,
        Resolves s provisionerId request.action name kind ttlSecs secret ∧
        provisionerInvite P key amb provisionerId request name kind ttlSecs secret s = .ok plan := by
  unfold dispatchProvisionerMutation
  cases hkind : request.action with
  | inviteClient name ttlSecs secret =>
    constructor
    · exact fun h => ⟨_, _, _, _, .client name ttlSecs secret, h⟩
    · rintro ⟨_, _, _, _, ⟨⟩, h⟩
      exact h
  | inviteEdge owner name ttlSecs secret =>
    constructor
    · intro h
      obtain ⟨ownerId, howned, h⟩ := of_bind h
      exact ⟨_, _, _, _, .edge owner name ttlSecs secret ownerId howned, h⟩
    · rintro ⟨_, _, _, _, ⟨⟩ | ⟨_, _, _, _, ownerId, howned⟩, h⟩
      exact bind_ok howned h
  | getTopology | revokeInvite | removeClient | removeEdge | transferEdge =>
    rw [hkind] at haction
    exact haction.elim

/-- A request whose id has been used before is compared with the invitation it was used for. -/
theorem provisionerInvite_used {existing : InviteRecord} {plan : Plan ProvisionerResponse}
    (hused : s.invites.find? (fun item => item.managedBy = some provisionerId &&
      item.requestId = some request.requestId) = some existing) :
    provisionerInvite P key amb provisionerId request name kind ttlSecs secret s = .ok plan ↔
      validateName name = .ok () ∧ validateJoinSecret secret = .ok () ∧
        existing.requestHash = some (actionHash P request.action) ∧
        ∃ result, inviteResult P key existing.invite secret = .ok result ∧
          plan = .reply (.invite result) := by
  constructor
  · intro h
    obtain ⟨_, hname, h⟩ := of_bind h
    obtain ⟨_, hsecret, h⟩ := of_bind h
    rw [hused] at h
    obtain ⟨_, hhash, h⟩ := of_bind h
    obtain ⟨result, hresult, h⟩ := of_bind h
    exact ⟨mapError_eq_ok.1 hname, mapError_eq_ok.1 hsecret, ensure_eq_ok.1 hhash, result,
      mapError_eq_ok.1 hresult, (pure_eq_ok.1 h).symm⟩
  · rintro ⟨hname, hsecret, hhash, result, hresult, rfl⟩
    refine bind_ok (mapError_eq_ok.2 hname) (bind_ok (mapError_eq_ok.2 hsecret) ?_)
    rw [hused]
    exact bind_ok (ensure_of hhash)
      (bind_ok (mapError_eq_ok.2 hresult) rfl)

end Resolution

theorem Invites.ne_getTopology {action : ProvisionerAction} (h : Invites action) :
    action ≠ .getTopology := by
  rintro rfl
  exact h

/-- An accepted request to invite has passed the checks and resolved its owner. -/
theorem invite_plan {plan : Plan Response} (haction : Invites request.action)
    (h : (Operation.provisioner provisioner request).plan P key amb s = .ok plan) :
    Passes amb s provisioner request ∧ ∃ name kind ttlSecs secret inner,
      Resolves s provisioner.text request.action name kind ttlSecs secret ∧
      provisionerInvite P key amb provisioner.text request name kind ttlSecs secret s = .ok inner ∧
      plan = inner.map .provisioner := by
  obtain ⟨inner, hrequest, rfl⟩ := map_eq_ok h
  obtain ⟨hpasses, hdispatch⟩ := (provisionerRequest_eq_ok haction.ne_getTopology).1 hrequest
  obtain ⟨name, kind, ttlSecs, secret, hresolves, hinvite⟩ := (dispatch_invite haction).1 hdispatch
  exact ⟨hpasses, name, kind, ttlSecs, secret, inner, hresolves, hinvite, rfl⟩

/-- What a request that has created an invitation leaves behind. -/
structure Created (P : Platform) (key : SecretKey) (provisionerId : String)
    (request : ProvisionerRequest) (result : InviteResult) (name secret : String)
    (record : InviteRecord) : Prop where
  validName : validateName name = .ok ()
  validSecret : validateJoinSecret secret = .ok ()
  secretHash : hashSecret P secret = record.invite.secretHash
  answer : result = ⟨record.id, (JoinToken.new P record.invite secret key).joinUrl P,
    record.invite.expiresAt⟩
  requestId : record.requestId = some request.requestId
  managedBy : record.managedBy = some provisionerId
  requestHash : record.requestHash = some (actionHash P request.action)

variable {result : InviteResult}

theorem Created.evolves {provisionerId name secret : String} {record record' : InviteRecord}
    {ends : Int → Prop} (h : Created P key provisionerId request result name secret record)
    (hevolves : record.Evolves ends record') :
    Created P key provisionerId request result name secret record' := by
  obtain ⟨hinvite, hrequest, hmanaged, hhash⟩ := hevolves.fixed
  exact ⟨h.validName, h.validSecret, hinvite ▸ h.secretHash, hevolves.id ▸ hinvite ▸ h.answer,
    hrequest ▸ h.requestId, hmanaged ▸ h.managedBy, hhash ▸ h.requestHash⟩

/-- A request that has changed something and answers with an invitation has created it. -/
theorem World.created {w : World} {l : Ledger} (href : Refines w l) (hrun : w.process = some s)
    (haction : Invites request.action)
    (hanswer : (w.operate P key amb (.provisioner provisioner request) s).1 = .ok (.provisioner (.invite result)))
    (hmoved : ¬ w.Unmoved (w.operate P key amb (.provisioner provisioner request) s).2) :
    ∃ name kind ttlSecs secret record s',
      Resolves s provisioner.text request.action name kind ttlSecs secret ∧
      (w.operate P key amb (.provisioner provisioner request) s).2.process = some s' ∧
      record ∈ s'.invites ∧ Created P key provisioner.text request result name secret record := by
  obtain ⟨delta, respond, hplan, hprocess, hrespond⟩ :=
    (World.operate_cases href hrun).resolve_left hmoved
  obtain ⟨_, name, kind, ttlSecs, secret, inner, hresolves, hinvite, hinner⟩ := invite_plan haction hplan
  cases inner with
  | reply => exact absurd hinner (by simp [Plan.map])
  | commit delta' respond' =>
    obtain ⟨rfl, rfl⟩ := Plan.commit.inj hinner
    obtain ⟨result', record, hissues, rfl, rfl⟩ := provisionerInvite_eq_commit.1 hinvite
    obtain rfl : result' = result := by
      simpa [Except.map] using hrespond.symm.trans hanswer
    obtain ⟨hid, _, _⟩ := buildInvite_eq_ok P hissues.built
    obtain ⟨_, hsecret, _, _, hresult⟩ := buildInvite_spec P hissues.built
    have hk := (href.process s hrun) ▸ href.represents.keyed
    refine ⟨name, kind, ttlSecs, secret, record.issuedBy P provisioner.text request, _, hresolves,
      hprocess, (Keyed.mem_upsert hk.invites).2 (.inl rfl), hissues.validName, hissues.validSecret,
      hsecret.symm, ?_, rfl, rfl, rfl⟩
    rw [hresult]
    exact congrArg (fun id => InviteResult.mk id _ _) hid.symm

/-- The invitation a request has created is the one that is found under its request id. -/
theorem Created.find {db : Database} {provisionerId name secret : String} {record : InviteRecord}
    (h : Created P key provisionerId request result name secret record)
    (hrep : Represents db.tables s) (hmem : record ∈ s.invites) :
    s.invites.find? (fun item => item.managedBy = some provisionerId &&
      item.requestId = some request.requestId) = some record := by
  have hsome : (s.invites.find? (fun item => item.managedBy = some provisionerId &&
      item.requestId = some request.requestId)).isSome = true :=
    List.find?_isSome.2 ⟨record, hmem, by simp [h.managedBy, h.requestId]⟩
  obtain ⟨found, hfound⟩ := Option.isSome_iff_exists.1 hsome
  obtain ⟨hfoundMem, _, hfoundId⟩ := Lists.find?_and_eq_some hfound
  rwa [hrep.requestId_unique hmem hfoundMem h.requestId hfoundId]

/-- **Invitation retries agree.** As long as the invitation that a request has created is retained,
    and whatever has happened to it and around it, a request with the same id and action is answered
    with the same invitation and changes nothing, if and only if it passes the checks made of every
    request and the owner it names is a client of the Provisioner. With another action it is refused
    and changes nothing. -/
theorem invitation_retries_agree {w w₂ : World} {s₂ : ControlState} {result : InviteResult}
    (hr : (control P key).Reachable w) (hrun : w.process = some s) (hamb : amb.Admissible w)
    (haction : Invites request.action)
    (hanswer : (w.operate P key amb (.provisioner provisioner request) s).1 =
      .ok (.provisioner (.invite result)))
    (hmoved : ¬ w.Unmoved (w.operate P key amb (.provisioner provisioner request) s).2)
    (hsteps : (control P key).Steps (w.operate P key amb (.provisioner provisioner request) s).2 w₂)
    (hrun₂ : w₂.process = some s₂) (hretained : ∃ record ∈ s₂.invites, record.id = result.inviteId)
    (amb₂ : Ambient) {request₂ : ProvisionerRequest} (hid : request₂.requestId = request.requestId) :
    (request₂.action = request.action →
      ((w₂.operate P key amb₂ (.provisioner provisioner request₂) s₂).1 =
          .ok (.provisioner (.invite result)) ∧
        w₂.Unmoved (w₂.operate P key amb₂ (.provisioner provisioner request₂) s₂).2 ↔
      Passes amb₂ s₂ provisioner request₂ ∧
        OwnerManaged s₂ provisioner.text request₂.action)) ∧
    (Invites request₂.action → request₂.action ≠ request.action →
      (actionHash P request₂.action = actionHash P request.action →
        request₂.action = request.action) →
      (∃ e, (w₂.operate P key amb₂ (.provisioner provisioner request₂) s₂).1 = .error e) ∧
        w₂.Unmoved (w₂.operate P key amb₂ (.provisioner provisioner request₂) s₂).2) := by
  obtain ⟨l, _, href⟩ := exists_ledger hr
  obtain ⟨name, kind, ttlSecs, secret, record, s', hresolves, hprocess, hrecord, hcreated⟩ :=
    World.created href hrun haction hanswer hmoved
  have hr' := hr.step (.operate w amb (.provisioner provisioner request) s hrun hamb trivial)
  obtain ⟨l₂, _, href₂⟩ := exists_ledger (hr'.steps hsteps)
  have hrep₂ : Represents w₂.database.tables s₂ := (href₂.process s₂ hrun₂) ▸ href₂.represents
  -- the record that is retained is the one that was created, and is found under the request id
  obtain ⟨record₂, hrecord₂, hid₂⟩ := hretained
  have hrecordId : record.id = result.inviteId := (congrArg InviteResult.inviteId hcreated.answer).symm
  have hcreated₂ := hcreated.evolves (World.Shows.evolves hr' hsteps (.inl hprocess) (.inl hrun₂)
    hrecord hrecord₂ (hid₂.trans hrecordId.symm))
  have hused := hcreated₂.find hrep₂ hrecord₂
  rw [← hid] at hused
  refine ⟨fun hsame => ⟨?_, ?_⟩, fun haction₂ hother hcollision => ?_⟩
  · rintro ⟨hresult, _⟩
    have haction₂ : Invites request₂.action := hsame ▸ haction
    cases hplan : (Operation.provisioner provisioner request₂).plan P key amb₂ s₂ with
    | error e =>
      rw [World.refused_of_plan hplan] at hresult
      cases hresult
    | ok plan =>
      obtain ⟨hpasses, _, _, _, _, _, hresolves₂, _⟩ := invite_plan haction₂ hplan
      exact ⟨hpasses, hresolves₂.ownerManaged⟩
  · rintro ⟨hpasses, howner⟩
    have haction₂ : Invites request₂.action := hsame ▸ haction
    obtain ⟨name₂, kind₂, ttlSecs₂, secret₂, hresolves₂⟩ := howner.resolves haction₂
    obtain ⟨rfl, rfl⟩ := hresolves.same (hsame ▸ hresolves₂)
    have hresult : inviteResult P key record₂.invite secret₂ = .ok result :=
      bind_ok (ensure_of hcreated₂.secretHash) (congrArg Except.ok hcreated₂.answer.symm)
    have hinvite : provisionerInvite P key amb₂ provisioner.text request₂ name₂ kind₂ ttlSecs₂
        secret₂ s₂ = .ok (.reply (.invite result)) :=
      (provisionerInvite_used hused).2 ⟨hcreated₂.validName, hcreated₂.validSecret,
        hsame ▸ hcreated₂.requestHash, result, hresult, rfl⟩
    have hplan : (Operation.provisioner provisioner request₂).plan P key amb₂ s₂ =
        .ok (.reply (.provisioner (.invite result))) := by
      have hdispatch := (dispatch_invite haction₂).2 ⟨_, _, _, _, hresolves₂, hinvite⟩
      have hrequest := (provisionerRequest_eq_ok haction₂.ne_getTopology).2 ⟨hpasses, hdispatch⟩
      simp only [Operation.plan, hrequest, Except.map, Plan.map]
    exact World.replied_of_plan hrun₂ hplan
  · cases hplan : (Operation.provisioner provisioner request₂).plan P key amb₂ s₂ with
    | error e => exact World.refused_unmoved hrun₂ hplan
    | ok plan =>
      obtain ⟨_, _, _, _, _, _, _, hinvite, _⟩ := invite_plan haction₂ hplan
      obtain ⟨_, _, hhash, _⟩ := (provisionerInvite_used hused).1 hinvite
      have hhash' := Option.some.inj (hhash.symm.trans hcreated₂.requestHash)
      exact absurd (hcollision hhash') hother

section Example

open Reference

/-- The Provisioner's request to invite an edge `e` of its client `b`, whatever the revision. -/
def inviteEdgeRequest : ProvisionerRequest :=
  { protocolVersion := CONTROL_PROTOCOL_VERSION, audience := "agents", requestId := "request-2",
    issuedAt := 0, expectedRevision := none, action := .inviteEdge "b" "e" 3600 joinSecret }

/-- The invitation an answer carries. -/
def invitedBy : Except ApiError Response → Option InviteResult
  | .ok (.provisioner (.invite result)) => some result
  | _ => none

theorem invitedBy_eq_some {answer : Except ApiError Response} (h : invitedBy answer = some result) :
    answer = .ok (.provisioner (.invite result)) := by
  unfold invitedBy at h
  split at h
  · rw [Option.some.inj h]
  · cases h

/-- The request is served in the given world. -/
def World.inviteEdge (w : World) (s : ControlState) (token : String) :
    Except ApiError Response × World :=
  w.operate (platform []) controlKey (w.ambient s token)
    (.provisioner (otherKey.public (platform [])) inviteEdgeRequest) s

/-- A client of the Provisioner has enrolled, and the request to invite an edge of it creates the
    invitation. -/
theorem exists_edge_invitation (later : List (Event (platform [])))
    (check : InviteResult → World → Bool)
    (h : (World.after controlKey (fun _ _ _ => True)
      (manageClient (platform []) controlKey nodeKey otherKey)).any (fun w => w.process.any (fun s =>
        "invite-e" ∉ w.drawn ∧ s.invites.length = 1 ∧
        (w.inviteEdge s "invite-e").2.process.any (fun s' => s'.invites.length = 2) = true ∧
        (invitedBy (w.inviteEdge s "invite-e").1).any (fun result =>
          (Transition.runAll (World.perform controlKey (fun _ _ _ => True))
            (w.inviteEdge s "invite-e").2 later).any (check result)) = true)) = true) :
    ∃ w s w₂ result, (control (platform []) controlKey).Reachable w ∧ w.process = some s ∧
      (w.ambient s "invite-e").Admissible w ∧
      (w.inviteEdge s "invite-e").1 = .ok (.provisioner (.invite result)) ∧
      ¬ w.Unmoved (w.inviteEdge s "invite-e").2 ∧
      (control (platform []) controlKey).Steps (w.inviteEdge s "invite-e").2 w₂ ∧
      check result w₂ = true := by
  obtain ⟨w, hr, hcheck⟩ := World.exists_after controlKey _ _ _ h
  obtain ⟨s, hs, hcheck⟩ := (Option.any_eq_true _ _).1 hcheck
  obtain ⟨hfresh, hone, hcreated, hcheck⟩ := of_decide_eq_true hcheck
  obtain ⟨s', hs', htwo⟩ := (Option.any_eq_true _ _).1 hcreated
  obtain ⟨result, hresult, hlater⟩ := (Option.any_eq_true _ _).1 hcheck
  obtain ⟨w₂, hrun, hcheck₂⟩ := (Option.any_eq_true _ _).1 hlater
  have hamb := World.ambient_admissible hr hs hfresh
  refine ⟨w, s, w₂, result, hr, hs, hamb, invitedBy_eq_some hresult, ?_, ?_, hcheck₂⟩
  · rintro ⟨_, hsame⟩
    cases hs'.symm.trans (hsame.trans hs)
    exact absurd (hone.symm.trans (of_decide_eq_true htwo)) (by decide)
  · exact World.steps_of_run (hr.step (.operate w _ _ s hs hamb trivial)) hrun

/-- After the invitation has been revoked, the retry still returns it. -/
theorem revoked_invitation_is_returned : ∃ w s w₂ s₂ result,
    (control (platform []) controlKey).Reachable w ∧ w.process = some s ∧
      (w.inviteEdge s "invite-e").1 = .ok (.provisioner (.invite result)) ∧
      ¬ w.Unmoved (w.inviteEdge s "invite-e").2 ∧
      (control (platform []) controlKey).Steps (w.inviteEdge s "invite-e").2 w₂ ∧
      w₂.process = some s₂ ∧ (∃ record ∈ s₂.invites, record.state = .revoked) ∧
      (w₂.inviteEdge s₂ "again").1 = .ok (.provisioner (.invite result)) ∧
      w₂.Unmoved (w₂.inviteEdge s₂ "again").2 := by
  obtain ⟨w, s, w₂, result, hr, hs, hamb, hanswer, hmoved, hsteps, hcheck⟩ :=
    exists_edge_invitation [.operate (provisionerAsks (platform []) otherKey 0 "request-3"
      (.revokeInvite "invite-e")) "revoke-e"]
    (fun result w₂ => w₂.process.any (fun s₂ =>
      s₂.invites.any (fun record => record.id = result.inviteId && record.state = .revoked) &&
      s₂.clients.any (fun client => client.name = "b" &&
        client.managedBy = some (publicKey otherKey)) &&
      decide (authorizeProvisioner s₂ "agents" (publicKey otherKey) = .ok () ∧ w₂.clock = 0)))
    (by decide +kernel)
  obtain ⟨s₂, hs₂, hcheck⟩ := (Option.any_eq_true _ _).1 hcheck
  simp only [Bool.and_eq_true, decide_eq_true_eq, List.any_eq_true] at hcheck
  obtain ⟨⟨⟨record, hrecord, hid, hrevoked⟩, client, hclient, hname, hmanaged⟩, hauthorized,
    hclock⟩ := hcheck
  have haction : Invites inviteEdgeRequest.action := trivial
  have hpasses : Passes (w₂.ambient s₂ "again") s₂ (otherKey.public (platform [])) inviteEdgeRequest :=
    ⟨rfl, by rw [World.ambient, hclock]; rfl, by decide +kernel, hauthorized⟩
  refine ⟨w, s, w₂, s₂, result, hr, hs, hanswer, hmoved, hsteps, hs₂, ⟨record, hrecord, hrevoked⟩, ?_⟩
  exact ((invitation_retries_agree hr hs hamb haction hanswer hmoved hsteps hs₂
    ⟨record, hrecord, hid⟩ (w₂.ambient s₂ "again") rfl).1 rfl).2
      ⟨hpasses, client, hclient, hname, hmanaged⟩

/-- After the invitation has been revoked and the client removed, the invitation is still there, but
    the retry is refused. -/
theorem retry_without_owner_is_refused : ∃ w s w₂ s₂ result,
    (control (platform []) controlKey).Reachable w ∧ w.process = some s ∧
      (w.ambient s "invite-e").Admissible w ∧
      (w.inviteEdge s "invite-e").1 = .ok (.provisioner (.invite result)) ∧
      ¬ w.Unmoved (w.inviteEdge s "invite-e").2 ∧
      (control (platform []) controlKey).Steps (w.inviteEdge s "invite-e").2 w₂ ∧
      w₂.process = some s₂ ∧ (w₂.ambient s₂ "again").Admissible w₂ ∧
      Passes (w₂.ambient s₂ "again") s₂ (otherKey.public (platform [])) inviteEdgeRequest ∧
      (∃ record ∈ s₂.invites, record.id = result.inviteId) ∧
      (w₂.inviteEdge s₂ "again").1 = .error (ApiError.bad "unknown managed client 'b'") := by
  obtain ⟨w, s, w₂, result, hr, hs, hamb, hanswer, hmoved, hsteps, hcheck⟩ :=
    exists_edge_invitation [.operate (provisionerAsks (platform []) otherKey 0 "request-3"
        (.revokeInvite "invite-e")) "revoke-e",
      .operate (provisionerAsks (platform []) otherKey 0 "request-4" (.removeClient "b")) "remove-b"]
    (fun result w₂ => w₂.process.any (fun s₂ =>
      s₂.invites.any (fun record => record.id = result.inviteId) &&
      decide ("again" ∉ w₂.drawn ∧ authorizeProvisioner s₂ "agents" (publicKey otherKey) = .ok () ∧
        w₂.clock = 0 ∧
        (w₂.inviteEdge s₂ "again").1 = .error (ApiError.bad "unknown managed client 'b'"))))
    (by decide +kernel)
  obtain ⟨s₂, hs₂, hcheck⟩ := (Option.any_eq_true _ _).1 hcheck
  simp only [Bool.and_eq_true, decide_eq_true_eq, List.any_eq_true] at hcheck
  obtain ⟨hretained, hfresh, hauthorized, hclock, hrefused⟩ := hcheck
  have hr₂ := (hr.step (.operate w _ _ s hs hamb trivial)).steps hsteps
  exact ⟨w, s, w₂, s₂, result, hr, hs, hamb, hanswer, hmoved, hsteps, hs₂,
    World.ambient_admissible hr₂ hs₂ hfresh, ⟨rfl, by rw [World.ambient, hclock]; rfl,
      by decide +kernel, hauthorized⟩, hretained, hrefused⟩

end Example

/-! ## Request ids of different principals -/

/-- A request to invite that is valid apart from its request id: everything it names is in order, and
    its Provisioner has no invitation under the id. -/
structure OtherwiseValid (amb : Ambient) (s : ControlState) (provisioner : EndpointId P)
    (request : ProvisionerRequest) : Prop where
  passes : Passes amb s provisioner request
  unused : ∀ invite ∈ s.invites, invite.managedBy = some provisioner.text →
    invite.requestId ≠ some request.requestId
  expected : checkExpectedRevision s request.expectedRevision = .ok ()
  invitation : ∃ name kind ttlSecs secret,
    Resolves s provisioner.text request.action name kind ttlSecs secret ∧
      validateName name = .ok () ∧ validateJoinSecret secret = .ok () ∧
      (1 ≤ ttlSecs ∧ ttlSecs ≤ 7 * 24 * 60 * 60) ∧
      (I64.checkedAdd amb.clock ttlSecs).isSome = true ∧
      validateInviteName s amb.clock name kind = .ok ()

/-- The request has created an invitation for its Provisioner. -/
def Creates (P : Platform) (key : SecretKey) (w : World) (amb : Ambient) (s : ControlState)
    (provisioner : EndpointId P) (request : ProvisionerRequest) : Prop :=
  ∃ result s' record,
    (w.operate P key amb (.provisioner provisioner request) s).1 = .ok (.provisioner (.invite result)) ∧
    (w.operate P key amb (.provisioner provisioner request) s).2.process = some s' ∧
    record ∈ s'.invites ∧ record.id = amb.inviteToken ∧ result.inviteId = record.id ∧
    record.state = .pending ∧ record.requestId = some request.requestId ∧
    record.managedBy = some provisioner.text

theorem buildInvite_succeeds (P : Platform) (key : SecretKey) (s : ControlState) {now : Int}
    (inviteId name : String) (kind : InviteKind) {ttlSecs : Nat} (secret : String)
    (httl : 1 ≤ ttlSecs ∧ ttlSecs ≤ 7 * 24 * 60 * 60)
    (hexpires : (I64.checkedAdd now ttlSecs).isSome = true) :
    ∃ built, buildInvite P key s now inviteId name kind ttlSecs secret = .ok built := by
  obtain ⟨expiresAt, hexpires⟩ := Option.isSome_iff_exists.1 hexpires
  exact ⟨_, bind_ok (ensure_of httl) (bind_ok (okOr_eq_ok.2 hexpires) rfl)⟩

/-- In memory, the request id is compared within the Provisioner only. -/
theorem OtherwiseValid.plan (h : OtherwiseValid amb s provisioner request) (key : SecretKey) :
    ∃ result record name kind ttlSecs secret,
      Resolves s provisioner.text request.action name kind ttlSecs secret ∧
      IssuesInvite P key amb s provisioner.text request name kind ttlSecs secret result record ∧
      (Operation.provisioner provisioner request).plan P key amb s = .ok (.commit
        (.topology [.putInvite (record.issuedBy P provisioner.text request)])
        (fun _ => .ok (.provisioner (.invite result)))) := by
  obtain ⟨name, kind, ttlSecs, secret, hresolves, hname, hsecret, httl, hexpires, hfree⟩ := h.invitation
  obtain ⟨⟨result, record⟩, hbuilt⟩ :=
    buildInvite_succeeds P key s amb.inviteToken name kind secret httl hexpires
  have hunused : s.invites.find? (fun item => item.managedBy = some provisioner.text &&
      item.requestId = some request.requestId) = none := by
    rw [List.find?_eq_none]
    intro item hitem hfound
    simp only [Bool.and_eq_true, decide_eq_true_eq] at hfound
    exact h.unused item hitem hfound.1 hfound.2
  have hissues : IssuesInvite P key amb s provisioner.text request name kind ttlSecs secret result
      record := ⟨hname, hsecret, hunused, h.expected, hfree, hbuilt⟩
  have haction := hresolves.invites
  have hinvite := provisionerInvite_eq_commit.2 ⟨result, record, hissues, rfl, rfl⟩
  have hdispatch := (dispatch_invite haction).2 ⟨name, kind, ttlSecs, secret, hresolves, hinvite⟩
  have hrequest := (provisionerRequest_eq_ok haction.ne_getTopology).2 ⟨h.passes, hdispatch⟩
  refine ⟨result, record, name, kind, ttlSecs, secret, hresolves, hissues, ?_⟩
  simp only [Operation.plan, hrequest, Except.map, Plan.map]

/-- The owner of an invitation that has been resolved is registered. -/
theorem Resolves.owner {provisionerId name secret ownerId : String} {action : ProvisionerAction}
    {kind : InviteKind} {ttlSecs : Nat}
    (h : Resolves s provisionerId action name kind ttlSecs secret) (hkind : kind = .edge ownerId) :
    ∃ client ∈ s.clients, client.endpointId = ownerId := by
  cases h with
  | client => cases hkind
  | edge owner _ _ _ id owned =>
    obtain ⟨client, hclient, _, hid, _⟩ := managedClientId_eq_ok owned
    exact ⟨client, hclient, hid.trans (InviteKind.edge.inj hkind)⟩

/-- **When an invitation is created.** A request to invite that is otherwise valid, and whose own
    Provisioner has not used its request id, creates the invitation if and only if no retained
    invitation of any principal carries the id. -/
theorem invitation_is_created_iff {w : World} (hr : (control P key).Reachable w)
    (hrun : w.process = some s) (hamb : amb.Admissible w) (hio : amb.ioError = none)
    (hfits : I64.Fits (s.revision + 1)) (hvalid : OtherwiseValid amb s provisioner request) :
    Creates P key w amb s provisioner request ↔
      ∀ invite ∈ s.invites, invite.requestId ≠ some request.requestId := by
  obtain ⟨l, hl, href⟩ := exists_ledger hr
  obtain rfl := href.process s hrun
  have hk := href.represents.keyed
  have hfresh := World.fresh_token hl href hamb
  obtain ⟨result, record, name, kind, ttlSecs, secret, hresolves, hissues, hplan⟩ := hvalid.plan key
  obtain ⟨hid, hkind, hrecord⟩ := buildInvite_eq_ok P hissues.built
  constructor
  · rintro ⟨_, s', created, _, hprocess, hcreated, hcreatedId, _, _, hcreatedRequest, _⟩ invite hinvite
      hused
    -- the old invitation would still be there, under the same request id
    have hkept : invite ∈ s'.invites := by
      rcases World.operate_cases href hrun with hunmoved | ⟨delta, respond, hplan', hprocess', _⟩
      · cases hprocess.symm.trans (hunmoved.2.trans hrun)
        exact hinvite
      · obtain ⟨rfl, _⟩ := Plan.commit.inj (Except.ok.inj (hplan.symm.trans hplan'))
        cases hprocess.symm.trans hprocess'
        exact (Keyed.mem_upsert hk.invites).2 (.inr ⟨hinvite, hid.symm ▸ hfresh invite hinvite⟩)
    obtain ⟨l', _, href'⟩ := exists_ledger
      (hr.step (.operate w amb (.provisioner provisioner request) l.state hrun hamb trivial))
    have hrep' := (href'.process s' hprocess) ▸ href'.represents
    obtain rfl := hrep'.requestId_unique hkept hcreated hused hcreatedRequest
    exact hfresh invite hinvite hcreatedId
  · intro hfree
    have haccepted : ∃ db', w.database.applyChange l.state.relayRevision
        (.putInvite (record.issuedBy P provisioner.text request)) = .ok db' := by
      refine href.represents.putInvite_succeeds ?_ ?_ ?_
      · rw [hrecord]
        exact ⟨fun _ => rfl, fun _ => rfl⟩
      · exact fun ownerId howner => hresolves.owner (hkind.symm.trans howner)
      · rintro other hother _ q hq ⟨⟩
        exact hfree other hother hq
    have hcommits : ∃ store, commitDelta none ⟨w.database, l.state⟩
        (.topology [.putInvite (record.issuedBy P provisioner.text request)]) = .ok store :=
      href.represents.commitDelta_succeeds hfits (Ledger.fits_of_reachable hl).2 (fold_one haccepted)
    obtain ⟨store, hcommit⟩ := hcommits
    rw [← hio] at hcommit
    obtain ⟨hanswer, hprocess⟩ := World.committed_of_plan hplan hcommit
    rw [(commitDelta_eq_ok href.represents hcommit).1] at hprocess
    refine ⟨result, _, record.issuedBy P provisioner.text request, hanswer, hprocess,
      (Keyed.mem_upsert hk.invites).2 (.inl rfl), hid, ?_, ?_, rfl, rfl⟩
    · rw [(buildInvite_spec P hissues.built).2.2.2.2]
      exact hid.symm
    · rw [hrecord]
      rfl

section Example

open Reference

/-- A Provisioner's request to invite a client, always under the same request id. -/
def inviteClientRequest (name : String) : ProvisionerRequest :=
  { protocolVersion := CONTROL_PROTOCOL_VERSION, audience := "agents", requestId := "request-1",
    issuedAt := 0, expectedRevision := none, action := .inviteClient name 3600 joinSecret }

/-- What has to be checked in a state for the request to be otherwise valid. -/
def checkInviteClient (w : World) (s : ControlState) (node : SecretKey) (name : String) : Bool :=
  decide ("invite" ∉ w.drawn ∧ w.clock = 0 ∧ I64.Fits (s.revision + 1) ∧
    authorizeProvisioner s "agents" (publicKey node) = .ok () ∧ validateName name = .ok () ∧
    validateInviteName s 0 name .client = .ok () ∧ ∀ invite ∈ s.invites,
      invite.managedBy = some (publicKey node) → invite.requestId ≠ some "request-1")

theorem otherwiseValid_of_check {w : World} {node : SecretKey} {name : String}
    (h : checkInviteClient w s node name = true) :
    "invite" ∉ w.drawn ∧ I64.Fits (s.revision + 1) ∧
      OtherwiseValid (w.ambient s "invite") s (node.public (platform [])) (inviteClientRequest name) := by
  obtain ⟨hfresh, hclock, hfits, hauthorized, hname, hfree, hunused⟩ := of_decide_eq_true h
  have htime : checkTime 0 w.clock = .ok () := by rw [hclock]; rfl
  have hexpires : (I64.checkedAdd w.clock (3600 : Nat)).isSome = true := by rw [hclock]; rfl
  have hid : validateRequestId "request-1" = .ok () := by decide +kernel
  rw [← hclock] at hfree
  exact ⟨hfresh, hfits, ⟨rfl, htime, hid, hauthorized⟩, hunused, rfl, name, .client, 3600,
    joinSecret, .client name 3600 joinSecret, hname, by decide +kernel, by decide, hexpires, hfree⟩

/-- The first request of a Provisioner creates its invitation. -/
theorem first_invitation_is_created : ∃ w s, (control (platform []) controlKey).Reachable w ∧
    w.process = some s ∧ s.invites = [] ∧ Creates (platform []) controlKey w (w.ambient s "invite") s
      (otherKey.public (platform [])) (inviteClientRequest "b") := by
  obtain ⟨w, hr, hcheck⟩ := World.exists_after (P := platform []) controlKey (fun _ _ _ => True)
    [.start relayCa,
      .operate (fun _ => .localAdmin (.addProvisioner "p" (publicKey otherKey))) "add-p"]
    (fun w => w.process.any (fun s => s.invites.isEmpty && checkInviteClient w s otherKey "b"))
    (by decide +kernel)
  obtain ⟨s, hs, hcheck⟩ := (Option.any_eq_true _ _).1 hcheck
  rw [Bool.and_eq_true] at hcheck
  have hnone : s.invites = [] := List.isEmpty_iff.1 hcheck.1
  obtain ⟨hfresh, hfits, hvalid⟩ := otherwiseValid_of_check hcheck.2
  refine ⟨w, s, hr, hs, hnone, (invitation_is_created_iff hr hs
    (World.ambient_admissible hr hs hfresh) rfl hfits hvalid).2 ?_⟩
  simp [hnone]

/-- Two Provisioners happen to choose the same request id, and the second is refused by the
    database. -/
theorem request_id_of_other_provisioner_is_refused : ∃ w s,
    (control (platform []) controlKey).Reachable w ∧ w.process = some s ∧
      (w.ambient s "invite").Admissible w ∧ (w.ambient s "invite").ioError = none ∧
      I64.Fits (s.revision + 1) ∧ OtherwiseValid (w.ambient s "invite") s
        (nodeKey.public (platform [])) (inviteClientRequest "c") ∧
      (w.operate (platform []) controlKey (w.ambient s "invite") (.provisioner
        (nodeKey.public (platform [])) (inviteClientRequest "c")) s).1 =
          .error (ApiError.internal Constraint.invitationsRequestId.message) := by
  obtain ⟨w, hr, hcheck⟩ := World.exists_after controlKey (fun _ _ _ => True)
    [.start relayCa,
      .operate (fun _ => .localAdmin (.addProvisioner "p" (publicKey otherKey))) "add-p",
      .operate (fun _ => .localAdmin (.addProvisioner "q" (publicKey nodeKey))) "add-q",
      .operate (fun _ => .provisioner (otherKey.public (platform [])) (inviteClientRequest "b"))
        "invite-b"]
    (fun w => w.process.any (fun s => checkInviteClient w s nodeKey "c" &&
      decide ((w.operate (platform []) controlKey (w.ambient s "invite") (.provisioner
        (nodeKey.public (platform [])) (inviteClientRequest "c")) s).1 =
          .error (ApiError.internal Constraint.invitationsRequestId.message))))
    (by decide +kernel)
  obtain ⟨s, hs, hcheck⟩ := (Option.any_eq_true _ _).1 hcheck
  rw [Bool.and_eq_true] at hcheck
  obtain ⟨hfresh, hfits, hvalid⟩ := otherwiseValid_of_check hcheck.1
  exact ⟨w, s, hr, hs, World.ambient_admissible hr hs hfresh, rfl, hfits, hvalid,
    of_decide_eq_true hcheck.2⟩

end Example

end AgentScale.Control
