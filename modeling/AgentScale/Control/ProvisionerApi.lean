import AgentScale.Control.Mutation

set_option autoImplicit false

/-! # The Provisioner API

`provisioner_request` for a request whose body has been authenticated as coming from the Provisioner
identity `provisionerId`. Each mutation looks its targets up among what that Provisioner manages, may
answer at once when there is nothing to do, and otherwise checks the expected revision before it
commits. -/

namespace AgentScale.Control

open Checked ControlApi

variable (P : Platform)

def authorizeProvisioner (state : ControlState) (audience provisionerId : String) :
    Except ApiError Unit := do
  ensure (audience = state.audience) (ApiError.unauthorized "control audience mismatch")
  ensure (state.provisioners.any (·.endpointId = provisionerId))
    (ApiError.forbidden "provisioner is not registered")

def checkExpectedRevision (state : ControlState) (expected : Option Nat) : Except ApiError Unit :=
  match expected with
  | some expected =>
    ensure (expected = state.revision) (ApiError.conflict ("revision mismatch: expected " ++
      toString expected ++ ", current " ++ toString state.revision))
  | none => .ok ()

def managedClient (state : ControlState) (name provisionerId : String) : Option ClientRecord :=
  state.clients.find? (fun client => client.name = name && client.managedBy = some provisionerId)

def managedClientId (state : ControlState) (name provisionerId : String) : Except ApiError String :=
  okOr ((managedClient state name provisionerId).map ClientRecord.endpointId)
    (ApiError.bad ("unknown managed client '" ++ name ++ "'"))

def provisionerOk (state : ControlState) : Except ApiError ProvisionerResponse :=
  .ok (.ok state.revision)

/-- An idempotent answer that changes nothing. -/
def unchanged (state : ControlState) : Except ApiError (Plan ProvisionerResponse) := do
  let response ← provisionerOk state
  return .reply response

def provisionerInvite (key : SecretKey) (amb : Ambient) (provisionerId : String)
    (request : ProvisionerRequest) (name : String) (kind : InviteKind) (ttlSecs : Nat)
    (secret : String) (state : ControlState) : Except ApiError (Plan ProvisionerResponse) := do
  (validateName name).mapError ApiError.bad
  (validateJoinSecret secret).mapError ApiError.bad
  let requestHash := actionHash P request.action
  match state.invites.find? (fun item =>
      item.managedBy = some provisionerId && item.requestId = some request.requestId) with
  | some existing => do
    ensure (existing.requestHash = some requestHash)
      (ApiError.conflict "request id was already used for another action")
    let result ← (inviteResult P key existing.invite secret).mapError ApiError.internal
    return .reply (.invite result)
  | none => do
    checkExpectedRevision state request.expectedRevision
    validateInviteName state amb.clock name kind
    let (result, record) ← (buildInvite P key state amb.clock amb.inviteToken name kind ttlSecs
      secret).mapError ApiError.bad
    return .commit
      (.topology [.putInvite { record with
        requestId := some request.requestId, managedBy := some provisionerId,
        requestHash := some requestHash }])
      (fun _ => .ok (.invite result))

def provisionerRevokeInvite (amb : Ambient) (provisionerId : String) (request : ProvisionerRequest)
    (inviteId : String) (state : ControlState) : Except ApiError (Plan ProvisionerResponse) := do
  let invite ← okOr
    (state.invites.find? (fun item => item.id = inviteId && item.managedBy = some provisionerId))
    (ApiError.bad "unknown managed invite")
  match invite.state with
  | .revoked => unchanged state
  | .claimed => .error (ApiError.conflict "claimed invites cannot be revoked")
  | .pending => do
    checkExpectedRevision state request.expectedRevision
    return .commit (.topology [.putInvite (invite.revoke amb.clock)]) provisionerOk

def provisionerRemoveClient (amb : Ambient) (provisionerId : String) (request : ProvisionerRequest)
    (name : String) (state : ControlState) : Except ApiError (Plan ProvisionerResponse) :=
  match managedClient state name provisionerId with
  | none =>
    if state.clients.any (·.name = name) then
      .error (ApiError.forbidden "client is managed by another authority")
    else unchanged state
  | some client => do
    checkClientIsEmpty state amb.clock client
    checkExpectedRevision state request.expectedRevision
    return .commit
      (.revocation [.deleteClient client.endpointId, revocationChange state client.endpointId
        client.credentialGeneration client.credentialExpiresAt])
      provisionerOk

def provisionerRemoveEdge (provisionerId : String) (request : ProvisionerRequest)
    (owner name : String) (state : ControlState) : Except ApiError (Plan ProvisionerResponse) := do
  let ownerId ← managedClientId state owner provisionerId
  match state.edges.find? (fun item => item.ownerId = ownerId && item.name = name) with
  | none => unchanged state
  | some edge => do
    checkExpectedRevision state request.expectedRevision
    return .commit
      (.revocation [.deleteEdge edge.endpointId, revocationChange state edge.endpointId
        edge.credentialGeneration edge.credentialExpiresAt])
      provisionerOk

def provisionerTransferEdge (provisionerId : String) (request : ProvisionerRequest)
    (owner name endpointId newOwner : String) (state : ControlState) :
    Except ApiError (Plan ProvisionerResponse) := do
  let parsed ← okOr (parseEndpointId P endpointId)
    (ApiError.bad ("invalid edge endpoint id: " ++ P.keyError endpointId))
  let ownerId ← managedClientId state owner provisionerId
  let newOwnerId ← managedClientId state newOwner provisionerId
  match state.edges.find? (fun item =>
      item.ownerId = ownerId && item.name = name && item.endpointId = parsed.text) with
  | none =>
    if state.edges.any (fun item =>
        item.ownerId = newOwnerId && item.name = name && item.endpointId = parsed.text) then
      unchanged state
    else .error (ApiError.bad "unknown managed edge")
  | some edge => do
    ensure (¬ state.edges.any (fun item => item.ownerId = newOwnerId && item.name = name))
      (ApiError.conflict "target client already has an edge with this name")
    checkExpectedRevision state request.expectedRevision
    return .commit (.topology [.putEdge { edge with ownerId := newOwnerId }]) provisionerOk

def dispatchProvisionerMutation (key : SecretKey) (amb : Ambient) (provisionerId : String)
    (request : ProvisionerRequest) (state : ControlState) :
    Except ApiError (Plan ProvisionerResponse) :=
  match request.action with
  -- `unreachable!` in the source: `provisionerRequest` answers queries itself.
  | .getTopology => .error (ApiError.internal "queries are handled before mutation dispatch")
  | .inviteClient name ttlSecs secret =>
    provisionerInvite P key amb provisionerId request name .client ttlSecs secret state
  | .inviteEdge owner name ttlSecs secret => do
    let ownerId ← managedClientId state owner provisionerId
    provisionerInvite P key amb provisionerId request name (.edge ownerId) ttlSecs secret state
  | .revokeInvite inviteId => provisionerRevokeInvite amb provisionerId request inviteId state
  | .removeClient name => provisionerRemoveClient amb provisionerId request name state
  | .removeEdge owner name => provisionerRemoveEdge provisionerId request owner name state
  | .transferEdge owner name endpointId newOwner =>
    provisionerTransferEdge P provisionerId request owner name endpointId newOwner state

def managedEdgeInfo (edge : EdgeRecord) : ManagedEdgeInfo := ⟨edge.name, edge.endpointId⟩

def managedClientInfo (state : ControlState) (client : ClientRecord) : ManagedClientInfo :=
  { name := client.name
    endpointId := client.endpointId
    edges := (state.edges.filter (fun edge => edge.ownerId = client.endpointId)).map managedEdgeInfo }

def provisionerTopology (state : ControlState) (now : Int) (provisionerId : String) :
    ProvisionerTopology :=
  { revision := state.revision
    clients := (state.clients.filter (fun client => client.managedBy = some provisionerId)).map
      (managedClientInfo state)
    invites := (state.invites.filter (fun invite => invite.managedBy = some provisionerId)).map
      (inviteInfo now) }

def provisionerRequest (key : SecretKey) (amb : Ambient) (provisionerId : EndpointId P)
    (request : ProvisionerRequest) (state : ControlState) :
    Except ApiError (Plan ProvisionerResponse) := do
  (ControlApi.ensureProtocolVersion request.protocolVersion).mapError ApiError.bad
  (checkTime request.issuedAt amb.received).mapError ApiError.unauthorized
  (validateRequestId request.requestId).mapError ApiError.bad
  authorizeProvisioner state request.audience provisionerId.text
  match request.action with
  | .getTopology =>
    return .reply (.topology (provisionerTopology state amb.clock provisionerId.text))
  | _ => dispatchProvisionerMutation P key amb provisionerId.text request state

/-! ## What a Provisioner's request commits -/

/-- A client the Provisioner manages, by its endpoint. -/
def Manages (s : ControlState) (provisionerId ownerId : String) : Prop :=
  ∃ client ∈ s.clients, client.endpointId = ownerId ∧ client.managedBy = some provisionerId

def asked (s : ControlState) : ProvisionerAction → List Registration
  | .removeClient name => namedClients s name
  | .removeEdge owner name => namedEdges s owner name
  | _ => []

/-- The edges an action asks to move, by the id of the new owner and the name. -/
def moves (s : ControlState) : ProvisionerAction → List (String × String)
  | .transferEdge _ name _ newOwner =>
    (s.clients.filter (fun client => client.name = newOwner)).map
      (fun client => (client.endpointId, name))
  | _ => []

/-- Whether an action issues or revokes an invitation. -/
def issues : ProvisionerAction → Prop
  | .inviteClient .. | .inviteEdge .. | .revokeInvite _ => True
  | _ => False

/-- The deltas a Provisioner's requests commit, with the part of the topology each one touches. -/
inductive ManagedMutation (asked : Registration → Prop) (amb : Ambient) (s : ControlState)
    (provisionerId : String) : StateDelta → Prop
  | newInvite (record : InviteRecord) (id : record.id = amb.inviteToken)
      (pending : record.state = .pending) (unclaimed : record.claimedBy = none)
      (open_ : record.terminalAt = none) (managed : record.managedBy = some provisionerId)
      (owner : ∀ ownerId, record.invite.kind = .edge ownerId → Manages s provisionerId ownerId)
      (noRelay : ∀ url, record.invite.kind ≠ .relay url) :
      ManagedMutation asked amb s provisionerId (.topology [.putInvite record])
  | revokeInvite (invite : InviteRecord) (mem : invite ∈ s.invites)
      (pending : invite.state = .pending) (managed : invite.managedBy = some provisionerId) :
      ManagedMutation asked amb s provisionerId (.topology [.putInvite (invite.revoke amb.clock)])
  | removeClient (client : ClientRecord) (mem : client ∈ s.clients)
      (named : asked client.registration) (managed : client.managedBy = some provisionerId) :
      ManagedMutation asked amb s provisionerId (.revocation [.deleteClient client.endpointId,
        revocationChange s client.endpointId client.credentialGeneration client.credentialExpiresAt])
  | removeEdge (edge : EdgeRecord) (mem : edge ∈ s.edges) (named : asked edge.registration)
      (managed : Manages s provisionerId edge.ownerId) :
      ManagedMutation asked amb s provisionerId (.revocation [.deleteEdge edge.endpointId,
        revocationChange s edge.endpointId edge.credentialGeneration edge.credentialExpiresAt])
  | transferEdge (edge : EdgeRecord) (newOwner : String) (mem : edge ∈ s.edges)
      (managed : Manages s provisionerId edge.ownerId)
      (target : Manages s provisionerId newOwner) :
      ManagedMutation asked amb s provisionerId (.topology [.putEdge { edge with ownerId := newOwner }])

variable {P} {key : SecretKey} {amb : Ambient} {state : ControlState} {provisionerId : String}
  {request : ProvisionerRequest} {delta : StateDelta}
  {respond : ControlState → Except ApiError ProvisionerResponse}

theorem unchanged_ne_commit : unchanged state ≠ .ok (.commit delta respond) := by
  intro h
  obtain ⟨_, _, h⟩ := of_bind h
  cases h

theorem managedClient_eq_some {name : String} {client : ClientRecord}
    (h : managedClient state name provisionerId = some client) :
    client ∈ state.clients ∧ client.name = name ∧ client.managedBy = some provisionerId :=
  Lists.find?_and_eq_some h

theorem managedClientId_eq_ok {name ownerId : String}
    (h : managedClientId state name provisionerId = .ok ownerId) :
    ∃ client ∈ state.clients, client.name = name ∧ client.endpointId = ownerId ∧
      client.managedBy = some provisionerId := by
  obtain ⟨client, hclient, hid⟩ := Option.map_eq_some_iff.1 (okOr_eq_ok.1 h)
  obtain ⟨hmem, hname, hmanaged⟩ := managedClient_eq_some hclient
  exact ⟨client, hmem, hname, hid, hmanaged⟩

theorem authorizeProvisioner_eq_ok {audience id : String} {u : Unit}
    (h : authorizeProvisioner state audience id = .ok u) :
    audience = state.audience ∧ ∃ provisioner ∈ state.provisioners, provisioner.endpointId = id := by
  obtain ⟨_, haudience, h⟩ := of_bind h
  obtain ⟨provisioner, hmem, hid⟩ := List.any_eq_true.1 (ensure_eq_ok.1 h)
  exact ⟨ensure_eq_ok.1 haudience, provisioner, hmem, of_decide_eq_true hid⟩

theorem checkExpectedRevision_eq_ok {expected : Option Nat} {u : Unit}
    (h : checkExpectedRevision state expected = .ok u) :
    ∀ r, expected = some r → r = state.revision := by
  rintro r rfl
  exact ensure_eq_ok.1 h

/-- The checks every request has to pass before its action is looked at. -/
structure Passes (amb : Ambient) (state : ControlState) (provisioner : EndpointId P)
    (request : ProvisionerRequest) : Prop where
  protocolVersion : ControlApi.ensureProtocolVersion request.protocolVersion = .ok ()
  time : checkTime request.issuedAt amb.received = .ok ()
  requestId : validateRequestId request.requestId = .ok ()
  authorized : authorizeProvisioner state request.audience provisioner.text = .ok ()

/-- An accepted query is answered with the topology, and commits nothing. -/
theorem provisionerRequest_getTopology {provisioner : EndpointId P} {plan : Plan ProvisionerResponse}
    (haction : request.action = .getTopology)
    (h : provisionerRequest P key amb provisioner request state = .ok plan) :
    plan = .reply (.topology (provisionerTopology state amb.clock provisioner.text)) := by
  obtain ⟨_, _, h⟩ := of_bind h
  obtain ⟨_, _, h⟩ := of_bind h
  obtain ⟨_, _, h⟩ := of_bind h
  obtain ⟨_, _, h⟩ := of_bind h
  simp only [haction] at h
  exact (pure_eq_ok.1 h).symm

/-- Any other accepted request has passed the checks and is dispatched. -/
theorem provisionerRequest_eq_ok {provisioner : EndpointId P} {plan : Plan ProvisionerResponse}
    (haction : request.action ≠ .getTopology) :
    provisionerRequest P key amb provisioner request state = .ok plan ↔
      Passes amb state provisioner request ∧
        dispatchProvisionerMutation P key amb provisioner.text request state = .ok plan := by
  have hdispatch : (match request.action with
      | .getTopology => Except.ok
          (.reply (.topology (provisionerTopology state amb.clock provisioner.text)))
      | _ => dispatchProvisionerMutation P key amb provisioner.text request state) =
      dispatchProvisionerMutation P key amb provisioner.text request state := by
    split
    · next h => exact absurd h haction
    · rfl
  constructor
  · intro h
    obtain ⟨_, hversion, h⟩ := of_bind h
    obtain ⟨_, htime, h⟩ := of_bind h
    obtain ⟨_, hid, h⟩ := of_bind h
    obtain ⟨_, hauthorized, h⟩ := of_bind h
    exact ⟨⟨mapError_eq_ok.1 hversion, mapError_eq_ok.1 htime, mapError_eq_ok.1 hid, hauthorized⟩,
      hdispatch.symm.trans h⟩
  · rintro ⟨hpasses, h⟩
    exact bind_ok (mapError_eq_ok.2 hpasses.protocolVersion)
      (bind_ok (mapError_eq_ok.2 hpasses.time)
        (bind_ok (mapError_eq_ok.2 hpasses.requestId)
          (bind_ok hpasses.authorized (hdispatch.trans h))))

/-! ## The commits of the handlers -/

/-- What has been checked before an invitation is issued, and what is committed. -/
structure IssuesInvite (P : Platform) (key : SecretKey) (amb : Ambient) (state : ControlState)
    (provisionerId : String) (request : ProvisionerRequest) (name : String) (kind : InviteKind)
    (ttlSecs : Nat) (secret : String) (result : InviteResult) (record : InviteRecord) : Prop where
  validName : validateName name = .ok ()
  validSecret : validateJoinSecret secret = .ok ()
  unused : state.invites.find? (fun item =>
    item.managedBy = some provisionerId && item.requestId = some request.requestId) = none
  expected : checkExpectedRevision state request.expectedRevision = .ok ()
  free : validateInviteName state amb.clock name kind = .ok ()
  built : buildInvite P key state amb.clock amb.inviteToken name kind ttlSecs secret =
    .ok (result, record)

/-- The record of an invitation that a Provisioner's request has issued. -/
def InviteRecord.issuedBy (P : Platform) (provisionerId : String) (request : ProvisionerRequest)
    (record : InviteRecord) : InviteRecord :=
  { record with
    requestId := some request.requestId
    managedBy := some provisionerId
    requestHash := some (actionHash P request.action) }

theorem provisionerInvite_eq_commit {name secret : String} {kind : InviteKind} {ttlSecs : Nat} :
    provisionerInvite P key amb provisionerId request name kind ttlSecs secret state =
        .ok (.commit delta respond) ↔
      ∃ result record, IssuesInvite P key amb state provisionerId request name kind ttlSecs secret
          result record ∧
        delta = .topology [.putInvite (record.issuedBy P provisionerId request)] ∧
        respond = fun _ => .ok (.invite result) := by
  constructor
  · intro h
    obtain ⟨_, hname, h⟩ := of_bind h
    obtain ⟨_, hsecret, h⟩ := of_bind h
    split at h
    · obtain ⟨_, _, h⟩ := of_bind h
      obtain ⟨_, _, h⟩ := of_bind h
      cases h
    · next hunused =>
      obtain ⟨_, hexpected, h⟩ := of_bind h
      obtain ⟨_, hfree, h⟩ := of_bind h
      obtain ⟨⟨result, record⟩, hbuild, h⟩ := of_bind h
      obtain ⟨rfl, rfl⟩ := Plan.commit.inj (pure_eq_ok.1 h)
      exact ⟨result, record, ⟨mapError_eq_ok.1 hname, mapError_eq_ok.1 hsecret, hunused, hexpected,
        hfree, mapError_eq_ok.1 hbuild⟩, rfl, rfl⟩
  · rintro ⟨result, record, hissues, rfl, rfl⟩
    refine bind_ok (mapError_eq_ok.2 hissues.validName)
      (bind_ok (mapError_eq_ok.2 hissues.validSecret) ?_)
    rw [hissues.unused]
    exact bind_ok hissues.expected (bind_ok hissues.free
      (bind_ok (mapError_eq_ok.2 hissues.built) rfl))

theorem provisionerRevokeInvite_eq_commit {inviteId : String}
    (h : provisionerRevokeInvite amb provisionerId request inviteId state =
      .ok (.commit delta respond)) :
    ∃ invite ∈ state.invites, invite.id = inviteId ∧ invite.managedBy = some provisionerId ∧
      invite.state = .pending ∧ checkExpectedRevision state request.expectedRevision = .ok () ∧
      delta = .topology [.putInvite (invite.revoke amb.clock)] := by
  obtain ⟨invite, hinvite, h⟩ := of_bind h
  obtain ⟨hmem, hid, hmanaged⟩ := Lists.find?_and_eq_some (okOr_eq_ok.1 hinvite)
  split at h
  · exact absurd h unchanged_ne_commit
  · cases h
  · next hpending =>
    obtain ⟨_, hrev, h⟩ := of_bind h
    obtain ⟨rfl, _⟩ := Plan.commit.inj (pure_eq_ok.1 h)
    exact ⟨invite, hmem, hid, hmanaged, hpending, hrev, rfl⟩

theorem provisionerRemoveClient_eq_commit {name : String}
    (h : provisionerRemoveClient amb provisionerId request name state =
      .ok (.commit delta respond)) :
    ∃ client ∈ state.clients, client.name = name ∧ client.managedBy = some provisionerId ∧
      checkClientIsEmpty state amb.clock client = .ok () ∧
      checkExpectedRevision state request.expectedRevision = .ok () ∧
      delta = .revocation [.deleteClient client.endpointId, revocationChange state
        client.endpointId client.credentialGeneration client.credentialExpiresAt] := by
  unfold provisionerRemoveClient at h
  split at h
  · split at h
    · cases h
    · exact absurd h unchanged_ne_commit
  · next client hclient =>
    obtain ⟨_, hempty, h⟩ := of_bind h
    obtain ⟨_, hrev, h⟩ := of_bind h
    obtain ⟨rfl, _⟩ := Plan.commit.inj (pure_eq_ok.1 h)
    obtain ⟨hmem, hname, hmanaged⟩ := managedClient_eq_some hclient
    exact ⟨client, hmem, hname, hmanaged, hempty, hrev, rfl⟩

theorem provisionerRemoveEdge_eq_commit {owner name : String}
    (h : provisionerRemoveEdge provisionerId request owner name state =
      .ok (.commit delta respond)) :
    ∃ client ∈ state.clients, client.name = owner ∧ client.managedBy = some provisionerId ∧
      ∃ edge ∈ state.edges, edge.ownerId = client.endpointId ∧ edge.name = name ∧
        checkExpectedRevision state request.expectedRevision = .ok () ∧
        delta = .revocation [.deleteEdge edge.endpointId, revocationChange state edge.endpointId
          edge.credentialGeneration edge.credentialExpiresAt] := by
  obtain ⟨ownerId, howner, h⟩ := of_bind h
  obtain ⟨client, hclient, hname, rfl, hmanaged⟩ := managedClientId_eq_ok howner
  split at h
  · exact absurd h unchanged_ne_commit
  · next edge hedge =>
    obtain ⟨_, hrev, h⟩ := of_bind h
    obtain ⟨rfl, _⟩ := Plan.commit.inj (pure_eq_ok.1 h)
    obtain ⟨hmem, hownerId, hedgeName⟩ := Lists.find?_and_eq_some hedge
    exact ⟨client, hclient, hname, hmanaged, edge, hmem, hownerId, hedgeName, hrev, rfl⟩

theorem provisionerTransferEdge_eq_commit {owner name endpointId newOwner : String}
    (h : provisionerTransferEdge P provisionerId request owner name endpointId newOwner state =
      .ok (.commit delta respond)) :
    ∃ parsed, parseEndpointId P endpointId = some parsed ∧
      ∃ client ∈ state.clients, client.name = owner ∧ client.managedBy = some provisionerId ∧
      ∃ target ∈ state.clients, target.name = newOwner ∧ target.managedBy = some provisionerId ∧
      ∃ edge ∈ state.edges, edge.ownerId = client.endpointId ∧ edge.name = name ∧
        edge.endpointId = parsed.text ∧
        (∀ other ∈ state.edges, other.ownerId = target.endpointId → other.name ≠ name) ∧
        checkExpectedRevision state request.expectedRevision = .ok () ∧
        delta = .topology [.putEdge { edge with ownerId := target.endpointId }] := by
  obtain ⟨parsed, hparsed, h⟩ := of_bind h
  obtain ⟨ownerId, howner, h⟩ := of_bind h
  obtain ⟨newOwnerId, hnew, h⟩ := of_bind h
  obtain ⟨client, hclient, hname, rfl, hmanaged⟩ := managedClientId_eq_ok howner
  obtain ⟨target, htarget, htargetName, rfl, htargetManaged⟩ := managedClientId_eq_ok hnew
  split at h
  · split at h
    · exact absurd h unchanged_ne_commit
    · cases h
  · next edge hedge =>
    obtain ⟨_, hfree, h⟩ := of_bind h
    obtain ⟨_, hrev, h⟩ := of_bind h
    obtain ⟨rfl, _⟩ := Plan.commit.inj (pure_eq_ok.1 h)
    have hfound := List.find?_some hedge
    simp only [Bool.and_eq_true, decide_eq_true_eq] at hfound
    obtain ⟨⟨hownerId, hedgeName⟩, hendpoint⟩ := hfound
    refine ⟨parsed, okOr_eq_ok.1 hparsed, client, hclient, hname, hmanaged, target, htarget,
      htargetName, htargetManaged, edge, List.mem_of_find?_eq_some hedge, hownerId, hedgeName,
      hendpoint, ?_, hrev, rfl⟩
    intro other hother hother' hsame
    exact ensure_eq_ok.1 hfree (List.any_eq_true.2 ⟨other, hother, by simp [hother', hsame]⟩)

/-- What holds of a delta that a request has committed: the expected revision was the current one, the
    delta touches managed topology only, and its handler has made its checks. -/
structure Authorized (asked : Demand) (amb : Ambient) (state : ControlState)
    (provisionerId : EndpointId P) (request : ProvisionerRequest) (delta : StateDelta) : Prop where
  expected : ∀ r, request.expectedRevision = some r → r = state.revision
  managed : ManagedMutation asked.removes amb state provisionerId.text delta
  mutation : Mutation P asked amb state delta

section Commits

variable {asked : Demand} {provisioner : EndpointId P}

theorem provisionerInvite_commit {name secret : String} {kind : InviteKind} {ttlSecs : Nat}
    (hregistered : ∃ other ∈ state.provisioners, other.endpointId = provisioner.text)
    (howner : ∀ ownerId, kind = .edge ownerId → Manages state provisioner.text ownerId)
    (hrelay : ∀ url, kind ≠ .relay url) (hinvites : asked.invites)
    (h : provisionerInvite P key amb provisioner.text request name kind ttlSecs secret state =
      .ok (.commit delta respond)) : Authorized asked amb state provisioner request delta := by
  obtain ⟨result, record, hissues, rfl, _⟩ := provisionerInvite_eq_commit.1 h
  obtain ⟨hid, hkind, hrecord⟩ := buildInvite_eq_ok P hissues.built
  obtain ⟨hname, _, hlives, _, _⟩ := buildInvite_spec P hissues.built
  have hpending : record.state = .pending := by rw [hrecord]
  have hunclaimed : record.claimedBy = none := by rw [hrecord]
  have hopen : record.terminalAt = none := by rw [hrecord]
  refine ⟨checkExpectedRevision_eq_ok hissues.expected,
    .newInvite _ hid hpending hunclaimed hopen rfl ?_ ?_,
    .newInvite _ hid hpending hunclaimed hopen hlives ?_ ?_ hinvites⟩
  · exact fun ownerId hk => howner ownerId (hkind ▸ hk)
  · exact fun url hk => hrelay url (hkind ▸ hk)
  · have hfree := hissues.free
    rw [← hname, ← hkind] at hfree
    exact hfree
  · intro _ p hp
    rw [← Option.some.inj hp]
    exact hregistered

theorem provisionerRevokeInvite_commit {inviteId : String} (hinvites : asked.invites)
    (h : provisionerRevokeInvite amb provisioner.text request inviteId state =
      .ok (.commit delta respond)) : Authorized asked amb state provisioner request delta := by
  obtain ⟨invite, hmem, _, hmanaged, hpending, hrev, rfl⟩ := provisionerRevokeInvite_eq_commit h
  exact ⟨checkExpectedRevision_eq_ok hrev, .revokeInvite invite hmem hpending hmanaged,
    .revokeInvite invite hmem hpending hinvites⟩

theorem provisionerRemoveClient_commit {name : String}
    (hremoves : ∀ r ∈ namedClients state name, asked.removes r)
    (h : provisionerRemoveClient amb provisioner.text request name state =
      .ok (.commit delta respond)) : Authorized asked amb state provisioner request delta := by
  obtain ⟨client, hmem, rfl, hmanaged, hempty, hrev, rfl⟩ := provisionerRemoveClient_eq_commit h
  have hnamed := hremoves _ (mem_namedClients hmem)
  exact ⟨checkExpectedRevision_eq_ok hrev, .removeClient client hmem hnamed hmanaged,
    .removeClient client hmem hnamed hempty⟩

theorem provisionerRemoveEdge_commit {owner name : String}
    (hremoves : ∀ r ∈ namedEdges state owner name, asked.removes r)
    (h : provisionerRemoveEdge provisioner.text request owner name state =
      .ok (.commit delta respond)) : Authorized asked amb state provisioner request delta := by
  obtain ⟨client, hclient, rfl, hmanaged, edge, hmem, hownerId, rfl, hrev, rfl⟩ :=
    provisionerRemoveEdge_eq_commit h
  have hnamed := hremoves _ (mem_namedEdges hmem hclient hownerId.symm)
  exact ⟨checkExpectedRevision_eq_ok hrev,
    .removeEdge edge hmem hnamed ⟨client, hclient, hownerId.symm, hmanaged⟩,
    .removeEdge edge hmem hnamed⟩

theorem provisionerTransferEdge_commit {owner name endpointId newOwner : String}
    (hmoves : ∀ move ∈ moves state (.transferEdge owner name endpointId newOwner),
      asked.moves move.1 move.2)
    (h : provisionerTransferEdge P provisioner.text request owner name endpointId newOwner state =
      .ok (.commit delta respond)) : Authorized asked amb state provisioner request delta := by
  obtain ⟨_, _, client, hclient, _, hmanaged, target, htarget, hname, htargetManaged, edge, hmem,
    hownerId, rfl, _, hfree, hrev, rfl⟩ := provisionerTransferEdge_eq_commit h
  refine ⟨checkExpectedRevision_eq_ok hrev, .transferEdge edge target.endpointId hmem
    ⟨client, hclient, hownerId.symm, hmanaged⟩ ⟨target, htarget, rfl, htargetManaged⟩,
    .transferEdge edge target.endpointId hmem ⟨target, htarget, rfl⟩ hfree
      (hmoves (target.endpointId, edge.name) ?_)⟩
  exact List.mem_map_of_mem (List.mem_filter.2 ⟨htarget, decide_eq_true hname⟩)

/-- Every delta a Provisioner's request commits has passed the revision check and touches only what
    the Provisioner manages. -/
theorem provisionerRequest_commit
    (hremoves : ∀ r ∈ Control.asked state request.action, asked.removes r)
    (hmoves : ∀ move ∈ moves state request.action, asked.moves move.1 move.2)
    (hinvites : issues request.action → asked.invites)
    (h : provisionerRequest P key amb provisioner request state = .ok (.commit delta respond)) :
    Authorized asked amb state provisioner request delta := by
  have hquery : request.action ≠ .getTopology := by
    intro haction
    exact absurd (provisionerRequest_getTopology haction h) (by simp)
  obtain ⟨hpasses, h⟩ := (provisionerRequest_eq_ok hquery).1 h
  have hregistered := (authorizeProvisioner_eq_ok hpasses.authorized).2
  unfold dispatchProvisionerMutation at h
  split at h
  · cases h
  · next haction =>
    exact provisionerInvite_commit hregistered (by simp) (by simp) (hinvites (haction ▸ trivial)) h
  · next haction =>
    obtain ⟨ownerId, howner, h⟩ := of_bind h
    refine provisionerInvite_commit hregistered ?_ (by simp) (hinvites (haction ▸ trivial)) h
    intro id hid
    injection hid with hid
    obtain ⟨client, hclient, _, hclientId, hmanaged⟩ := managedClientId_eq_ok howner
    exact ⟨client, hclient, hclientId.trans hid, hmanaged⟩
  · next haction => exact provisionerRevokeInvite_commit (hinvites (haction ▸ trivial)) h
  · next haction =>
    rw [haction] at hremoves
    exact provisionerRemoveClient_commit hremoves h
  · next haction =>
    rw [haction] at hremoves
    exact provisionerRemoveEdge_commit hremoves h
  · next haction =>
    rw [haction] at hmoves
    exact provisionerTransferEdge_commit hmoves h

end Commits

end AgentScale.Control
