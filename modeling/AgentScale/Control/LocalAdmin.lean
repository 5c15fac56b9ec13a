import AgentScale.Control.Mutation

set_option autoImplicit false

/-! # Local administration

`dispatch_local_admin`: the commands of the local socket, every listing and every mutation. The edge
invitation resolves its owner in an earlier critical section. -/

namespace AgentScale.Control

open Checked ControlApi

variable (P : Platform)

inductive LocalAdminRequest where
  | overview
  | listClients
  | listEdges
  | listRelays
  | listInvites
  | listProvisioners
  | inviteClient (name : String) (ttlSecs : Nat)
  | inviteEdge (name owner : String) (ttlSecs : Nat)
  | inviteRelay (name url : String) (ttlSecs : Nat)
  | revokeInvite (inviteId : String)
  | removeClient (name : String)
  | transferEdge (edge newClient : String)
  | removeEdge (edge : String)
  | removeRelay (name : String)
  | addProvisioner (name endpointId : String)
  | removeProvisioner (name : String)

structure ClientInfo where
  name : String
  endpointId : String
  edges : Nat
deriving DecidableEq

structure RelayNodeInfo where
  name : String
  endpointId : String
  url : String
  qadPort : Option UInt16
deriving DecidableEq

structure ProvisionerInfo where
  name : String
  endpointId : String
  clients : Nat
deriving DecidableEq

structure Overview where
  revision : Nat
  clients : List ClientInfo
  edges : List EdgeInfo
  relays : List RelayNodeInfo
  invites : List InviteInfo
deriving DecidableEq

/-- The successful answers; `LocalAdminResponse::Error` is the error side of the result. -/
inductive LocalAdminResponse where
  | overview (value : Overview)
  | clients (values : List ClientInfo)
  | edges (values : List EdgeInfo)
  | relays (values : List RelayNodeInfo)
  | invites (values : List InviteInfo)
  | provisioners (values : List ProvisionerInfo)
  | invite (result : InviteResult)
  | ok
deriving DecidableEq

/-! ## Listings -/

def overview (now : Int) (state : ControlState) : Overview :=
  { revision := state.revision
    clients := state.clients.map (fun client =>
      ⟨client.name, client.endpointId,
        (state.edges.filter (fun edge => edge.ownerId = client.endpointId)).length⟩)
    edges := state.edges.map (edgeInfo state)
    relays := state.relays.map (fun relay => ⟨relay.name, relay.endpointId, relay.url, relay.qadPort⟩)
    invites := state.invites.map (inviteInfo now) }

def listProvisioners (state : ControlState) : List ProvisionerInfo :=
  state.provisioners.map (fun item =>
    ⟨item.name, item.endpointId,
      (state.clients.filter (fun client => client.managedBy = some item.endpointId)).length⟩)

/-! ## Mutations -/

/-- `parse_edge_ref`: an edge is written `<client>/<edge>`. -/
def parseEdgeRef (value : String) : Except ApiError (String × String) :=
  okOr (splitOnce '/' value) (ApiError.bad "edge must be written as <client>/<edge>")

def clientByName (state : ControlState) (name : String) : Except ApiError ClientRecord :=
  okOr (state.clients.find? (·.name = name)) (ApiError.bad ("unknown client '" ++ name ++ "'"))

def clientIdByName (state : ControlState) (name : String) : Except ApiError String := do
  let client ← clientByName state name
  return client.endpointId

/-- Commit a delta and answer `ok`. -/
def acknowledged (delta : StateDelta) : Except ApiError (Plan LocalAdminResponse) :=
  .ok (.commit delta (fun _ => .ok .ok))

def localCreateInvite (key : SecretKey) (amb : Ambient) (name : String) (kind : InviteKind)
    (ttlSecs : Nat) (managedBy : Option String) (state : ControlState) :
    Except ApiError (Plan LocalAdminResponse) := do
  (validateName name).mapError ApiError.bad
  validateInviteName state amb.clock name kind
  let (result, record) ← (buildInvite P key state amb.clock amb.inviteToken name kind ttlSecs
    amb.secretToken).mapError ApiError.bad
  return .commit (.topology [.putInvite { record with managedBy }])
    (fun _ => .ok (.invite result))

def localRevokeInvite (amb : Ambient) (inviteId : String) (state : ControlState) :
    Except ApiError (Plan LocalAdminResponse) := do
  let invite ← okOr (Keyed.lookup InviteRecord.id inviteId state.invites)
    (ApiError.bad "unknown invite")
  match invite.state with
  | .pending => acknowledged (.topology [.putInvite (invite.revoke amb.clock)])
  | .claimed => .error (ApiError.conflict "claimed invites cannot be revoked")
  | .revoked => return .reply .ok

def localRemoveClient (amb : Ambient) (name : String) (state : ControlState) :
    Except ApiError (Plan LocalAdminResponse) := do
  let client ← clientByName state name
  checkClientIsEmpty state amb.clock client
  acknowledged (.revocation [.deleteClient client.endpointId, revocationChange state
    client.endpointId client.credentialGeneration client.credentialExpiresAt])

def localTransferEdge (edge newClient : String) (state : ControlState) :
    Except ApiError (Plan LocalAdminResponse) := do
  let (ownerName, edgeName) ← parseEdgeRef edge
  let oldOwner ← clientIdByName state ownerName
  let newOwner ← clientIdByName state newClient
  ensure (¬ state.edges.any (fun item => item.ownerId = newOwner && item.name = edgeName))
    (ApiError.conflict "target client already has an edge with this name")
  let record ← okOr
    (state.edges.find? (fun item => item.ownerId = oldOwner && item.name = edgeName))
    (ApiError.bad ("unknown edge '" ++ edge ++ "'"))
  acknowledged (.topology [.putEdge { record with ownerId := newOwner }])

def localRemoveEdge (edge : String) (state : ControlState) :
    Except ApiError (Plan LocalAdminResponse) := do
  let (ownerName, edgeName) ← parseEdgeRef edge
  let ownerId ← clientIdByName state ownerName
  let removed ← okOr
    (state.edges.find? (fun item => item.ownerId = ownerId && item.name = edgeName))
    (ApiError.bad ("unknown edge '" ++ edge ++ "'"))
  acknowledged (.revocation [.deleteEdge removed.endpointId, revocationChange state
    removed.endpointId removed.credentialGeneration removed.credentialExpiresAt])

def localRemoveRelay (name : String) (state : ControlState) :
    Except ApiError (Plan LocalAdminResponse) := do
  let relay ← okOr (state.relays.find? (·.name = name))
    (ApiError.bad ("unknown relay '" ++ name ++ "'"))
  acknowledged (.revocation [.deleteRelay relay.endpointId])

def localAddProvisioner (name endpointId : String) (state : ControlState) :
    Except ApiError (Plan LocalAdminResponse) := do
  (validateName name).mapError ApiError.bad
  let parsed ← okOr (parseEndpointId P endpointId)
    (ApiError.bad ("invalid provisioner endpoint id: " ++ P.keyError endpointId))
  ensure (¬ state.provisioners.any (fun item => item.name = name || item.endpointId = parsed.text))
    (ApiError.conflict "provisioner name or identity already exists")
  acknowledged (.topology [.putProvisioner ⟨name, parsed.text⟩])

def localRemoveProvisioner (amb : Ambient) (name : String) (state : ControlState) :
    Except ApiError (Plan LocalAdminResponse) := do
  let provisioner ← okOr (state.provisioners.find? (·.name = name))
    (ApiError.bad ("unknown provisioner '" ++ name ++ "'"))
  ensure (¬ state.clients.any (·.managedBy = some provisioner.endpointId))
    (ApiError.conflict "provisioner still manages clients")
  ensure (¬ state.invites.any (fun invite => inviteIsActivePending amb.clock invite &&
      invite.managedBy = some provisioner.endpointId))
    (ApiError.conflict "provisioner still owns pending invites")
  acknowledged (.topology [.deleteProvisioner provisioner.endpointId])

def dispatchLocalAdmin (key : SecretKey) (amb : Ambient) (request : LocalAdminRequest)
    (state : ControlState) : Except ApiError (Plan LocalAdminResponse) :=
  match request with
  | .overview => .ok (.reply (.overview (overview amb.clock state)))
  | .listClients => .ok (.reply (.clients (overview amb.clock state).clients))
  | .listEdges => .ok (.reply (.edges (overview amb.clock state).edges))
  | .listRelays => .ok (.reply (.relays (overview amb.clock state).relays))
  | .listInvites => .ok (.reply (.invites (overview amb.clock state).invites))
  | .listProvisioners => .ok (.reply (.provisioners (listProvisioners state)))
  | .inviteClient name ttlSecs => localCreateInvite P key amb name .client ttlSecs none state
  | .inviteEdge name owner ttlSecs => do
    let client ← clientByName amb.earlier owner
    localCreateInvite P key amb name (.edge client.endpointId) ttlSecs client.managedBy state
  | .inviteRelay name url ttlSecs => do
    let url ← (normalizeRelayUrl P url).mapError ApiError.bad
    localCreateInvite P key amb name (.relay url) ttlSecs none state
  | .revokeInvite inviteId => localRevokeInvite amb inviteId state
  | .removeClient name => localRemoveClient amb name state
  | .transferEdge edge newClient => localTransferEdge edge newClient state
  | .removeEdge edge => localRemoveEdge edge state
  | .removeRelay name => localRemoveRelay name state
  | .addProvisioner name endpointId => localAddProvisioner P name endpointId state
  | .removeProvisioner name => localRemoveProvisioner amb name state

/-! ## What the commands commit -/

/-- The registrations a command asks to remove. -/
def LocalAdminRequest.asked (s : ControlState) : LocalAdminRequest → List Registration
  | .removeClient name => namedClients s name
  | .removeEdge edge =>
    match splitOnce '/' edge with
    | some (owner, name) => namedEdges s owner name
    | none => []
  | _ => []

/-- The edges a command asks to move, by the id of the new owner and the name. -/
def LocalAdminRequest.moves (s : ControlState) : LocalAdminRequest → List (String × String)
  | .transferEdge edge newClient =>
    match splitOnce '/' edge with
    | some (_, name) => (s.clients.filter (fun client => client.name = newClient)).map
        (fun client => (client.endpointId, name))
    | none => []
  | _ => []

/-- Whether a command issues or revokes an invitation. -/
def LocalAdminRequest.invites : LocalAdminRequest → Prop
  | .inviteClient .. | .inviteEdge .. | .inviteRelay .. | .revokeInvite _ => True
  | _ => False

variable {P} {key : SecretKey} {amb : Ambient} {state : ControlState} {delta delta' : StateDelta}
  {asked : Demand}
  {respond : ControlState → Except ApiError LocalAdminResponse}

theorem acknowledged_commit (h : acknowledged delta' = .ok (.commit delta respond)) :
    delta' = delta :=
  (Plan.commit.inj (Except.ok.inj h)).1

variable {name : String}

theorem localCreateInvite_mutation {kind : InviteKind} {ttlSecs : Nat} {managedBy : Option String}
    (h : localCreateInvite P key amb name kind ttlSecs managedBy state = .ok (.commit delta respond))
    (hmanaged : kind = .client → managedBy = none) (hinvites : asked.invites) :
    Mutation P asked amb state delta := by
  obtain ⟨_, _, h⟩ := of_bind h
  obtain ⟨_, hfree, h⟩ := of_bind h
  obtain ⟨⟨result, record⟩, hbuild, h⟩ := of_bind h
  obtain ⟨rfl, _⟩ := Plan.commit.inj (pure_eq_ok.1 h)
  obtain ⟨hid, hkind, hrecord⟩ := buildInvite_eq_ok P (mapError_eq_ok.1 hbuild)
  obtain ⟨hname, _, hlives, _, _⟩ := buildInvite_spec P (mapError_eq_ok.1 hbuild)
  refine .newInvite _ hid ?_ ?_ ?_ hlives ?_ ?_ hinvites
  · rw [hrecord]
  · rw [hrecord]
  · rw [hrecord]
  · simpa only [hname, hkind] using hfree
  · intro hclient p hp
    exact absurd (hp.symm.trans (hmanaged (hkind.symm.trans hclient))) (by simp)

theorem localRevokeInvite_mutation {inviteId : String}
    (h : localRevokeInvite amb inviteId state = .ok (.commit delta respond))
    (hinvites : asked.invites) : Mutation P asked amb state delta := by
  obtain ⟨invite, hinvite, h⟩ := of_bind h
  split at h
  · next hpending =>
    obtain rfl := acknowledged_commit h
    exact .revokeInvite invite (Keyed.mem_of_lookup (okOr_eq_ok.1 hinvite)).1 hpending hinvites
  · cases h
  · cases h

theorem clientByName_eq_ok {client : ClientRecord} (h : clientByName state name = .ok client) :
    client ∈ state.clients ∧ client.name = name := by
  have hfound := okOr_eq_ok.1 h
  have hname := List.find?_some hfound
  exact ⟨List.mem_of_find?_eq_some hfound, of_decide_eq_true hname⟩

theorem clientIdByName_eq_ok {name id : String} (h : clientIdByName state name = .ok id) :
    ∃ client ∈ state.clients, client.name = name ∧ client.endpointId = id := by
  obtain ⟨client, hclient, h⟩ := of_bind h
  obtain ⟨hmem, hname⟩ := clientByName_eq_ok hclient
  exact ⟨client, hmem, hname, pure_eq_ok.1 h⟩

theorem localRemoveClient_mutation
    (h : localRemoveClient amb name state = .ok (.commit delta respond))
    (hremoves : ∀ r ∈ namedClients state name, asked.removes r) :
    Mutation P asked amb state delta := by
  obtain ⟨client, hclient, h⟩ := of_bind h
  obtain ⟨_, hempty, h⟩ := of_bind h
  obtain rfl := acknowledged_commit h
  obtain ⟨hmem, hname⟩ := clientByName_eq_ok hclient
  exact .removeClient client hmem (hremoves _ (hname ▸ mem_namedClients hmem)) hempty

theorem localTransferEdge_mutation {edge newClient : String}
    (h : localTransferEdge edge newClient state = .ok (.commit delta respond))
    (hmoves : ∀ move ∈ LocalAdminRequest.moves state (.transferEdge edge newClient),
      asked.moves move.1 move.2) : Mutation P asked amb state delta := by
  obtain ⟨⟨ownerName, edgeName⟩, href, h⟩ := of_bind h
  obtain ⟨_, _, h⟩ := of_bind h
  obtain ⟨newOwner, hnew, h⟩ := of_bind h
  obtain ⟨_, hfree, h⟩ := of_bind h
  obtain ⟨record, hrecord, h⟩ := of_bind h
  obtain rfl := acknowledged_commit h
  have hfound := List.find?_some (okOr_eq_ok.1 hrecord)
  simp only [Bool.and_eq_true, decide_eq_true_eq] at hfound
  obtain ⟨client, hclient, hname, hid⟩ := clientIdByName_eq_ok hnew
  refine .transferEdge record newOwner (List.mem_of_find?_eq_some (okOr_eq_ok.1 hrecord))
    ⟨client, hclient, hid⟩ ?_ ?_
  · intro other hother howner hsame
    exact ensure_eq_ok.1 hfree (List.any_eq_true.2 ⟨other, hother, by simp [howner, hsame, hfound.2]⟩)
  · refine hmoves (newOwner, record.name) ?_
    rw [LocalAdminRequest.moves, okOr_eq_ok.1 href, hfound.2, ← hid]
    exact List.mem_map_of_mem (List.mem_filter.2 ⟨hclient, decide_eq_true hname⟩)

theorem localRemoveEdge_mutation {edge : String}
    (h : localRemoveEdge edge state = .ok (.commit delta respond))
    (hremoves : ∀ r ∈ LocalAdminRequest.asked state (.removeEdge edge), asked.removes r) :
    Mutation P asked amb state delta := by
  obtain ⟨⟨ownerName, edgeName⟩, href, h⟩ := of_bind h
  obtain ⟨ownerId, howner, h⟩ := of_bind h
  obtain ⟨removed, hremoved, h⟩ := of_bind h
  obtain rfl := acknowledged_commit h
  have hmem := List.mem_of_find?_eq_some (okOr_eq_ok.1 hremoved)
  have hfound := List.find?_some (okOr_eq_ok.1 hremoved)
  simp only [Bool.and_eq_true, decide_eq_true_eq] at hfound
  obtain ⟨owner, hmemOwner, rfl, hid⟩ := clientIdByName_eq_ok howner
  refine .removeEdge removed hmem (hremoves _ ?_)
  rw [LocalAdminRequest.asked, okOr_eq_ok.1 href, ← hfound.2]
  exact mem_namedEdges hmem hmemOwner (hid.trans hfound.1.symm)

theorem localRemoveRelay_mutation (h : localRemoveRelay name state = .ok (.commit delta respond)) :
    Mutation P asked amb state delta := by
  obtain ⟨relay, hrelay, h⟩ := of_bind h
  obtain rfl := acknowledged_commit h
  exact .removeRelay relay (List.mem_of_find?_eq_some (okOr_eq_ok.1 hrelay))

theorem localAddProvisioner_mutation {name endpointId : String}
    (h : localAddProvisioner P name endpointId state = .ok (.commit delta respond)) :
    Mutation P asked amb state delta := by
  obtain ⟨_, _, h⟩ := of_bind h
  obtain ⟨parsed, _, h⟩ := of_bind h
  obtain ⟨_, hfree, h⟩ := of_bind h
  obtain rfl := acknowledged_commit h
  refine .addProvisioner name parsed (fun other hother => ?_)
  have hnone := List.any_eq_false.1 (Bool.eq_false_iff.2 (ensure_eq_ok.1 hfree)) other hother
  simpa using hnone

theorem localRemoveProvisioner_mutation
    (h : localRemoveProvisioner amb name state = .ok (.commit delta respond)) :
    Mutation P asked amb state delta := by
  obtain ⟨provisioner, hprovisioner, h⟩ := of_bind h
  obtain ⟨_, hclients, h⟩ := of_bind h
  obtain ⟨_, hinvites, h⟩ := of_bind h
  obtain rfl := acknowledged_commit h
  refine .removeProvisioner provisioner (List.mem_of_find?_eq_some (okOr_eq_ok.1 hprovisioner))
    ?_ ?_
  · intro client hclient hmanaged
    exact ensure_eq_ok.1 hclients (List.any_eq_true.2 ⟨client, hclient, decide_eq_true hmanaged⟩)
  · intro invite hinvite hactive hmanaged
    exact ensure_eq_ok.1 hinvites
      (List.any_eq_true.2 ⟨invite, hinvite, by simp [hactive, hmanaged]⟩)

/-- Every command commits one of the listed deltas. -/
theorem dispatchLocalAdmin_mutation {request : LocalAdminRequest}
    (h : dispatchLocalAdmin P key amb request state = .ok (.commit delta respond))
    (hremoves : ∀ r ∈ request.asked state, asked.removes r)
    (hmoves : ∀ move ∈ request.moves state, asked.moves move.1 move.2)
    (hinvites : request.invites → asked.invites) : Mutation P asked amb state delta := by
  cases request with
  | overview | listClients | listEdges | listRelays | listInvites | listProvisioners =>
    cases h
  | inviteClient name ttlSecs => exact localCreateInvite_mutation h (fun _ => rfl) (hinvites trivial)
  | inviteEdge name owner ttlSecs | inviteRelay name url ttlSecs =>
    obtain ⟨_, _, h⟩ := of_bind h
    exact localCreateInvite_mutation h (by simp) (hinvites trivial)
  | revokeInvite inviteId => exact localRevokeInvite_mutation h (hinvites trivial)
  | removeClient name => exact localRemoveClient_mutation h hremoves
  | transferEdge edge newClient => exact localTransferEdge_mutation h hmoves
  | removeEdge edge => exact localRemoveEdge_mutation h hremoves
  | removeRelay name => exact localRemoveRelay_mutation h
  | addProvisioner name endpointId => exact localAddProvisioner_mutation h
  | removeProvisioner name => exact localRemoveProvisioner_mutation h

end AgentScale.Control
