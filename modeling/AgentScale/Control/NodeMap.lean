import AgentScale.Control.Invitation

set_option autoImplicit false

/-! # Node maps

`signed_map` selects by role what a node is told: an Edge gets its owner, a Client gets its edges, a
Relay gets neither. Client and Edge maps carry a Relay credential made from the registration. -/

namespace AgentScale.Control

open Checked ControlApi RelayApi

variable (P : Platform)

/-- The credential payload `sign_relay_credential` signs. -/
def relayCredential (state : ControlState) (key : SecretKey) (endpointId : EndpointId P)
    (kind : RelaySubjectKind) (generation : Nat) (issuedAt expiresAt : Int) : RelayCredential :=
  { protocolVersion := RELAY_PROTOCOL_VERSION, audience := state.audience,
    controlId := (key.public P).text, endpointId := endpointId.text, kind, generation, issuedAt,
    expiresAt }

def signRelayCredential (state : ControlState) (key : SecretKey) (endpointId : EndpointId P)
    (kind : RelaySubjectKind) (generation : Nat) (issuedAt expiresAt : Int) :
    Except String String := do
  let signed ← SignedRelayCredential.sign P
    (relayCredential P state key endpointId kind generation issuedAt expiresAt) key
  return P.encodeRelayCredential signed

def relayInfo (relay : RelayRecord) : RelayInfo := ⟨relay.name, relay.url, relay.qadPort⟩

def edgeInfo (state : ControlState) (edge : EdgeRecord) : EdgeInfo :=
  ⟨edge.name, edge.endpointId, edge.ownerId, (clientName state edge.ownerId).getD "unknown"⟩

/-- The role a registered endpoint is served in: the Edge record wins over the Client record, and
    both over the Relay record. -/
inductive Role where
  | edge (record : EdgeRecord)
  | client (record : ClientRecord)
  | relay

def roleOf (state : ControlState) (id : String) : Option Role :=
  match Keyed.lookup EdgeRecord.endpointId id state.edges with
  | some edge => some (.edge edge)
  | none =>
    match Keyed.lookup ClientRecord.endpointId id state.clients with
    | some client => some (.client client)
    | none => if state.relays.any (·.endpointId = id) then some .relay else none

def Role.credential (state : ControlState) (key : SecretKey) (recipient : EndpointId P) :
    Role → Option RelayCredential
  | .edge record => some (relayCredential P state key recipient .edge record.credentialGeneration
      record.credentialIssuedAt record.credentialExpiresAt)
  | .client record => some (relayCredential P state key recipient .client record.credentialGeneration
      record.credentialIssuedAt record.credentialExpiresAt)
  | .relay => none

def Role.signCredential (state : ControlState) (key : SecretKey) (recipient : EndpointId P) :
    Role → Except String (Option String)
  | .edge record => do
    let token ← signRelayCredential P state key recipient .edge record.credentialGeneration
      record.credentialIssuedAt record.credentialExpiresAt
    return some token
  | .client record => do
    let token ← signRelayCredential P state key recipient .client record.credentialGeneration
      record.credentialIssuedAt record.credentialExpiresAt
    return some token
  | .relay => .ok none

def Role.allowedClients : Role → List String
  | .edge record => [record.ownerId]
  | .client _ | .relay => []

def Role.edges (state : ControlState) (recipient : String) : Role → List EdgeInfo
  | .client _ => (state.edges.filter (fun item => item.ownerId = recipient)).map (edgeInfo state)
  | .edge _ | .relay => []

/-- The unsigned map for a recipient with the given role and encoded credential. -/
def nodeMap (state : ControlState) (key : SecretKey) (now : Int) (recipient : EndpointId P)
    (role : Role) (relayCredential : Option String) : NodeMap :=
  { protocolVersion := CONTROL_PROTOCOL_VERSION, audience := state.audience,
    controlUrl := state.publicUrl, controlId := (key.public P).text, revision := state.revision,
    issuedAt := now, recipientId := recipient.text, relays := state.relays.map relayInfo,
    relayCredential, relayCaDer := state.relayCaDer, allowedClients := role.allowedClients,
    edges := role.edges state recipient.text }

def signedMap (state : ControlState) (key : SecretKey) (now : Int) (recipient : EndpointId P) :
    Except String SignedNodeMap := do
  let role ← okOr (roleOf state recipient.text) "node is not registered"
  let credential ← role.signCredential P state key recipient
  return SignedNodeMap.sign P (nodeMap P state key now recipient role credential) key

/-! ## What a successful `signedMap` says -/

variable {P} {state : ControlState} {key : SecretKey} {now : Int} {recipient : EndpointId P}

/-- The lookups behind a role. -/
theorem roleOf_eq_some {id : String} {role : Role} (h : roleOf state id = some role) :
    (∃ edge, role = .edge edge ∧
      Keyed.lookup EdgeRecord.endpointId id state.edges = some edge) ∨
    Keyed.lookup EdgeRecord.endpointId id state.edges = none ∧
      ((∃ client, role = .client client ∧
        Keyed.lookup ClientRecord.endpointId id state.clients = some client) ∨
      (role = .relay ∧ Keyed.lookup ClientRecord.endpointId id state.clients = none)) := by
  unfold roleOf at h
  split at h
  · next edge hedge => exact .inl ⟨edge, (Option.some.inj h).symm, hedge⟩
  · next hedge =>
    refine .inr ⟨hedge, ?_⟩
    split at h
    · next client hclient => exact .inl ⟨client, (Option.some.inj h).symm, hclient⟩
    · next hclient =>
      split at h
      · exact .inr ⟨(Option.some.inj h).symm, hclient⟩
      · cases h

theorem roleOf_edge {id : String} {edge : EdgeRecord} (h : roleOf state id = some (.edge edge)) :
    edge ∈ state.edges ∧ edge.endpointId = id := by
  rcases roleOf_eq_some h with ⟨_, hrole, hedge⟩ | ⟨_, ⟨_, hrole, _⟩ | ⟨hrole, _⟩⟩
  · obtain rfl := Role.edge.inj hrole
    exact Keyed.mem_of_lookup hedge
  all_goals cases hrole

theorem roleOf_client {id : String} {client : ClientRecord}
    (h : roleOf state id = some (.client client)) :
    client ∈ state.clients ∧ client.endpointId = id := by
  rcases roleOf_eq_some h with ⟨_, hrole, _⟩ | ⟨_, ⟨_, hrole, hclient⟩ | ⟨hrole, _⟩⟩
  · cases hrole
  · obtain rfl := Role.client.inj hrole
    exact Keyed.mem_of_lookup hclient
  · cases hrole

/-- A signed map is the map of the recipient's role. -/
theorem signedMap_eq_ok {m : SignedNodeMap} (h : signedMap P state key now recipient = .ok m) :
    ∃ role credential, roleOf state recipient.text = some role ∧
      role.signCredential P state key recipient = .ok credential ∧
      m.map = nodeMap P state key now recipient role credential := by
  obtain ⟨role, hrole, h⟩ := of_bind h
  obtain ⟨credential, hcred, h⟩ := of_bind h
  injection h with h
  subst h
  exact ⟨role, credential, okOr_eq_ok.1 hrole, hcred, rfl⟩

/-- The token of a role is the encoding of the role's credential under Control's signature. -/
theorem signCredential_eq_ok {role : Role} {token : Option String}
    (h : role.signCredential P state key recipient = .ok token) :
    token = (role.credential P state key recipient).map (fun c =>
      P.encodeRelayCredential ⟨c, P.sign key (canonicalBytes CREDENTIAL_DOMAIN c)⟩) := by
  cases role with
  | relay =>
    simp only [Role.signCredential, Except.ok.injEq] at h
    exact h.symm
  | edge edge | client client =>
    simp only [Role.signCredential] at h
    obtain ⟨text, hsigned, h⟩ := of_bind h
    obtain ⟨signed, hsign, hsigned⟩ := of_bind hsigned
    obtain ⟨_, _, hsign⟩ := of_bind hsign
    injection h with h
    injection hsigned with hsigned
    injection hsign with hsign
    subst hsign hsigned h
    rfl

theorem signCredential_validate {role : Role} {token : Option String} {c : RelayCredential}
    (h : role.signCredential P state key recipient = .ok token)
    (hc : role.credential P state key recipient = some c) : c.validate P = .ok () := by
  cases role with
  | relay => exact absurd hc (by simp [Role.credential])
  | edge edge | client client =>
    cases hc
    obtain ⟨text, hsigned, _⟩ := of_bind h
    obtain ⟨signed, hsign, _⟩ := of_bind hsigned
    obtain ⟨_, hvalid, _⟩ := of_bind hsign
    exact hvalid

end AgentScale.Control
