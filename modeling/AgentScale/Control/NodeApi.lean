import AgentScale.Control.Mutation

set_option autoImplicit false

/-! # The node API

The handlers that enrolling and enrolled nodes call: `claim`, `client_edge_invite`,
`client_edge_remove`, `watch` with the credential renewal it triggers, and `relay_watch` with the
QAD port update it triggers. A handler that takes the state lock twice reads `amb.earlier` in its
first critical section and the given state in its last one. -/

namespace AgentScale.Control

open Checked ControlApi RelayApi

variable (P : Platform)

/-! ## Claims -/

def validateRelayClaim (kind : InviteKind) (qadPort : Option UInt16) (csrDer : Option (List UInt8)) :
    Except ApiError (Option UInt16) :=
  match kind with
  | .relay _ => do
    (validateQadPort qadPort).mapError ApiError.bad
    ensure (qadPort.isSome = csrDer.isSome)
      (ApiError.bad "Relay QAD port and TLS CSR must be provided together")
    return qadPort
  | .client | .edge _ => do
    ensure (qadPort = none ∧ csrDer = none) (ApiError.bad "only Relay claims may advertise QAD")
    return none

def issueRelayTlsCertificate (now : Int) (csrDer : Option (List UInt8)) (kind : InviteKind)
    (qadPort : Option UInt16) : Except ApiError (Option (List UInt8)) :=
  match kind with
  | .client | .edge _ => do
    ensure (csrDer = none) (ApiError.bad "only Relay claims may include a TLS CSR")
    return none
  | .relay url =>
    match qadPort with
    | none => do
      ensure (csrDer = none) (ApiError.bad "QAD is disabled for this Relay enrollment")
      return none
    | some _ => do
      let csr ← okOr csrDer (ApiError.bad "QAD-enabled Relay claim is missing its TLS CSR")
      ensure (csr.length ≤ 16 * 1024) (ApiError.bad "Relay TLS CSR is too large")
      let parsed ← okOr (P.parseUrl url) (ApiError.bad (P.urlError url))
      let host ← okOr parsed.hostStr (ApiError.bad "Relay URL has no host")
      let altNames ← (P.csrAltNames csr).mapError ApiError.bad
      let expected ← (P.hostAltNames host).mapError ApiError.bad
      ensure (altNames = expected)
        (ApiError.bad "Relay TLS CSR SAN does not match its Relay URL host")
      let certificate ← (P.signCertificate csr host now).mapError ApiError.internal
      return some certificate

/-- The answer to a claim, from the state after it. -/
def joinResult (key : SecretKey) (now : Int) (invite : Invite) (endpointId : EndpointId P)
    (relayTlsCertificateDer : Option (List UInt8)) (state : ControlState) :
    Except ApiError JoinResult := do
  let map ← (signedMap P state key now endpointId).mapError ApiError.internal
  return { name := invite.name, kind := invite.kind, map, relayTlsCertificateDer }

/-- A Relay that repeats its claim must report the port it enrolled with. -/
def checkEnrolledPort (state : ControlState) (endpointId : String) (port : Option UInt16) :
    Except ApiError Unit :=
  match Keyed.lookup RelayRecord.endpointId endpointId state.relays with
  | some relay =>
    ensure (relay.qadPort = port)
      (ApiError.conflict "Relay QAD port differs from its enrolled value")
  | none => .ok ()

def claim (key : SecretKey) (amb : Ambient) (request : ClaimRequest) (state : ControlState) :
    Except ApiError (Plan JoinResult) := do
  let _ ← (request.token.verify P).mapError ApiError.unauthorized
  let endpointId ← (request.verify P).mapError ApiError.unauthorized
  (checkTime request.claim.issuedAt amb.received).mapError ApiError.unauthorized
  validateTokenForState P request.token state (key.public P) amb.received
  let record ← okOr (Keyed.lookup InviteRecord.id request.claim.inviteId state.invites)
    (ApiError.gone "unknown invite")
  let port ← validateRelayClaim record.invite.kind request.claim.relayQadPort
    request.claim.relayTlsCsr
  let certificate ← issueRelayTlsCertificate P amb.clock request.claim.relayTlsCsr
    record.invite.kind port
  match record.state with
  | .pending => do
    let generation ← okOr (U64.checkedAdd state.revision 1) (ApiError.internal "revision overflow")
    let change ← claimedNodeChange P state record.invite endpointId record.managedBy port
      generation amb.received
    return .commit
      (.topology [change, .putInvite (record.claim endpointId.text amb.received)])
      (joinResult P key amb.clock record.invite endpointId certificate)
  | .claimed =>
    if record.claimedBy = some request.claim.endpointId then do
      checkEnrolledPort state request.claim.endpointId port
      let result ← joinResult P key amb.clock record.invite endpointId certificate state
      return .reply result
    else .error (ApiError.conflict "invite was already claimed")
  | .revoked => .error (ApiError.gone "invite was revoked")

/-! ## Edge invitations and removals by their owner -/

def clientEdgeInvite (key : SecretKey) (amb : Ambient) (request : EdgeInviteRequest)
    (state : ControlState) : Except ApiError (Plan InviteResult) := do
  let clientId ← (request.verify P).mapError ApiError.unauthorized
  (checkTime request.issuedAt amb.received).mapError ApiError.unauthorized
  (validateName request.name).mapError ApiError.bad
  validateLength request.requestId "request id must contain 1-128 characters"
  ensure (request.audience = state.audience) (ApiError.unauthorized "control audience mismatch")
  let client ← okOr (Keyed.lookup ClientRecord.endpointId clientId.text state.clients)
    (ApiError.forbidden "client is not registered")
  ensure (¬ state.invites.any (·.requestId = some request.requestId))
    (ApiError.conflict "edge invitation request was already used")
  validateInviteName state amb.clock request.name (.edge clientId.text)
  let (result, record) ← (buildInvite P key state amb.clock amb.inviteToken request.name
    (.edge clientId.text) request.ttlSecs amb.secretToken).mapError ApiError.bad
  return .commit
    (.topology [.putInvite { record with
      requestId := some request.requestId, managedBy := client.managedBy }])
    (fun _ => .ok result)

def clientEdgeRemove (key : SecretKey) (amb : Ambient) (request : EdgeRemoveRequest)
    (state : ControlState) : Except ApiError (Plan SignedNodeMap) := do
  let client ← (request.verify P).mapError ApiError.unauthorized
  (checkTime request.issuedAt amb.received).mapError ApiError.unauthorized
  (validateName request.name).mapError ApiError.bad
  validateLength request.nonce "nonce must contain 1-128 characters"
  ensure (request.audience = state.audience) (ApiError.unauthorized "control audience mismatch")
  ensure (state.clients.any (·.endpointId = client.text))
    (ApiError.forbidden "client is not registered")
  let removed ← okOr
    (state.edges.find? (fun edge => edge.ownerId = client.text && edge.name = request.name &&
      edge.endpointId = request.endpointId))
    (ApiError.bad ("unknown edge '" ++ request.name ++ "' with the expected identity"))
  return .commit
    (.revocation [.deleteEdge removed.endpointId, revocationChange state removed.endpointId
      removed.credentialGeneration removed.credentialExpiresAt])
    (fun state' => (signedMap P state' key amb.clock client).mapError ApiError.internal)

/-! ## Node watches -/

/-- When the current credential of an endpoint expires, its Client record before its Edge record. -/
def credentialExpiry (state : ControlState) (id : String) : Option Int :=
  ((Keyed.lookup ClientRecord.endpointId id state.clients).map ClientRecord.credentialExpiresAt).or
    ((Keyed.lookup EdgeRecord.endpointId id state.edges).map EdgeRecord.credentialExpiresAt)

/-- The first critical section of a renewal: whether there is anything to renew. -/
def renewalDue (now : Int) (endpointId : EndpointId P) (state : ControlState) :
    Except ApiError Bool :=
  match credentialExpiry state endpointId.text with
  | none => do
    anyhowNodeExists P state endpointId
    return false
  | some expiresAt => .ok (decide (expiresAt ≤ renewAt now))

/-- The second critical section of a renewal, which repeats the decision. -/
def renewRelayCredential (now : Int) (endpointId : EndpointId P) (state : ControlState) :
    Except ApiError (Plan Bool) :=
  match Keyed.lookup ClientRecord.endpointId endpointId.text state.clients with
  | some record =>
    if renewAt now < record.credentialExpiresAt then .ok (.reply false)
    else .ok (.commit (.quiet [.putClient (record.renew now)]) (fun _ => .ok true))
  | none =>
    match Keyed.lookup EdgeRecord.endpointId endpointId.text state.edges with
    | some record =>
      if renewAt now < record.credentialExpiresAt then .ok (.reply false)
      else .ok (.commit (.quiet [.putEdge (record.renew now)]) (fun _ => .ok true))
    | none => do
      anyhowNodeExists P state endpointId
      return .reply false

def renewRelayCredentialIfNeeded (amb : Ambient) (endpointId : EndpointId P) (state : ControlState) :
    Except ApiError (Plan Bool) := do
  let due ← renewalDue P amb.received endpointId amb.earlier
  if due then renewRelayCredential P amb.received endpointId state else return .reply false

/-- The renewal `watch` runs before it waits. -/
def watchRenewal (amb : Ambient) (request : WatchRequest) (state : ControlState) :
    Except ApiError (Plan Bool) := do
  let endpointId ← (request.verify P).mapError ApiError.unauthorized
  (checkTime request.issuedAt amb.received).mapError ApiError.unauthorized
  renewRelayCredentialIfNeeded P amb endpointId state

def waitForRevision (endpointId : EndpointId P) (known : Nat) (state : ControlState) :
    Except ApiError Bool := do
  anyhowNodeExists P state endpointId
  return decide (known < state.revision)

/-- Whether a watch answers with a map: it has renewed the credential, or there is a newer revision. -/
def watchReady (amb : Ambient) (endpointId : EndpointId P) (known : Nat) (renewed : Bool) :
    Except ApiError Bool :=
  if renewed then .ok true else waitForRevision P endpointId known amb.earlier

/-- `watch` after its renewal, which returned `renewed`; no map is the answer 204. -/
def watch (key : SecretKey) (amb : Ambient) (request : WatchRequest) (renewed : Bool)
    (state : ControlState) : Except ApiError (Option SignedNodeMap) := do
  let endpointId ← (request.verify P).mapError ApiError.unauthorized
  (checkTime request.issuedAt amb.received).mapError ApiError.unauthorized
  let ready ← watchReady P amb endpointId request.knownRevision renewed
  if ready then do
    let map ← (signedMap P state key amb.clock endpointId).mapError ApiError.internal
    return some map
  else return none

/-! ## Relay watches -/

def updateRelayQadPort (endpointId : EndpointId P) (qadPort : Option UInt16) (state : ControlState) :
    Except ApiError (Plan Unit) := do
  let relay ← okOr (Keyed.lookup RelayRecord.endpointId endpointId.text state.relays)
    (ApiError.forbidden "relay is not registered")
  if relay.qadPort = qadPort then return .reply ()
  else return .commit (.topology [.putRelay { relay with qadPort }]) (fun _ => .ok ())

/-- Both critical sections of `update_relay_qad_port_if_needed` take the same decision. -/
def updateRelayQadPortIfNeeded (amb : Ambient) (endpointId : EndpointId P) (qadPort : Option UInt16)
    (state : ControlState) : Except ApiError (Plan Unit) := do
  let first ← updateRelayQadPort P endpointId qadPort amb.earlier
  match first with
  | .reply () => return .reply ()
  | .commit _ _ => updateRelayQadPort P endpointId qadPort state

/-- The port update `relay_watch` runs before it waits. -/
def relayWatchPort (amb : Ambient) (request : WatchRequest) (state : ControlState) :
    Except ApiError (Plan Unit) := do
  let endpointId ← (request.verify P).mapError ApiError.unauthorized
  (checkTime request.issuedAt amb.received).mapError ApiError.unauthorized
  (validateQadPort request.relayQadPort).mapError ApiError.bad
  updateRelayQadPortIfNeeded P amb endpointId request.relayQadPort state

def waitForRelayRevision (endpointId : EndpointId P) (known : Nat) (state : ControlState) :
    Except ApiError Bool := do
  anyhowRelayExists P state endpointId
  ensure (known ≤ state.relayRevision) (ApiError.bad "Relay revision is ahead of Control")
  return decide (known < state.relayRevision)

def RevocationRecord.revocation (r : RevocationRecord) : Revocation :=
  ⟨r.endpointId, r.revokedThroughGeneration, r.expiresAt, r.revision⟩

/-- The update for a Relay that has applied everything up to `known`. -/
def revocationUpdate (state : ControlState) (now : Int) (known : Nat) : RevocationUpdate :=
  { protocolVersion := RELAY_PROTOCOL_VERSION, audience := state.audience,
    version := state.relayRevision, issuedAt := now,
    revocations := (state.revocations.filter (fun r => known < r.revision)).map
      RevocationRecord.revocation }

/-- `relay_watch` after its port update; no update is the answer 204. -/
def relayWatch (key : SecretKey) (amb : Ambient) (request : WatchRequest) (state : ControlState) :
    Except ApiError (Option SignedRevocationUpdate) := do
  let endpointId ← (request.verify P).mapError ApiError.unauthorized
  (checkTime request.issuedAt amb.received).mapError ApiError.unauthorized
  (validateQadPort request.relayQadPort).mapError ApiError.bad
  let ready ← waitForRelayRevision P endpointId request.knownRevision amb.earlier
  if ready then do
    anyhowRelayExists P state endpointId
    let signed ← (SignedRevocationUpdate.sign P
      (revocationUpdate state amb.clock request.knownRevision) key).mapError ApiError.internal
    return some signed
  else return none

/-! ## What the handlers commit -/

variable {P} {key : SecretKey} {amb : Ambient} {state : ControlState} {delta : StateDelta}
  {asked : Demand}

/-- What `claim` has checked before it looks at the state of the invitation. -/
structure ClaimChecks (amb : Ambient) (request : ClaimRequest) (record : InviteRecord)
    (endpointId : EndpointId P) (port : Option UInt16) : Prop where
  claimant : parseEndpointId P request.claim.endpointId = some endpointId
  payload : record.invite = request.token.invite
  inTime : amb.received ≤ record.invite.expiresAt
  validPort : port ≠ some 0

theorem validateRelayClaim_eq_ok {kind : InviteKind} {qadPort port : Option UInt16}
    {csrDer : Option (List UInt8)} (h : validateRelayClaim kind qadPort csrDer = .ok port) :
    port ≠ some 0 := by
  unfold validateRelayClaim at h
  split at h
  · obtain ⟨_, hport, h⟩ := of_bind h
    obtain ⟨_, _, h⟩ := of_bind h
    cases h
    exact ensure_eq_ok.1 (mapError_eq_ok.1 hport)
  all_goals
    obtain ⟨_, _, h⟩ := of_bind h
    cases h
    simp

/-- A token that passes is the stored invitation, and has not expired. -/
theorem validateTokenForState_eq_ok {token : JoinToken} {controlId : EndpointId P} {now : Int}
    {u : Unit} (h : validateTokenForState P token state controlId now = .ok u) :
    now ≤ token.invite.expiresAt ∧ ∃ stored,
      Keyed.lookup InviteRecord.id token.invite.inviteId state.invites = some stored ∧
        stored.invite = token.invite := by
  obtain ⟨_, _, h⟩ := of_bind h
  obtain ⟨_, htime, h⟩ := of_bind h
  obtain ⟨stored, hstored, h⟩ := of_bind h
  exact ⟨ensure_eq_ok.1 htime, stored, okOr_eq_ok.1 hstored, ensure_eq_ok.1 h⟩

variable {endpointId : EndpointId P}

theorem claimVerify_eq_ok {request : ClaimRequest} (h : request.verify P = .ok endpointId) :
    request.claim.inviteId = request.token.invite.inviteId ∧
      parseEndpointId P request.claim.endpointId = some endpointId := by
  obtain ⟨_, _, h⟩ := of_bind h
  obtain ⟨_, hid, h⟩ := of_bind h
  obtain ⟨id, hparse, h⟩ := of_bind h
  obtain ⟨_, _, h⟩ := of_bind h
  cases h
  exact ⟨ensure_eq_ok.1 hid, okOr_eq_ok.1 hparse⟩

/-- An accepted claim names a stored invitation. It enrols a node while the invitation is pending, and
    only answers again when the endpoint it names has claimed it already. -/
theorem claim_eq_ok {request : ClaimRequest} {plan : Plan JoinResult}
    (h : claim P key amb request state = .ok plan) :
    ∃ record endpointId port certificate,
      Keyed.lookup InviteRecord.id request.claim.inviteId state.invites = some record ∧
      ClaimChecks amb request record endpointId port ∧
      ((record.state = .pending ∧ ∃ change,
          claimedNodeChange P state record.invite endpointId record.managedBy port
            (state.revision + 1) amb.received = .ok change ∧
          plan = .commit (.topology [change, .putInvite (record.claim endpointId.text amb.received)])
            (joinResult P key amb.clock record.invite endpointId certificate)) ∨
        (record.state = .claimed ∧ record.claimedBy = some request.claim.endpointId ∧ ∃ result,
          joinResult P key amb.clock record.invite endpointId certificate state = .ok result ∧
          plan = .reply result)) := by
  obtain ⟨_, _, h⟩ := of_bind h
  obtain ⟨endpointId, hverify, h⟩ := of_bind h
  obtain ⟨_, _, h⟩ := of_bind h
  obtain ⟨_, htoken, h⟩ := of_bind h
  obtain ⟨record, hrecord, h⟩ := of_bind h
  obtain ⟨port, hport, h⟩ := of_bind h
  obtain ⟨certificate, _, h⟩ := of_bind h
  have hchecks : ClaimChecks amb request record endpointId port := by
    -- the token and the claim name the same invitation, so both lookups find the same record
    obtain ⟨hid, hclaimant⟩ := claimVerify_eq_ok (mapError_eq_ok.1 hverify)
    obtain ⟨hinTime, stored, hstored, hpayload⟩ := validateTokenForState_eq_ok htoken
    rw [← hid, okOr_eq_ok.1 hrecord] at hstored
    cases hstored
    exact ⟨hclaimant, hpayload, hpayload ▸ hinTime, validateRelayClaim_eq_ok hport⟩
  refine ⟨record, endpointId, port, certificate, okOr_eq_ok.1 hrecord, hchecks, ?_⟩
  split at h
  · next hpending =>
    obtain ⟨generation, hgen, h⟩ := of_bind h
    obtain ⟨change, hchange, h⟩ := of_bind h
    rw [(U64.checkedAdd_eq_some.1 (okOr_eq_ok.1 hgen)).2] at hchange
    exact .inl ⟨hpending, change, hchange, (pure_eq_ok.1 h).symm⟩
  · next hclaimed =>
    split at h
    · next hby =>
      obtain ⟨_, _, h⟩ := of_bind h
      obtain ⟨result, hresult, h⟩ := of_bind h
      exact .inr ⟨hclaimed, hby, result, hresult, (pure_eq_ok.1 h).symm⟩
    · cases h
  · cases h

theorem claim_mutation {request : ClaimRequest}
    {respond : ControlState → Except ApiError JoinResult}
    (h : claim P key amb request state = .ok (.commit delta respond))
    (henrols : asked.enrols request.token.invite) : Mutation P asked amb state delta := by
  obtain ⟨record, endpointId, port, certificate, hrecord, hchecks,
    ⟨hpending, change, hchange, hplan⟩ | ⟨_, _, _, _, hplan⟩⟩ := claim_eq_ok h
  · obtain ⟨rfl, _⟩ := Plan.commit.inj hplan
    exact .claim record endpointId port change (Keyed.mem_of_lookup hrecord).1 hpending hchange
      hchecks.inTime hchecks.validPort (hchecks.payload ▸ henrols)
  · cases hplan

/-- An accepted edge invitation carries a fresh timestamp and a request id that no retained
    invitation has. -/
theorem clientEdgeInvite_eq_ok {request : EdgeInviteRequest} {plan : Plan InviteResult}
    (h : clientEdgeInvite P key amb request state = .ok plan) :
    ∃ (clientId : EndpointId P) (client : ClientRecord) (result : InviteResult)
      (record : InviteRecord),
      (request.issuedAt - amb.received).natAbs ≤ CLOCK_SKEW_SECS ∧
      (∀ invite ∈ state.invites, invite.requestId ≠ some request.requestId) ∧
      validateInviteName state amb.clock request.name (.edge clientId.text) = .ok () ∧
      buildInvite P key state amb.clock amb.inviteToken request.name (.edge clientId.text)
        request.ttlSecs amb.secretToken = .ok (result, record) ∧
      plan = .commit (.topology [.putInvite { record with
          requestId := some request.requestId, managedBy := client.managedBy }])
        (fun _ => .ok result) := by
  obtain ⟨clientId, _, h⟩ := of_bind h
  obtain ⟨_, htime, h⟩ := of_bind h
  obtain ⟨_, _, h⟩ := of_bind h
  obtain ⟨_, _, h⟩ := of_bind h
  obtain ⟨_, _, h⟩ := of_bind h
  obtain ⟨client, _, h⟩ := of_bind h
  obtain ⟨_, hunused, h⟩ := of_bind h
  obtain ⟨_, hfree, h⟩ := of_bind h
  obtain ⟨⟨result, record⟩, hbuild, h⟩ := of_bind h
  refine ⟨clientId, client, result, record, ensure_eq_ok.1 (mapError_eq_ok.1 htime), ?_, hfree,
    mapError_eq_ok.1 hbuild, (pure_eq_ok.1 h).symm⟩
  intro invite hinvite hused
  exact ensure_eq_ok.1 hunused (List.any_eq_true.2 ⟨invite, hinvite, decide_eq_true hused⟩)

theorem clientEdgeInvite_mutation {request : EdgeInviteRequest}
    {respond : ControlState → Except ApiError InviteResult}
    (h : clientEdgeInvite P key amb request state = .ok (.commit delta respond))
    (hinvites : asked.invites) : Mutation P asked amb state delta := by
  obtain ⟨clientId, client, result, record, _, _, hfree, hbuild, hplan⟩ := clientEdgeInvite_eq_ok h
  obtain ⟨rfl, _⟩ := Plan.commit.inj hplan
  obtain ⟨hid, hkind, hrecord⟩ := buildInvite_eq_ok P hbuild
  obtain ⟨hname, _, hlives, _, _⟩ := buildInvite_spec P hbuild
  refine .newInvite _ hid ?_ ?_ ?_ hlives ?_ ?_ hinvites
  · rw [hrecord]
  · rw [hrecord]
  · rw [hrecord]
  · simpa only [hname, hkind] using hfree
  · intro hclient
    cases hclient.symm.trans hkind

/-- An accepted removal always commits, and answers with the owner's new map. -/
theorem clientEdgeRemove_eq_ok {request : EdgeRemoveRequest} {plan : Plan SignedNodeMap}
    (h : clientEdgeRemove P key amb request state = .ok plan) :
    ∃ (client : EndpointId P) (removed : EdgeRecord), removed ∈ state.edges ∧
      removed.endpointId = request.endpointId ∧ plan = .commit
        (.revocation [.deleteEdge removed.endpointId, revocationChange state removed.endpointId
          removed.credentialGeneration removed.credentialExpiresAt])
        (fun state' => (signedMap P state' key amb.clock client).mapError ApiError.internal) := by
  obtain ⟨client, _, h⟩ := of_bind h
  obtain ⟨_, _, h⟩ := of_bind h
  obtain ⟨_, _, h⟩ := of_bind h
  obtain ⟨_, _, h⟩ := of_bind h
  obtain ⟨_, _, h⟩ := of_bind h
  obtain ⟨_, _, h⟩ := of_bind h
  obtain ⟨removed, hremoved, h⟩ := of_bind h
  have hfound := List.find?_some (okOr_eq_ok.1 hremoved)
  simp only [Bool.and_eq_true, decide_eq_true_eq] at hfound
  exact ⟨client, removed, List.mem_of_find?_eq_some (okOr_eq_ok.1 hremoved), hfound.2,
    (pure_eq_ok.1 h).symm⟩

theorem clientEdgeRemove_mutation {request : EdgeRemoveRequest}
    {respond : ControlState → Except ApiError SignedNodeMap}
    (h : clientEdgeRemove P key amb request state = .ok (.commit delta respond))
    (hremoves : ∀ e ∈ state.edges, e.endpointId = request.endpointId →
      asked.removes e.registration) :
    Mutation P asked amb state delta := by
  obtain ⟨client, removed, hremoved, hid, hplan⟩ := clientEdgeRemove_eq_ok h
  obtain ⟨rfl, _⟩ := Plan.commit.inj hplan
  exact .removeEdge removed hremoved (hremoves removed hremoved hid)

variable {request : WatchRequest}

/-- A watch that answers with a map has signed it in the current state. -/
theorem watch_eq_ok {renewed : Bool} {signed : SignedNodeMap}
    (h : watch P key amb request renewed state = .ok (some signed)) :
    ∃ recipient, request.verify P = .ok recipient ∧
      signedMap P state key amb.clock recipient = .ok signed := by
  obtain ⟨recipient, hverify, h⟩ := of_bind h
  obtain ⟨_, _, h⟩ := of_bind h
  obtain ⟨ready, _, h⟩ := of_bind h
  split at h
  · obtain ⟨map, hmap, h⟩ := of_bind h
    cases pure_eq_ok.1 h
    exact ⟨recipient, mapError_eq_ok.1 hverify, mapError_eq_ok.1 hmap⟩
  · cases h

theorem watchReady_of_behind {known : Nat} (renewed : Bool)
    (hearlier : amb.earlier.clients.any (·.endpointId = endpointId.text) ∨ amb.earlier.edges.any (·.endpointId = endpointId.text))
    (hbehind : known < amb.earlier.revision) :
    watchReady P amb endpointId known renewed = .ok true := by
  cases renewed with
  | true => rfl
  | false => exact bind_ok (ensure_of hearlier) (pure_eq_ok.2 (decide_eq_true hbehind))

theorem watch_of_ready {renewed : Bool} {recipient : EndpointId P} {signed : SignedNodeMap}
    (hverify : request.verify P = .ok recipient)
    (htime : checkTime request.issuedAt amb.received = .ok ())
    (hready : watchReady P amb recipient request.knownRevision renewed = .ok true)
    (hsigned : signedMap P state key amb.clock recipient = .ok signed) :
    watch P key amb request renewed state = .ok (some signed) :=
  bind_ok (mapError_eq_ok.2 hverify) (bind_ok (mapError_eq_ok.2 htime)
    (bind_ok hready (bind_ok (mapError_eq_ok.2 hsigned) rfl)))

/-- A Relay watch that answers with an update has signed the one for the known revision. -/
theorem relayWatch_eq_ok {signed : SignedRevocationUpdate}
    (h : relayWatch P key amb request state = .ok (some signed)) :
    SignedRevocationUpdate.sign P (revocationUpdate state amb.clock request.knownRevision) key =
      .ok signed := by
  obtain ⟨_, _, h⟩ := of_bind h
  obtain ⟨_, _, h⟩ := of_bind h
  obtain ⟨_, _, h⟩ := of_bind h
  obtain ⟨ready, _, h⟩ := of_bind h
  split at h
  · obtain ⟨_, _, h⟩ := of_bind h
    obtain ⟨update, hupdate, h⟩ := of_bind h
    cases pure_eq_ok.1 h
    exact mapError_eq_ok.1 hupdate
  · cases h

theorem relayWatch_of_behind {relayId : EndpointId P} {signed : SignedRevocationUpdate}
    (hverify : request.verify P = .ok relayId)
    (htime : checkTime request.issuedAt amb.received = .ok ())
    (hport : request.relayQadPort ≠ some 0)
    (hearlier : amb.earlier.relays.any (·.endpointId = relayId.text))
    (hbehind : request.knownRevision < amb.earlier.relayRevision)
    (hnow : state.relays.any (·.endpointId = relayId.text))
    (hsigned : SignedRevocationUpdate.sign P (revocationUpdate state amb.clock request.knownRevision) key = .ok signed) :
    relayWatch P key amb request state = .ok (some signed) := by
  have hready : waitForRelayRevision P relayId request.knownRevision amb.earlier = .ok true :=
    bind_ok (ensure_of hearlier) (bind_ok (ensure_of hbehind.le)
      (pure_eq_ok.2 (decide_eq_true hbehind)))
  exact bind_ok (mapError_eq_ok.2 hverify) (bind_ok (mapError_eq_ok.2 htime)
    (bind_ok (mapError_eq_ok.2 (ensure_of hport)) (bind_ok hready
      (bind_ok (ensure_of hnow) (bind_ok (mapError_eq_ok.2 hsigned) rfl)))))

/-- The answer to a claim carries the map of the state it is computed from. -/
theorem joinResult_eq_ok {now : Int} {invite : Invite} {certificate : Option (List UInt8)}
    {result : JoinResult}
    (h : joinResult P key now invite endpointId certificate state = .ok result) :
    signedMap P state key now endpointId = .ok result.map := by
  obtain ⟨map, hmap, h⟩ := of_bind h
  cases h
  exact mapError_eq_ok.1 hmap

theorem watchRenewal_mutation {respond : ControlState → Except ApiError Bool}
    (h : watchRenewal P amb request state = .ok (.commit delta respond)) :
    Mutation P asked amb state delta := by
  obtain ⟨endpointId, _, h⟩ := of_bind h
  obtain ⟨_, _, h⟩ := of_bind h
  obtain ⟨due, _, h⟩ := of_bind h
  cases due with
  | false => cases h
  | true =>
    simp only [if_true, renewRelayCredential] at h
    split at h
    · next record hrecord =>
      split at h
      · cases h
      · next hdue =>
        obtain ⟨rfl, _⟩ := Plan.commit.inj (Except.ok.inj h)
        exact .renewClient record (Keyed.mem_of_lookup hrecord).1 (not_lt.1 hdue)
    · split at h
      · next record hrecord =>
        split at h
        · cases h
        · next hdue =>
          obtain ⟨rfl, _⟩ := Plan.commit.inj (Except.ok.inj h)
          exact .renewEdge record (Keyed.mem_of_lookup hrecord).1 (not_lt.1 hdue)
      · obtain ⟨_, _, h⟩ := of_bind h
        cases h

theorem relayWatchPort_mutation {respond : ControlState → Except ApiError Unit}
    (h : relayWatchPort P amb request state = .ok (.commit delta respond)) :
    Mutation P asked amb state delta := by
  obtain ⟨endpointId, _, h⟩ := of_bind h
  obtain ⟨_, _, h⟩ := of_bind h
  obtain ⟨_, hport, h⟩ := of_bind h
  obtain ⟨first, _, h⟩ := of_bind h
  cases first with
  | reply u => cases h
  | commit _ _ =>
    obtain ⟨relay, hrelay, h⟩ := of_bind h
    split at h
    · cases h
    · obtain ⟨rfl, _⟩ := Plan.commit.inj (pure_eq_ok.1 h)
      exact .qadPort relay _ (Keyed.mem_of_lookup (okOr_eq_ok.1 hrelay)).1
        (ensure_eq_ok.1 (mapError_eq_ok.1 hport))

end AgentScale.Control
