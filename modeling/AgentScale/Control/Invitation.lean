import AgentScale.Control.State

set_option autoImplicit false

/-! # Invitations

Building, listing and checking invitations, and the text checks shared by the request handlers. The
clock is an argument wherever the source calls `unix_timestamp`. -/

namespace AgentScale.Control

open Checked ControlApi

variable (P : Platform)

/-! ## Text checks -/

/-- A length range in bytes, then a character set: ASCII letters, digits and `extra`. -/
def validateText (low high : Nat) (extra : List Char) (lengthError charError value : String) :
    Except String Unit := do
  ensure (low ≤ value.utf8ByteSize ∧ value.utf8ByteSize ≤ high) lengthError
  ensure (value.toList.all (fun c => isAsciiAlphanumeric c || extra.contains c)) charError

def validateName : String → Except String Unit :=
  validateText 1 64 ['-', '_', '.'] "name must contain 1-64 characters"
    "name may contain only ASCII letters, digits, '-', '_', and '.'"

def validateRequestId : String → Except String Unit :=
  validateText 1 128 ['-', '_', '.', ':', '/'] "request id must contain 1-128 characters"
    "request id contains unsupported characters"

def validateJoinSecret : String → Except String Unit :=
  validateText 32 128 ['-', '_'] "join secret must contain 32-128 characters"
    "join secret must use URL-safe base64 characters"

/-- The length check alone, which request ids of edge invitations and nonces get. -/
def validateLength (value error : String) : Except ApiError Unit :=
  ensure (value ≠ "" ∧ value.utf8ByteSize ≤ 128) (ApiError.bad error)

def checkTime (issuedAt now : Int) : Except String Unit :=
  ensure ((issuedAt - now).natAbs ≤ CLOCK_SKEW_SECS) "request timestamp outside allowed window"

def validateQadPort (port : Option UInt16) : Except String Unit :=
  ensure (port ≠ some 0) "QAD public port must be between 1 and 65535"

/-! ## Names in use -/

def inviteIsActivePending (now : Int) (record : InviteRecord) : Bool :=
  record.state = .pending && now ≤ record.invite.expiresAt

/-- Whether a pending invitation claims the same name or Relay URL. -/
def inviteConflicts (name : String) (kind : InviteKind) (record : InviteRecord) : Bool :=
  match record.invite.kind, kind with
  | .client, .client => record.invite.name = name
  | .edge left, .edge right => left = right && record.invite.name = name
  | .relay left, .relay right => record.invite.name = name || left = right
  | _, _ => false

/-- Whether a registered node has the same name or Relay URL. -/
def nodeConflicts (state : ControlState) (name : String) : InviteKind → Bool
  | .client => state.clients.any (·.name = name)
  | .edge ownerId => state.edges.any (fun item => item.ownerId = ownerId && item.name = name)
  | .relay url => state.relays.any (fun item => item.name = name || item.url = url)

def validateInviteName (state : ControlState) (now : Int) (name : String) (kind : InviteKind) :
    Except ApiError Unit :=
  let pendingDuplicate := state.invites.any (fun record =>
    inviteIsActivePending now record && inviteConflicts name kind record)
  if nodeConflicts state name kind || pendingDuplicate then
    .error (ApiError.conflict "name or relay URL already exists")
  else .ok ()

variable {state : ControlState} {kind : InviteKind} {now : Int}

/-- A name is free when no registered node has it and no active invitation reserves it. -/
theorem validateInviteName_eq_ok {name : String} {u : Unit} :
    validateInviteName state now name kind = .ok u ↔
      nodeConflicts state name kind = false ∧ ∀ record ∈ state.invites,
        inviteIsActivePending now record = true → inviteConflicts name kind record = false := by
  unfold validateInviteName
  by_cases hnode : nodeConflicts state name kind = true
  · simp [hnode]
  · rw [Bool.not_eq_true] at hnode
    simp [hnode]

/-! ## Building invitations -/

/-- The record and the answer for a new invitation. -/
def buildInvite (key : SecretKey) (state : ControlState) (now : Int) (inviteId name : String)
    (kind : InviteKind) (ttlSecs : Nat) (secret : String) :
    Except String (InviteResult × InviteRecord) := do
  ensure (1 ≤ ttlSecs ∧ ttlSecs ≤ 7 * 24 * 60 * 60) "TTL must be between 1 second and 7 days"
  let expiresAt ← okOr (I64.checkedAdd now ttlSecs) "invite expiry overflow"
  let invite : Invite :=
    { protocolVersion := CONTROL_PROTOCOL_VERSION, audience := state.audience,
      controlUrl := state.publicUrl, controlId := (key.public P).text, inviteId, name, kind,
      secretHash := hashSecret P secret, expiresAt }
  let token := JoinToken.new P invite secret key
  return (⟨inviteId, token.joinUrl P, expiresAt⟩, ⟨invite, .pending, none, none, none, none, none⟩)

/-- The answer for an invitation that already exists. -/
def inviteResult (key : SecretKey) (invite : Invite) (secret : String) :
    Except String InviteResult := do
  ensure (hashSecret P secret = invite.secretHash) "join secret does not match existing request"
  let token := JoinToken.new P invite secret key
  return ⟨invite.inviteId, token.joinUrl P, invite.expiresAt⟩

variable {inviteId name secret : String} {result : InviteResult} {record : InviteRecord}
  {key : SecretKey} {ttlSecs : Nat}

/-- What a built invitation looks like: pending, under the drawn id, with no other field set. -/
theorem buildInvite_eq_ok
    (h : buildInvite P key state now inviteId name kind ttlSecs secret = .ok (result, record)) :
    record.id = inviteId ∧ record.invite.kind = kind ∧
      record = ⟨record.invite, .pending, none, none, none, none, none⟩ := by
  obtain ⟨_, _, h⟩ := of_bind h
  obtain ⟨_, _, h⟩ := of_bind h
  injection h with h
  injection h with _ h
  subst h
  exact ⟨rfl, rfl, rfl⟩

/-- The rest of a built invitation, and the answer that goes with it. -/
theorem buildInvite_spec
    (h : buildInvite P key state now inviteId name kind ttlSecs secret = .ok (result, record)) :
    record.invite.name = name ∧ record.invite.secretHash = hashSecret P secret ∧
      now < record.invite.expiresAt ∧ record.invite.expiresAt ≤ I64.maxValue ∧
      result = ⟨inviteId, (JoinToken.new P record.invite secret key).joinUrl P,
        record.invite.expiresAt⟩ := by
  obtain ⟨_, httl, h⟩ := of_bind h
  obtain ⟨expiresAt, hexpires, h⟩ := of_bind h
  have hfits := okOr_eq_ok.1 hexpires
  unfold I64.checkedAdd at hfits
  split at hfits
  · next hrange =>
    cases hfits
    have hone := (ensure_eq_ok.1 httl).1
    injection h with h
    injection h with hresult hrecord
    subst hresult hrecord
    exact ⟨rfl, rfl, by simp only; omega, hrange.2, rfl⟩
  · cases hfits

/-- What a built invitation says about the Control that has built it, and until when. -/
theorem buildInvite_invite
    (h : buildInvite P key state now inviteId name kind ttlSecs secret = .ok (result, record)) :
    record.invite.controlId = (key.public P).text ∧ record.invite.audience = state.audience ∧
      record.invite.controlUrl = state.publicUrl ∧ record.invite.expiresAt = now + ttlSecs := by
  obtain ⟨_, _, h⟩ := of_bind h
  obtain ⟨expiresAt, hexpires, h⟩ := of_bind h
  have hfits := okOr_eq_ok.1 hexpires
  unfold I64.checkedAdd at hfits
  split at hfits
  · cases hfits
    injection h with h
    injection h with _ hrecord
    subst hrecord
    exact ⟨rfl, rfl, rfl, rfl⟩
  · cases hfits

/-! ## Listing and checking -/

def inviteInfo (now : Int) (invite : InviteRecord) : InviteInfo :=
  { inviteId := invite.invite.inviteId
    name := invite.invite.name
    kind := invite.invite.kind
    expiresAt := invite.invite.expiresAt
    state :=
      if invite.state = .pending ∧ invite.invite.expiresAt < now then "expired"
      else match invite.state with
        | .pending => "pending"
        | .claimed => "claimed"
        | .revoked => "revoked" }

def validateTokenForState (token : JoinToken) (state : ControlState) (controlId : EndpointId P)
    (now : Int) : Except ApiError Unit := do
  ensure (token.invite.controlId = controlId.text ∧ token.invite.audience = state.audience ∧
      token.invite.controlUrl = state.publicUrl)
    (ApiError.unauthorized "invite belongs to another control")
  ensure (now ≤ token.invite.expiresAt) (ApiError.gone "invite expired")
  let stored ← okOr (Keyed.lookup InviteRecord.id token.invite.inviteId state.invites)
    (ApiError.gone "unknown invite")
  ensure (stored.invite = token.invite) (ApiError.unauthorized "invite payload mismatch")

/-! ## Registered nodes -/

def clientName (state : ControlState) (id : String) : Option String :=
  (Keyed.lookup ClientRecord.endpointId id state.clients).map ClientRecord.name

def anyhowClientExists (state : ControlState) (id : String) : Except ApiError Unit :=
  ensure (state.clients.any (·.endpointId = id)) (ApiError.bad "unknown client")

def anyhowNodeExists (state : ControlState) (id : EndpointId P) : Except ApiError Unit :=
  ensure (state.clients.any (·.endpointId = id.text) ∨ state.edges.any (·.endpointId = id.text))
    (ApiError.forbidden "node is not registered")

def anyhowRelayExists (state : ControlState) (id : EndpointId P) : Except ApiError Unit :=
  ensure (state.relays.any (·.endpointId = id.text)) (ApiError.forbidden "relay is not registered")

/-- The checks both client removals share: a client that still owns edges, or still has an active
    edge invitation, stays. -/
def checkClientIsEmpty (state : ControlState) (now : Int) (client : ClientRecord) :
    Except ApiError Unit := do
  ensure (¬ state.edges.any (·.ownerId = client.endpointId))
    (ApiError.conflict "client still owns edges")
  ensure (¬ state.invites.any (fun invite => inviteIsActivePending now invite &&
      invite.invite.kind = .edge client.endpointId))
    (ApiError.conflict "client still has pending edge invites")

theorem checkClientIsEmpty_eq_ok {client : ClientRecord} {u : Unit} :
    checkClientIsEmpty state now client = .ok u ↔
      (∀ edge ∈ state.edges, edge.ownerId ≠ client.endpointId) ∧
        ∀ invite ∈ state.invites, inviteIsActivePending now invite = true →
          invite.invite.kind ≠ .edge client.endpointId := by
  unfold checkClientIsEmpty
  rw [bind_eq_ok]
  simp

/-! ## URLs -/

/-- The checks both URL normalisations share; `what` is the kind of URL named in the errors. -/
def checkedUrl (what value : String) : Except String Url := do
  let url ← okOr (P.parseUrl value) ("invalid " ++ what ++ " URL")
  ensure (url.query = none ∧ url.fragment = none)
    (what ++ " URL cannot contain query or fragment")
  let loopback := url.hostStr = some "localhost" ∨ url.hostStr = some "127.0.0.1" ∨
    url.hostStr = some "::1"
  ensure (url.scheme = "https" ∨ (url.scheme = "http" ∧ loopback))
    (what ++ " URL must use HTTPS unless it targets loopback")
  return url

def normalizePublicUrl (value : String) : Except String String := do
  let url ← checkedUrl P "public" value
  let url := { url with path := trimEndMatches '/' url.path }
  return trimEndMatches '/' (P.printUrl url)

def normalizeRelayUrl (value : String) : Except String String := do
  let url ← checkedUrl P "relay" value
  return P.printUrl (if url.path = "" then { url with path := "/" } else url)

end AgentScale.Control
