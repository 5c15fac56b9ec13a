import AgentScale.Api.Platform
import AgentScale.Library.Keyed
import AgentScale.Library.Transition

set_option autoImplicit false

/-! # The Relay

Admission by Control-signed credentials (`on_connect`, `validate_credential`) and the merging of
signed revocation updates (`apply_revocation_update`). Hash maps are lists of entries, with
`Keyed.upsert` for `insert` and `Keyed.collect` for `collect`; `Clients::disconnect` removes every
session of an endpoint. On disk the Relay keeps the last merged update and the marker of a revoked
enrollment. -/

namespace AgentScale.Relay

open Checked RelayApi

def MAX_CLOCK_SKEW_SECS : Int := 300

/-! ## State -/

/-- `HashMap<EndpointId, (u64, i64)>`: the revoked generation and the expiry per endpoint. -/
abbrev RevocationIndex (P : Platform) := List (EndpointId P × Nat × Int)

/-- A client connection, with the generation of the credential that admitted it. -/
structure Session (P : Platform) where
  endpointId : EndpointId P
  generation : Nat
deriving DecidableEq

/-- The memory of a running Relay: `AdminState` and the client table. -/
structure Memory (P : Platform) where
  current : RevocationUpdate
  revoked : RevocationIndex P
  sessions : List (Session P)
  enrollmentRevoked : Bool

/-- A Relay: its profile, its files and, while it runs, its memory. -/
structure Host (P : Platform) where
  audience : String
  authorityId : EndpointId P
  /-- `revocations.json`. -/
  file : Option RevocationUpdate
  /-- The `enrollment-revoked` marker. -/
  marker : Bool
  process : Option (Memory P)

structure ApiError where
  status : StatusCode
  message : String

namespace ApiError

def badRequest (error : String) : ApiError := ⟨.badRequest, error⟩
def conflict (error : String) : ApiError := ⟨.conflict, error⟩
def unauthorized (error : String) : ApiError := ⟨.unauthorized, error⟩
def internal (error : String) : ApiError := ⟨.internalServerError, error⟩

end ApiError

variable (P : Platform)

/-! ## Admission -/

/-- The generation an index revokes for an endpoint at a time, `0` when there is none. -/
def revokedThrough {P : Platform} (revoked : RevocationIndex P) (endpointId : EndpointId P)
    (now : Int) : Nat :=
  match Keyed.lookup Prod.fst endpointId revoked with
  | some (_, generation, expiresAt) => if now < expiresAt then generation else 0
  | none => 0

def validateCredential (token : Option String) (endpointId authorityId : EndpointId P)
    (audience : String) (revoked : RevocationIndex P) (now : Int) : Except String Unit := do
  let token ← okOr token "missing Relay credential"
  let signed ← P.decodeRelayCredential token
  signed.verify P authorityId
  signed.credential.validate P
  ensure (signed.credential.audience = audience) "credential audience mismatch"
  let subject ← signed.credential.parsedEndpointId P
  ensure (subject = endpointId) "credential endpoint mismatch"
  ensure (signed.credential.issuedAt ≤ I64.saturatingAdd now MAX_CLOCK_SKEW_SECS)
    "credential is not valid yet"
  ensure (now < signed.credential.expiresAt) "credential expired"
  ensure (revokedThrough revoked endpointId now < signed.credential.generation)
    "credential was revoked"

inductive Access where
  | allow
  | deny (reason : String)

def onConnect (host : Host P) (memory : Memory P) (now : Int) (endpointId : EndpointId P)
    (token : Option String) : Access :=
  if memory.enrollmentRevoked then .deny "Relay enrollment is revoked"
  else
    match validateCredential P token endpointId host.authorityId host.audience memory.revoked now with
    | .ok () => .allow
    | .error _ => .deny "endpoint is not authorized"

def tokenGeneration (token : Option String) : Nat :=
  match token.map P.decodeRelayCredential with
  | some (.ok signed) => signed.credential.generation
  | _ => 0

/-- Admission: the decision and the registration of the session are one step. -/
def connect (host : Host P) (memory : Memory P) (now : Int) (endpointId : EndpointId P)
    (token : Option String) : Memory P :=
  match onConnect P host memory now endpointId token with
  | .allow =>
    { memory with sessions := ⟨endpointId, tokenGeneration P token⟩ :: memory.sessions }
  | .deny _ => memory

/-! ## Revocation updates -/

def indexEntry {P : Platform} (revocation : Revocation) (entry : EndpointId P × Nat) :
    EndpointId P × Nat × Int :=
  (entry.1, entry.2, revocation.expiresAt)

def validateRevocations (update : RevocationUpdate) (audience : String) :
    Except String (RevocationIndex P) := do
  update.validate P
  ensure (update.audience = audience) "revocation audience mismatch"
  let entries ← update.entries P
  let ids := Keyed.collect Prod.fst (List.zipWith indexEntry update.revocations entries)
  ensure (ids.length = update.revocations.length)
    "revocation update contains duplicate endpoint ids"
  return ids

/-- `Clients::disconnect(endpoint, None)`. -/
def disconnect {P : Platform} (endpointId : EndpointId P) (sessions : List (Session P)) :
    List (Session P) :=
  sessions.filter (fun session => session.endpointId ≠ endpointId)

/-- The loop over the received entries that disconnects what they newly revoke. -/
def disconnectRevoked {P : Platform} (old : RevocationIndex P) (now : Int)
    (delta : RevocationIndex P) (sessions : List (Session P)) : List (Session P) :=
  delta.foldl (fun sessions entry =>
    if now < entry.2.2 ∧ revokedThrough old entry.1 now < entry.2.1 then
      disconnect entry.1 sessions
    else sessions) sessions

abbrev Merged (P : Platform) := List (EndpointId P × Revocation)

/-- A revocation under its parsed endpoint. -/
def keyedRevocation (revocation : Revocation) : Option (EndpointId P × Revocation) :=
  (parseEndpointId P revocation.endpointId).map (fun id => (id, revocation))

/-- The unexpired revocations applied so far. -/
def activeRevocations (now : Int) (revocations : List Revocation) : Merged P :=
  Keyed.collect Prod.fst
    ((revocations.filter (fun r => decide (now < r.expiresAt))).filterMap (keyedRevocation P))

def mergeRevocation (merged : Merged P) (revocation : Revocation) :
    Except ApiError (Merged P) := do
  let id ← okOr (parseEndpointId P revocation.endpointId)
    (ApiError.badRequest (P.keyError revocation.endpointId))
  match Keyed.lookup Prod.fst id merged with
  | some (_, existing) => do
    ensure (existing.revokedThroughGeneration ≤ revocation.revokedThroughGeneration)
      (ApiError.conflict "revocation generation moved backwards")
    return Keyed.upsert Prod.fst (id, revocation) merged
  | none => return Keyed.upsert Prod.fst (id, revocation) merged

/-- `apply_revocation_update` for an update of the version already applied: nothing new may be in it;
    expired revocations are pruned. -/
def reapply (host : Host P) (memory : Memory P) (now : Int) (ioError : Option String)
    (update : RevocationUpdate) : Except ApiError (Host P) := do
  ensure (∀ r ∈ update.revocations, r ∈ memory.current.revocations)
    (ApiError.conflict "revocation version already has different content")
  if memory.current.revocations.any (fun r => decide (r.expiresAt ≤ now)) then do
    let pruned := { memory.current with
      revocations := memory.current.revocations.filter (fun r => decide (now < r.expiresAt)) }
    let active ← (validateRevocations P pruned host.audience).mapError ApiError.badRequest
    ensure (ioError = none) (ApiError.internal (ioError.getD ""))
    return { host with
      file := some pruned, process := some { memory with current := pruned, revoked := active } }
  else return host

/-- `apply_revocation_update` for a newer version: merge, persist, activate, disconnect. -/
def accumulate (host : Host P) (memory : Memory P) (now : Int) (ioError : Option String)
    (update : RevocationUpdate) (delta : RevocationIndex P) : Except ApiError (Host P) := do
  ensure ((I64.saturatingSub now update.issuedAt).natAbs ≤ MAX_CLOCK_SKEW_SECS.natAbs)
    (ApiError.unauthorized "revocation timestamp is outside the 5 minute window")
  ensure (∀ r ∈ update.revocations, memory.current.version < r.revision)
    (ApiError.conflict "revocation update overlaps the applied revision")
  let merged ← foldAll (mergeRevocation P) (activeRevocations P now memory.current.revocations)
    update.revocations
  let revocations := (merged.map Prod.snd).insertionSort (fun a b => a.endpointId ≤ b.endpointId)
  let accumulated : RevocationUpdate :=
    { protocolVersion := RELAY_PROTOCOL_VERSION, audience := update.audience,
      version := update.version, issuedAt := update.issuedAt, revocations }
  let next ← (validateRevocations P accumulated host.audience).mapError ApiError.badRequest
  ensure (ioError = none) (ApiError.internal (ioError.getD ""))
  return { host with
    file := some accumulated
    process := some { memory with
      current := accumulated
      revoked := next
      sessions := disconnectRevoked memory.revoked now delta memory.sessions } }

def applyRevocationUpdate (host : Host P) (memory : Memory P) (now : Int) (ioError : Option String)
    (signed : SignedRevocationUpdate) : Except ApiError (Host P) := do
  (signed.verify P host.authorityId).mapError ApiError.unauthorized
  let delta ← (validateRevocations P signed.update host.audience).mapError ApiError.badRequest
  if signed.update.version < memory.current.version then
    .error (ApiError.conflict ("revocation version " ++ toString signed.update.version ++
      " is older than current version " ++ toString memory.current.version))
  else if signed.update.version = memory.current.version then
    reapply P host memory now ioError signed.update
  else accumulate P host memory now ioError signed.update delta

/-! ## Lifecycle -/

/-- `load_or_initialize`, with the file it leaves behind. -/
def loadOrInitialize (host : Host P) (now : Int) : RevocationUpdate :=
  host.file.getD { protocolVersion := RELAY_PROTOCOL_VERSION, audience := host.audience, version := 0,
                   issuedAt := now, revocations := [] }

/-- `run` up to the point where it serves connections. -/
def start (host : Host P) (now : Int) : Except String (Host P) := do
  ensure (trimIsEmpty host.audience = false) "audience must not be empty"
  ensure (host.marker = false)
    "Relay enrollment was revoked; remove this state directory and enroll a new Relay identity"
  let current := loadOrInitialize P host now
  let revoked ← validateRevocations P current host.audience
  return { host with file := some current, process := some ⟨current, revoked, [], false⟩ }

/-- `revoke_all`: Control has answered that the enrollment is revoked; the marker may fail to be
    written. -/
def revokeAll {P : Platform} (host : Host P) (memory : Memory P) (written : Bool) : Host P :=
  { host with
    marker := host.marker || written
    process := some { memory with sessions := [], enrollmentRevoked := true } }

end AgentScale.Relay
