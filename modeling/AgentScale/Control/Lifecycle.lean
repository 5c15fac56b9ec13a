import AgentScale.Control.Database
import AgentScale.Control.Mutation

set_option autoImplicit false

/-! # Initialisation, offline preparation and startup

`init`, `bootstrap` on an existing database, and the part of `run` up to the point where requests are
served. All three work on the whole state through `Database::create` and `Database::apply_sync`; a
`bootstrap` without a database first creates the one `init` would. -/

namespace AgentScale.Control

open Checked ControlApi

variable (P : Platform)

/-- The state of a Control without any node. -/
def initialState (audience publicUrl : String) (relayCaDer : List UInt8) : ControlState :=
  { schema := STATE_SCHEMA, audience, publicUrl, relayCaDer, revision := 0, relayRevision := 1,
    clients := [], edges := [], relays := [], invites := [], provisioners := [], revocations := [] }

def init (publicUrl audience : String) (relayCaDer : List UInt8) : Except String Database := do
  ensure (trimIsEmpty audience = false) "--audience must not be empty"
  let publicUrl ← normalizePublicUrl P publicUrl
  Database.create (initialState audience publicUrl relayCaDer)

structure BootstrapConfig where
  publicUrl : String
  audience : String
  relayName : String
  relayUrl : String
  relayTtlSecs : Nat

/-- The state `bootstrap` writes back: while no Relay has enrolled, a fresh Relay invitation in place
    of the pending ones. -/
def bootstrapState (key : SecretKey) (amb : Ambient) (relayName relayUrl : String) (ttlSecs : Nat)
    (state : ControlState) : Except String ControlState :=
  if state.relays = [] then do
    let state := { state with invites := state.invites.filter (fun invite => !invite.isPendingRelay) }
    let (_, record) ← buildInvite P key state amb.clock amb.inviteToken relayName (.relay relayUrl)
      ttlSecs amb.secretToken
    return { state with invites := state.invites ++ [record] }
  else do
    ensure (state.relays.any (fun relay => relay.name = relayName && relay.url = relayUrl))
      "configured Relay name or URL does not match durable state"
    return state

/-- `bootstrap` on an existing database; `prepared` says whether the invitation file exists too. -/
def bootstrap (key : SecretKey) (amb : Ambient) (config : BootstrapConfig) (prepared : Bool)
    (db : Database) : Except String Database := do
  validateName config.relayName
  ensure (trimIsEmpty config.audience = false) "--audience must not be empty"
  let publicUrl ← normalizePublicUrl P config.publicUrl
  let relayUrl ← normalizeRelayUrl P config.relayUrl
  if prepared then return db
  else do
    let state ← db.load
    ensure (state.audience = config.audience)
      "configured Control audience does not match durable state"
    ensure (state.publicUrl = publicUrl)
      "configured Control public URL does not match durable state"
    let next ← bootstrapState P key amb config.relayName relayUrl config.relayTtlSecs state
    transaction amb.ioError (db.applySync state next)

/-- `run` up to the point where it serves requests; `relayCaDer` is what the CA files hold. -/
def start (now : Int) (ioError : Option String) (relayCaDer : List UInt8) (db : Database) :
    Except String Store := do
  let state ← db.load
  ensure (state.relayCaDer = relayCaDer) "Relay CA files do not match control.db"
  ensure (state.schema = STATE_SCHEMA) ("unsupported state schema " ++ toString state.schema)
  let next := cleanupRevocations now (cleanupInvitations now state)
  let database ← transaction ioError (db.applySync state next)
  return { database, state := next }

end AgentScale.Control
