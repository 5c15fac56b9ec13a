import AgentScale.Control.World

set_option autoImplicit false

/-! # Installing a Control

`bootstrap` works on five files: the identity, the two files of the Relay CA, the database and the
invitation for the first Relay. It makes its writes one after another; when it crashes or a write
fails, those before are done. An `Installation` is these files together with the Control over the
database, once the database has been initialised. Its runs are any number of `bootstrap` invocations
with the same arguments, cut off anywhere, and everything Control does with claims in between. -/

namespace AgentScale.Control

open Checked ControlApi

/-- The files `bootstrap` looks at: `control.key`, `relay-ca.key`, `relay-ca.der`, `control.db` and the
    invitation file. -/
structure Files where
  key : Option SecretKey
  caKey : Bool
  caCert : Option (List UInt8)
  database : Bool
  invitation : Option String

/-- A Control and its files. There is no `control` before `control.db` has been initialised. -/
structure Installation where
  clock : Int
  files : Files
  control : Option World

namespace Installation

/-- What `Database::load` returns, if it succeeds. -/
def load (i : Installation) : Option ControlState := i.control.bind (fun w => w.database.load.toOption)

/-- Whether `as-control run` holds the lock. -/
def running (i : Installation) : Bool := (i.control.bind World.process).isSome

/-- The test for the early return of `bootstrap`: all its files exist. -/
def prepared (i : Installation) : Bool :=
  i.files.key.isSome && i.files.database && i.files.caKey && i.files.caCert.isSome &&
    i.files.invitation.isSome

/-- Time has passed. -/
def tick (now : Int) (i : Installation) : Installation :=
  { i with clock := now, control := i.control.map (fun w => { w with clock := now }) }

end Installation

/-! ## Writes -/

/-- The durable writes of `bootstrap`. -/
inductive Write where
  | key (key : SecretKey)
  | caKey
  | caCert (der : List UInt8)
  /-- SQLite creates `control.db`. -/
  | databaseFile
  /-- `Database::create` commits the initial state. -/
  | create (database : Database)
  /-- `apply_sync` commits, with the given invitation id drawn. -/
  | sync (database : Database) (inviteToken : String)
  | invitation (text : String)

def Installation.write (i : Installation) : Write → Installation
  | .key key => { i with files := { i.files with key := some key } }
  | .caKey => { i with files := { i.files with caKey := true } }
  | .caCert der => { i with files := { i.files with caCert := some der } }
  | .databaseFile => { i with files := { i.files with database := true } }
  | .create database => { i with control := some ⟨i.clock, database, none, [], [], History.empty⟩ }
  | .sync database inviteToken => { i with control := i.control.map (fun w =>
    { w with database, drawn := inviteToken :: w.drawn }) }
  | .invitation text => { i with files := { i.files with invitation := some text } }

/-! ## `bootstrap` -/

/-- What an invocation of `bootstrap` writes when nothing cuts it off, and returns. -/
structure Attempt where
  writes : List Write
  result : Except String Unit

variable (P : Platform)

/-- The arguments `bootstrap` rejects before it looks at any file; the URLs in normal form. -/
def BootstrapConfig.check (config : BootstrapConfig) : Except String (String × String) := do
  validateName config.relayName
  ensure (trimIsEmpty config.audience = false) "--audience must not be empty"
  let publicUrl ← normalizePublicUrl P config.publicUrl
  let relayUrl ← normalizeRelayUrl P config.relayUrl
  return (publicUrl, relayUrl)

/-- The state `bootstrap` writes back, and the invitation it issues while no Relay has enrolled. -/
def relayInvite (key : SecretKey) (amb : Ambient) (relayName relayUrl : String) (ttlSecs : Nat)
    (state : ControlState) : Except String (ControlState × Option InviteResult) :=
  if state.relays = [] then do
    let state := { state with invites := state.invites.filter (fun invite => !invite.isPendingRelay) }
    let (result, record) ← buildInvite P key state amb.clock amb.inviteToken relayName
      (.relay relayUrl) ttlSecs amb.secretToken
    return ({ state with invites := state.invites ++ [record] }, some result)
  else do
    ensure (state.relays.any (fun relay => relay.name = relayName && relay.url = relayUrl))
      "configured Relay name or URL does not match durable state"
    return (state, none)

/-- The text `write_invitation` writes. -/
def invitationText (result : InviteResult) : String := result.joinUrl ++ "\n"

/-- The last part of `bootstrap`, from the point where it has the key, the state and the database. -/
def prepareRelay (key : SecretKey) (amb : Ambient) (config : BootstrapConfig)
    (publicUrl relayUrl : String) (state : ControlState) (db : Database) :
    Except String (List Write) := do
  ensure (state.audience = config.audience)
    "configured Control audience does not match durable state"
  ensure (state.publicUrl = publicUrl) "configured Control public URL does not match durable state"
  let (next, invite) ← relayInvite P key amb config.relayName relayUrl config.relayTtlSecs state
  let database ← transaction amb.ioError (db.applySync state next)
  return .sync database amb.inviteToken :: (invite.map (fun r => .invitation (invitationText r))).toList

namespace Installation

def prepareExisting (amb : Ambient) (config : BootstrapConfig) (publicUrl relayUrl : String)
    (i : Installation) : Except String (List Write) := do
  let key ← okOr i.files.key "read identity"
  let w ← okOr i.control
    "database is not initialized; run `as-control init` to initialize a new network"
  let state ← w.database.load
  prepareRelay P key amb config publicUrl relayUrl state w.database

/-- `bootstrap` without a database. -/
def prepareFresh (key : SecretKey) (amb : Ambient) (relayCaDer : List UInt8)
    (config : BootstrapConfig) (publicUrl relayUrl : String) (i : Installation) : Attempt :=
  if i.files.caKey || i.files.caCert.isSome then
    ⟨[.key key],
      .error "incomplete Relay CA state: relay-ca.key and relay-ca.der must both exist"⟩
  else
    let files := [.key key, .caKey, .caCert relayCaDer, .databaseFile]
    let state := initialState config.audience publicUrl relayCaDer
    match Database.create state with
    | .error e => ⟨files, .error e⟩
    | .ok db =>
      match prepareRelay P key amb config publicUrl relayUrl state db with
      | .error e => ⟨files ++ [.create db], .error e⟩
      | .ok writes => ⟨files ++ .create db :: writes, .ok ()⟩

/-- The files `bootstrap` needs exclusively must all exist or all be absent. -/
def checkFiles (i : Installation) : Except String Unit := do
  ensure (i.running = false)
    "control state is already in use; bootstrap must run before as-control run"
  ensure (i.files.key.isSome = i.files.database ∧
      i.files.database = (i.files.caKey && i.files.caCert.isSome))
    ("incomplete control state: control.key, control.db, relay-ca.key, and relay-ca.der must all " ++
      "exist or all be absent")

/-- `bootstrap`; `key` and `relayCaDer` are generated when there are none. -/
def bootstrap (key : SecretKey) (amb : Ambient) (relayCaDer : List UInt8) (config : BootstrapConfig)
    (i : Installation) : Attempt :=
  match config.check P with
  | .error e => ⟨[], .error e⟩
  | .ok (publicUrl, relayUrl) =>
    if i.prepared then ⟨[], .ok ()⟩
    else
      match i.checkFiles with
      | .error e => ⟨[], .error e⟩
      | .ok () =>
        if i.files.database then
          match i.prepareExisting P amb config publicUrl relayUrl with
          | .error e => ⟨[], .error e⟩
          | .ok writes => ⟨writes, .ok ()⟩
        else i.prepareFresh P key amb relayCaDer config publicUrl relayUrl

end Installation

/-! ## Runs -/

/-- Control serves claims, and cleans up after itself. -/
def Claims {P : Platform} (_ : Ambient) (_ : ControlState) : Operation P → Prop
  | .claim _ | .cleanup => True
  | _ => False

/-- The surroundings of an invocation: it reads the clock, and draws an invitation id that is new. -/
structure Ambient.Offline (amb : Ambient) (i : Installation) : Prop where
  received : amb.received ≤ i.clock
  clock : amb.clock = i.clock
  fresh : ∀ w, i.control = some w → amb.inviteToken ∉ w.drawn

def Installation.after (writes : List Write) (i : Installation) : Installation :=
  writes.foldl Installation.write i

inductive Installation.Step (key : SecretKey) (config : BootstrapConfig) :
    Installation → Installation → Prop
  /-- An invocation of `bootstrap` that ends, or is cut off, after `done` writes. -/
  | bootstrap (i : Installation) (amb : Ambient) (relayCaDer : List UInt8) (done : Nat) (now : Int)
      (offline : amb.Offline i) (later : i.clock ≤ now) :
      Step key config i
        ((i.after ((i.bootstrap P key amb relayCaDer config).writes.take done)).tick now)
  /-- Control starts, stops, or serves a claim. -/
  | control (i : Installation) (w w' : World) (initialised : i.control = some w)
      (step : World.Step P key Claims w w') (online : w.process ≠ none ∨ w'.process ≠ none) :
      Step key config i { i with clock := w'.clock, control := some w' }
  | tick (i : Installation) (now : Int) (later : i.clock ≤ now) : Step key config i (i.tick now)

/-- A host on which Control has never been installed. -/
def Installation.Initial (i : Installation) : Prop :=
  i.files = ⟨none, false, none, false, none⟩ ∧ i.control = none

/-- All runs of an installation whose identity is, or will be, the given key. -/
def installation (key : SecretKey) (config : BootstrapConfig) : Transition.System Installation where
  init := Installation.Initial
  step := Installation.Step P key config

end AgentScale.Control
