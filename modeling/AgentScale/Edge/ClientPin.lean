import AgentScale.Api.Platform
import AgentScale.Library.Keyed
import AgentScale.Library.Transition

set_option autoImplicit false

/-! # The clients an Edge serves

`iroh_edge::ClientPin` decides which clients may connect and keeps the connections it has let in, so
that it can close them when their client loses its authorization. `Service` is the pin together with
the connections that `handle_conn` serves; its steps are what the network and the Control watch can
make happen in one process.

The map of maps in which the pin records its connections is one list with the two keys as a pair. -/

namespace AgentScale.Edge

open Checked Transition

/-- The protocols an Edge accepts. -/
inductive Alpn where
  | rpc
  | blobs
deriving DecidableEq

/-- `iroh::endpoint::Connection`. The handle tells one connection from every other that has been or
    will be made; the stable id does so only among the connections that are alive. -/
structure Connection (P : Platform) where
  handle : Nat
  remoteId : EndpointId P
  stableId : Nat
  alpn : Alpn
deriving DecidableEq

/-- Who may connect. In a single-client pin, `store` tells whether the client that is trusted on first
    use is written to `trusted_client`. -/
inductive ClientAuth (P : Platform) where
  | single (pinned : Option (EndpointId P)) (store : Bool)
  | managed (ids : List (EndpointId P))
deriving DecidableEq

def ClientAuth.IsAuthorized {P : Platform} (remote : EndpointId P) : ClientAuth P → Prop
  | .single pinned _ => pinned = some remote
  | .managed ids => remote ∈ ids

instance {P : Platform} (remote : EndpointId P) (auth : ClientAuth P) :
    Decidable (auth.IsAuthorized remote) :=
  match auth with
  | .single pinned _ => inferInstanceAs (Decidable (pinned = some remote))
  | .managed ids => inferInstanceAs (Decidable (remote ∈ ids))

structure ClientPin (P : Platform) where
  auth : ClientAuth P
  connections : List (Connection P)

/-- What became of an atomic replacement of a file: it was written; it failed and the file is as it
    was; or the new file is in place but the directory could not be synced. -/
inductive WriteOutcome where
  | written
  | failed (error : String)
  | unsynced (error : String)

variable {P : Platform}

namespace ClientPin

def strict (id : EndpointId P) : ClientPin P := ⟨.single (some id) false, []⟩

def tofu (existing : Option (EndpointId P)) : ClientPin P := ⟨.single existing true, []⟩

def managed (ids : List (EndpointId P)) : ClientPin P := ⟨.managed ids, []⟩

/-- The keys a connection is recorded under. -/
def key (c : Connection P) : EndpointId P × Nat := (c.remoteId, c.stableId)

def register (pin : ClientPin P) (c : Connection P) : ClientPin P :=
  { pin with connections := Keyed.upsert key c pin.connections }

def recorded (pin : ClientPin P) (remote : EndpointId P) (stableId : Nat) : Option (Connection P) :=
  Keyed.lookup key (remote, stableId) pin.connections

/-- What `authorize_and_register` answers, the pin it leaves, and what it has put into
    `trusted_client`. -/
structure Answer (P : Platform) where
  result : Except String Bool
  pin : ClientPin P
  written : Option String

def authorizeAndRegister (pin : ClientPin P) (c : Connection P) (write : WriteOutcome) : Answer P :=
  let remote := c.remoteId
  match pin.auth with
  | .single (some id) _ =>
    if id = remote then ⟨.ok true, pin.register c, none⟩ else ⟨.ok false, pin, none⟩
  | .single none store =>
    let pinned : ClientPin P := { pin with auth := .single (some remote) store }
    match store, write with
    | false, _ => ⟨.ok true, pinned.register c, none⟩
    | true, .written => ⟨.ok true, pinned.register c, some (remote.text ++ "\n")⟩
    | true, .failed error => ⟨.error error, pin, none⟩
    | true, .unsynced error => ⟨.error error, pin, some (remote.text ++ "\n")⟩
  | .managed ids =>
    if remote ∈ ids then ⟨.ok true, pin.register c, none⟩ else ⟨.ok false, pin, none⟩

def unregister (pin : ClientPin P) (remote : EndpointId P) (stableId : Nat) : ClientPin P :=
  { pin with connections := Keyed.discard key (remote, stableId) pin.connections }

/-- The new pin, and the connections that are closed. -/
def replaceManaged (pin : ClientPin P) (next : List (EndpointId P)) :
    Except String (ClientPin P × List (Connection P)) :=
  match pin.auth with
  | .single _ _ => .error "cannot update a standalone client pin"
  | .managed current =>
    let removed := current.filter (· ∉ next)
    .ok (⟨.managed next, pin.connections.filter (·.remoteId ∉ removed)⟩,
      pin.connections.filter (·.remoteId ∈ removed))

end ClientPin

/-- The pin `run_iroh_edge` starts with when the Edge is not managed by Control: the client given on
    the command line, or else the one in `trusted_client`, if there is one. -/
def standalonePin (P : Platform) (client trustedClient : Option String) :
    Except String (ClientPin P) :=
  match client with
  | some c => do
    let id ← okOr (parseEndpointId P c) ("bad --client: " ++ P.keyError c)
    return .strict id
  | none =>
    match trustedClient with
    | some value => do
      let id ← okOr (parseEndpointId P (trim value)) "invalid trusted client in trusted_client"
      return .tofu (some id)
    | none => return .tofu none

/-! ## One process -/

/-- A connection that `authorize_and_register` has let in. `ended` says that `handle_conn` is done with
    it and has unregistered it. -/
structure Session (P : Platform) where
  connection : Connection P
  closed : Bool
  ended : Bool
deriving DecidableEq

/-- The pin of a running Edge, the file that backs it, and the connections it has let in. -/
structure Service (P : Platform) where
  pin : ClientPin P
  trustedClient : Option String
  sessions : List (Session P)
  /-- The clients that have been let in since the process started. -/
  authorized : List (EndpointId P)

namespace Service

/-- `handle_conn` up to the point where it serves the connection. A connection that is not let in is
    closed and forgotten. -/
def connect (s : Service P) (c : Connection P) (write : WriteOutcome) : Service P :=
  let answer := s.pin.authorizeAndRegister c write
  let s := { s with pin := answer.pin, trustedClient := answer.written <|> s.trustedClient }
  match answer.result with
  | .ok true => { s with
      sessions := ⟨c, false, false⟩ :: s.sessions, authorized := c.remoteId :: s.authorized }
  | _ => s

def close (s : Service P) (p : Connection P → Bool) : Service P :=
  { s with sessions := s.sessions.map (fun x =>
      if p x.connection then { x with closed := true } else x) }

/-- The end of `handle_conn`. It drops the last handle to the connection, which closes it if the peer
    has not done so. -/
def finish (s : Service P) (c : Connection P) : Service P :=
  { s with
    pin := s.pin.unregister c.remoteId c.stableId
    sessions := s.sessions.map (fun x =>
      if x.connection.handle = c.handle then { x with closed := true, ended := true } else x) }

def replaceManaged (s : Service P) (next : List (EndpointId P)) : Except String (Service P) := do
  let (pin, closed) ← s.pin.replaceManaged next
  return { s with pin }.close (fun c => c ∈ closed)

/-- A new connection is not one of the old ones, and its stable id is not that of a connection whose
    handler still runs. -/
def Fresh (s : Service P) (c : Connection P) : Prop :=
  ∀ x ∈ s.sessions, x.connection.handle ≠ c.handle ∧
    (x.ended = false → x.connection.stableId ≠ c.stableId)

instance (s : Service P) (c : Connection P) : Decidable (s.Fresh c) :=
  inferInstanceAs (Decidable (∀ x ∈ s.sessions, _))

/-- What can happen in one process, each method of the pin under its mutex. RPC connections are served
    until they are closed; the blobs protocol may be done earlier. -/
inductive Step : Service P → Service P → Prop
  | connect (s : Service P) (c : Connection P) (write : WriteOutcome) (fresh : s.Fresh c) :
      Step s (s.connect c write)
  | close (s : Service P) (p : Connection P → Bool) : Step s (s.close p)
  | finish (s : Service P) (x : Session P) (mem : x ∈ s.sessions) (running : x.ended = false)
      (leaving : x.closed = true ∨ x.connection.alpn = .blobs) : Step s (s.finish x.connection)
  | replaceManaged (s s' : Service P) (next : List (EndpointId P))
      (replaced : s.replaceManaged next = .ok s') : Step s s'

/-- The process has just been started: managed by Control, or not. -/
def Started (s : Service P) : Prop :=
  s.sessions = [] ∧ s.authorized = [] ∧
    ((∃ ids, s.pin = .managed ids) ∨ ∃ client, standalonePin P client s.trustedClient = .ok s.pin)

end Service

/-- All runs of one process. -/
def service (P : Platform) : System (Service P) where
  init := Service.Started
  step := Service.Step

end AgentScale.Edge
