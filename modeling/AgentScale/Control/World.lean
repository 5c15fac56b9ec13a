import AgentScale.Control.NodeApi
import AgentScale.Control.ProvisionerApi
import AgentScale.Control.LocalAdmin
import AgentScale.Control.Lifecycle
import AgentScale.Library.Transition

set_option autoImplicit false

/-! # Control over time

A `World` is one Control with its clock: the database, the in-memory state while the process runs, and
a record of what happened so far. A step is one critical section of a request, a passage of time, a
crash, a start, or an offline `bootstrap`. The history is computed from the states before and after a
step and from the answer, not by the handlers. -/

namespace AgentScale.Control

open Checked ControlApi RelayApi

/-! ## Operations -/

/-- The critical sections that change the state or issue something. -/
inductive Operation (P : Platform) where
  | claim (request : ClaimRequest)
  | clientEdgeInvite (request : EdgeInviteRequest)
  | clientEdgeRemove (request : EdgeRemoveRequest)
  | provisioner (provisionerId : EndpointId P) (request : ProvisionerRequest)
  | watchRenewal (request : WatchRequest)
  | watch (request : WatchRequest) (renewed : Bool)
  | relayWatchPort (request : WatchRequest)
  | relayWatch (request : WatchRequest)
  | localAdmin (request : LocalAdminRequest)
  | cleanup

inductive Response where
  | join (result : JoinResult)
  | invite (result : InviteResult)
  | map (map : SignedNodeMap)
  | provisioner (response : ProvisionerResponse)
  | renewed (changed : Bool)
  | update (signed : SignedRevocationUpdate)
  | localAdmin (response : LocalAdminResponse)
  | done
deriving DecidableEq

/-- The map an answer carries. -/
def Response.nodeMap : Response → Option NodeMap
  | .join result => some result.map.map
  | .map signed => some signed.map
  | _ => none

/-- Change the answer of a plan. -/
def Plan.map {α β : Type} (f : α → β) : Plan α → Plan β
  | .reply answer => .reply (f answer)
  | .commit delta respond => .commit delta (fun state => (respond state).map f)

variable (P : Platform)

/-- The decision an operation takes in a state. -/
def Operation.plan (key : SecretKey) (amb : Ambient) (state : ControlState) :
    Operation P → Except ApiError (Plan Response)
  | .claim request => (Control.claim P key amb request state).map (Plan.map .join)
  | .clientEdgeInvite request =>
    (Control.clientEdgeInvite P key amb request state).map (Plan.map .invite)
  | .clientEdgeRemove request =>
    (Control.clientEdgeRemove P key amb request state).map (Plan.map .map)
  | .provisioner provisionerId request =>
    (provisionerRequest P key amb provisionerId request state).map (Plan.map .provisioner)
  | .watchRenewal request => (Control.watchRenewal P amb request state).map (Plan.map .renewed)
  | .watch request renewed =>
    (Control.watch P key amb request renewed state).map (fun answer =>
      .reply (answer.elim .done .map))
  | .relayWatchPort request =>
    (Control.relayWatchPort P amb request state).map (Plan.map (fun _ => .done))
  | .relayWatch request =>
    (Control.relayWatch P key amb request state).map (fun answer =>
      .reply (answer.elim .done .update))
  | .localAdmin request =>
    (dispatchLocalAdmin P key amb request state).map (Plan.map .localAdmin)
  | .cleanup => (Control.cleanup amb.clock state).map (Plan.map (fun _ => .done))

/-- The registrations an operation asks to remove. -/
def Operation.asked {P : Platform} (s : ControlState) : Operation P → List Registration
  | .clientEdgeRemove request =>
    (s.edges.filter (fun edge => edge.endpointId = request.endpointId)).map EdgeRecord.registration
  | .provisioner _ request => Control.asked s request.action
  | .localAdmin request => request.asked s
  | _ => []

/-- The edges an operation asks to move, by the id of the new owner and the name. -/
def Operation.moves {P : Platform} (s : ControlState) : Operation P → List (String × String)
  | .provisioner _ request => Control.moves s request.action
  | .localAdmin request => request.moves s
  | _ => []

/-- Whether an operation issues or revokes an invitation. -/
def Operation.invites {P : Platform} : Operation P → Prop
  | .clientEdgeInvite _ => True
  | .provisioner _ request => issues request.action
  | .localAdmin request => request.invites
  | _ => False

/-! ## History -/

/-- The removal of a registration, with the Relay revision it was published under. -/
structure Removal where
  endpointId : String
  generation : Nat
  relayRevision : Nat
deriving DecidableEq

/-- The registrations of `before` that `after` no longer has, in whatever validity period. -/
def removalsBetween (before after : ControlState) : List Removal :=
  (before.registrations.filter (fun r => !after.registrations.any (fun r' =>
    r'.kind = r.kind && r'.endpointId = r.endpointId && r'.generation = r.generation))).map
    (fun r => ⟨r.endpointId, r.generation, after.relayRevision⟩)

/-- Whether the registered nodes differ. -/
def nodesChanged (before after : ControlState) : Bool :=
  !(before.clients = after.clients && before.edges = after.edges && before.relays = after.relays)

/-- What has happened so far. -/
structure History where
  /-- Every map signed. -/
  maps : List NodeMap
  /-- Every Relay credential signed. -/
  credentials : List RelayCredential
  /-- Every registration removed. -/
  removals : List Removal
  /-- The invitation of every claim that changed the registered nodes. -/
  enrolled : List String

def History.empty : History := ⟨[], [], [], []⟩

/-- The credential inside a map signed in the given state. -/
def issuedCredential (key : SecretKey) (state : ControlState) (map : NodeMap) :
    Option RelayCredential := do
  let recipient ← parseEndpointId P map.recipientId
  let role ← roleOf state recipient.text
  role.credential P state key recipient

/-- A map has been signed in the given state. -/
def History.issue (key : SecretKey) (state : ControlState) (map : NodeMap) (h : History) : History :=
  { h with
    maps := map :: h.maps
    credentials := (issuedCredential P key state map).toList ++ h.credentials }

/-- The state has changed; `enrolled` names the invitation whose claim did it, if one did. -/
def History.change (before after : ControlState) (enrolled : List String) (h : History) : History :=
  { h with
    removals := removalsBetween before after ++ h.removals
    enrolled := enrolled ++ h.enrolled }

/-- The invitation an operation has used up. -/
def Operation.enrols {P : Platform} (before after : ControlState) : Operation P → List String
  | .claim request => if nodesChanged before after then [request.claim.inviteId] else []
  | _ => []

/-- An answer computed in the given state has been sent. -/
def History.answer (key : SecretKey) (state : ControlState) (result : Except ApiError Response)
    (h : History) : History :=
  match result with
  | .ok response => response.nodeMap.elim h (fun map => h.issue P key state map)
  | .error _ => h

def History.record (key : SecretKey) (op : Operation P) (result : Except ApiError Response)
    (before after : ControlState) (h : History) : History :=
  (h.change before after (op.enrols before after)).answer P key after result

/-! ## Worlds -/

structure World where
  clock : Int
  database : Database
  /-- The in-memory state while the process runs. -/
  process : Option ControlState
  /-- The states a request of this process may have seen. -/
  past : List ControlState
  /-- Every invitation id drawn so far. -/
  drawn : List String
  history : History

/-- Run one operation on the current in-memory state. -/
def World.operate (key : SecretKey) (amb : Ambient) (op : Operation P) (state : ControlState)
    (w : World) : Except ApiError Response × World :=
  let (result, store) := Plan.run amb.ioError ⟨w.database, state⟩ (op.plan P key amb state)
  (result, { w with
    database := store.database
    process := some store.state
    past := store.state :: w.past
    drawn := amb.inviteToken :: w.drawn
    history := w.history.record P key op result state store.state })

/-- The surroundings of a critical section in a world: the request arrived earlier, what it has read
    before was a state of this process, and the invitation id drawn for it is a new one. -/
structure Ambient.Admissible (amb : Ambient) (w : World) : Prop where
  received : amb.received ≤ w.clock
  clock : amb.clock = w.clock
  earlier : amb.earlier ∈ w.past
  fresh : amb.inviteToken ∉ w.drawn

/-- One step of a Control with the given key that serves only the operations `allowed` in their
    surroundings and its state. -/
inductive World.Step (key : SecretKey) (allowed : Ambient → ControlState → Operation P → Prop) :
    World → World → Prop
  | operate (w : World) (amb : Ambient) (op : Operation P) (state : ControlState)
      (running : w.process = some state) (admissible : amb.Admissible w)
      (allows : allowed amb state op) : Step key allowed w (w.operate P key amb op state).2
  | tick (w : World) (now : Int) (later : w.clock ≤ now) :
      Step key allowed w { w with clock := now }
  | crash (w : World) : Step key allowed w { w with process := none, past := [] }
  | start (w : World) (ioError : Option String) (relayCaDer : List UInt8) (store : Store)
      (stopped : w.process = none)
      (started : Control.start w.clock ioError relayCaDer w.database = .ok store) :
      Step key allowed w { w with
        database := store.database, process := some store.state, past := [store.state] }
  | bootstrap (w : World) (amb : Ambient) (config : BootstrapConfig) (prepared : Bool)
      (db : Database) (stopped : w.process = none) (received : amb.received ≤ w.clock)
      (clock : amb.clock = w.clock) (fresh : amb.inviteToken ∉ w.drawn)
      (prepares : Control.bootstrap P key amb config prepared w.database = .ok db) :
      Step key allowed w { w with database := db, drawn := amb.inviteToken :: w.drawn }

/-- A Control that has just been initialised. -/
def World.Initial (w : World) : Prop :=
  (∃ publicUrl audience relayCaDer, Control.init P publicUrl audience relayCaDer = .ok w.database) ∧
    w.process = none ∧ w.past = [] ∧ w.drawn = [] ∧ w.history = History.empty

/-- The runs of a Control with the given key in which every operation is allowed where it is
    served. -/
def controlWhere (key : SecretKey) (allowed : Ambient → ControlState → Operation P → Prop) :
    Transition.System World where
  init := World.Initial P
  step := World.Step P key allowed

/-- All runs of a Control with the given key. -/
abbrev control (key : SecretKey) : Transition.System World := 
  controlWhere P key (fun _ _ _ => True)

end AgentScale.Control
