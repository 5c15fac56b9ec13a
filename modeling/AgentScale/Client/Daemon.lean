import AgentScale.Client.Config
import AgentScale.Library.Keyed
import AgentScale.Library.Transition
import Mathlib.Logic.Function.Basic

set_option autoImplicit false

/-! # The Client's daemon

The daemon keeps one connection per edge (`connection_pool::get_conn`), lets edges connect back to it
(`spawn_blobs_acceptor`), and takes a changed `config.json` over while it runs (`reload_edges`). Each
of these is a task of its own, on any number of threads. A task is modelled by where it stands: what it
does between two points at which another task can interfere is one step.

The lock of the edge set is held across such points, so the state says who holds it. The lock of the
pool never is, and a step that uses the pool has it to itself. The lock of a dial is held by the calls
that `Call.dialLock` names. -/

namespace AgentScale.Client

open Checked Transition

variable (P : Platform)

/-! ## Edges -/

/-- The id that the configuration gives an edge. -/
def endpointOf (edges : List EdgeCfg) (name : String) : Option (EndpointId P) :=
  (Keyed.lookup EdgeCfg.name name edges).bind (fun edge => parseEndpointId P edge.endpointId)

def Listed (edges : List EdgeCfg) (id : EndpointId P) : Prop :=
  ∃ edge ∈ edges, parseEndpointId P edge.endpointId = some id

instance (edges : List EdgeCfg) (id : EndpointId P) : Decidable (Listed P edges id) :=
  inferInstanceAs (Decidable (∃ edge ∈ edges, parseEndpointId P edge.endpointId = some id))

structure EndpointAddr where
  id : EndpointId P
  relays : List Url
deriving DecidableEq

def edgeAddr (edge : EdgeCfg) : Except String (EndpointAddr P) := do
  let id ← okOr (parseEndpointId P edge.endpointId)
    ("bad endpoint_id for " ++ edge.name ++ ": " ++ P.keyError edge.endpointId)
  ensure (edge.relays ≠ []) ("edge " ++ edge.name ++ " has no relay configured")
  let relays ← edge.relays.mapM (fun r => okOr (P.parseUrl r)
    ("bad relay " ++ r ++ " for " ++ edge.name ++ ": " ++ P.urlError r))
  return ⟨id, relays⟩

/-! ## Tasks -/

/-- A connection that the daemon has dialled. -/
structure Link where
  remote : EndpointId P
  isOpen : Bool

/-- Where a call of `get_conn` stands. -/
inductive Call where
  | idle
  | start (edge : EdgeCfg)
  /-- Waits for the lock of the dial. -/
  | missed (edge : EdgeCfg)
  /-- Has the lock and looks into the pool once more. -/
  | locked (edge : EdgeCfg)
  | dialing (edge : EdgeCfg) (id : EndpointId P)
  /-- Has connection `c` and waits for the lock of the edge set. -/
  | dialed (edge : EdgeCfg) (id : EndpointId P) (c : Nat)
  /-- Has seen that the edge is still authorized, and waits for the lock of the pool. -/
  | checked (edge : EdgeCfg) (id : EndpointId P) (c : Nat)
  | done (edge : EdgeCfg) (result : Except String Nat)
  | cancelled

/-- Where an execution of `reload_edges` stands: it has read the edges, it holds the lock of the edge
    set. -/
inductive Reload where
  | idle
  | read (new : List EdgeCfg)
  | locked (new : List EdgeCfg)

/-- The tasks that execute `reload_edges`. -/
inductive Reloader where
  | admin
  | watcher
deriving DecidableEq

/-- Where the acceptor stands with a connection. -/
inductive InboundPhase where
  | waiting
  /-- The check has found the peer known. -/
  | admitted
  | serving
  | closed
deriving DecidableEq

/-- A connection that an edge has made; `blobs` tells whether it asks for the blobs protocol. -/
structure Inbound where
  remote : EndpointId P
  blobs : Bool
  phase : InboundPhase
deriving DecidableEq

/-- The connection is served, or it is about to be. -/
def Inbound.Admitted {P : Platform} (conn : Inbound P) : Prop :=
  conn.phase = .admitted ∨ conn.phase = .serving

inductive Holder where
  | call (i : Nat)
  | reload (r : Reloader)
deriving DecidableEq

structure Daemon where
  /-- `config.json`. -/
  file : Option Config
  edges : List EdgeCfg
  /-- The pool: the connection of an edge, by the name of the edge. -/
  conns : List (String × Nat)
  links : Nat → Option (Link P)
  /-- Who has the lock of `edges`. -/
  holder : Option Holder
  calls : Nat → Call P
  /-- The tasks that wait for the end of a connection. -/
  evictions : List (String × Nat)
  reloads : Reloader → Reload
  inbound : Nat → Option (Inbound P)
  /-- Whether a reload has started since the last commit. -/
  readSince : Bool

variable {P}

def Call.dialLock : Call P → Option String
  | .locked edge | .dialing edge _ | .dialed edge _ _ | .checked edge _ _ => some edge.name
  | _ => none

/-- The name for which the call is dialling, or has dialled, a connection. -/
def Call.dials : Call P → Option String
  | .dialing edge _ | .dialed edge _ _ | .checked edge _ _ => some edge.name
  | _ => none

/-- The connection that the call alone has, and the id that it has dialled. -/
def Call.dialled : Call P → Option (EndpointId P × Nat)
  | .dialed _ id c | .checked _ id c => some (id, c)
  | _ => none

variable {name : String}

theorem Call.dialLock_of_dials {call : Call P} (h : call.dials = some name) :
    call.dialLock = some name := by
  cases call with
  | dialing | dialed | checked => exact h
  | _ => cases h

namespace Daemon

def started (config : Config) : Daemon P :=
  ⟨some config, Keyed.collect EdgeCfg.name config.edges, [], fun _ => none, none, fun _ => .idle, [],
    fun _ => .idle, fun _ => none, true⟩

def isOpen (s : Daemon P) (c : Nat) : Bool := (s.links c).any Link.isOpen

def remote (s : Daemon P) (c : Nat) : Option (EndpointId P) := (s.links c).map Link.remote

/-- The open connection in the pool. -/
def pooled (s : Daemon P) (name : String) : Option Nat :=
  ((Keyed.lookup Prod.fst name s.conns).map Prod.snd).filter s.isOpen

def setCall (s : Daemon P) (i : Nat) (call : Call P) : Daemon P :=
  { s with calls := Function.update s.calls i call }

/-- A new connection. -/
def connect (s : Daemon P) (c : Nat) (remote : EndpointId P) : Daemon P :=
  { s with links := Function.update s.links c (some ⟨remote, true⟩) }

/-- Close connections. -/
def closeAll (s : Daemon P) (cs : List Nat) : Daemon P :=
  { s with links := fun c =>
      if c ∈ cs then (s.links c).map (fun link => { link with isOpen := false }) else s.links c }

/-- A call goes away without the lock of the edge set. -/
def release (s : Daemon P) (i : Nat) : Daemon P :=
  { s with holder := if s.holder = some (.call i) then none else s.holder }

/-- Put a connection into the pool and give the lock of the edge set back. -/
def publish (s : Daemon P) (name : String) (c : Nat) : Daemon P :=
  { s with
    conns := Keyed.upsert Prod.fst (name, c) s.conns
    holder := none
    evictions := (name, c) :: s.evictions }

/-- What the task that has waited for the end of a connection does. -/
def evict (s : Daemon P) (task : String × Nat) : Daemon P :=
  { s with
    conns :=
      if (Keyed.lookup Prod.fst task.1 s.conns).any (fun entry => !s.isOpen entry.2) then
        Keyed.discard Prod.fst task.1 s.conns
      else s.conns
    evictions := s.evictions.erase task }

/-- The configuration gives the edge of a pooled connection the id that the connection has. -/
def remains (s : Daemon P) (new : List EdgeCfg) (entry : String × Nat) : Bool :=
  (endpointOf P new entry.1).any (fun id => s.remote entry.2 = some id)

/-- The critical section of `reload_edges`. -/
def install (s : Daemon P) (r : Reloader) (new : List EdgeCfg) : Daemon P :=
  let evicted := s.conns.filter (fun entry => !s.remains new entry)
  { s.closeAll (evicted.map Prod.snd) with
    edges := new
    conns :=
      (evicted.map Prod.fst).foldl (fun conns name => Keyed.discard Prod.fst name conns) s.conns
    holder := none
    reloads := Function.update s.reloads r .idle }

def setInbound (s : Daemon P) (k : Nat) (conn : Inbound P) : Daemon P :=
  { s with inbound := Function.update s.inbound k (some conn) }

/-- What the acceptor does with a connection under the lock of the edge set. -/
def check (s : Daemon P) (k : Nat) (conn : Inbound P) : Daemon P :=
  s.setInbound k
    { conn with
      phase := if Listed P s.edges conn.remote ∧ conn.blobs = true then .admitted else .closed }

end Daemon

/-! ## Steps -/

inductive DaemonEvent (P : Platform) where
  | call (i : Nat) (edge : EdgeCfg)
  | lookup (i : Nat)
  | lock (i : Nat)
  | dialEnds (i : Nat)
  | authorize (i : Nat)
  | publish (i : Nat)
  | cancel (i : Nat)
  | close (c : Nat)
  | evict (task : String × Nat)
  | commit (config : Config)
  | read (r : Reloader)
  | lockEdges (r : Reloader)
  | install (r : Reloader)
  | accept (k : Nat) (remote : EndpointId P) (blobs : Bool)
  | check (k : Nat)
  | serve (k : Nat)
  | hangUp (k : Nat)

/-- The steps of the daemon's tasks, of the network, and of the commands that write `config.json`. -/
inductive Daemon.Step : Daemon P → DaemonEvent P → Daemon P → Prop
  /-- A call may be for an edge that is no longer configured. -/
  | call (s : Daemon P) (i : Nat) (edge : EdgeCfg) (hcall : s.calls i = .idle) :
      Step s (.call i edge) (s.setCall i (.start edge))
  | hit (s : Daemon P) (i : Nat) (edge : EdgeCfg) (c : Nat)
      (hcall : s.calls i = .start edge ∨ s.calls i = .locked edge)
      (hpooled : s.pooled edge.name = some c) :
      Step s (.lookup i) (s.setCall i (.done edge (.ok c)))
  | miss (s : Daemon P) (i : Nat) (edge : EdgeCfg) (hcall : s.calls i = .start edge)
      (hpooled : s.pooled edge.name = none) :
      Step s (.lookup i) (s.setCall i (.missed edge))
  | lock (s : Daemon P) (i : Nat) (edge : EdgeCfg) (hcall : s.calls i = .missed edge)
      (hfree : ∀ j, (s.calls j).dialLock ≠ some edge.name) :
      Step s (.lock i) (s.setCall i (.locked edge))
  | noAddr (s : Daemon P) (i : Nat) (edge : EdgeCfg) (error : String)
      (hcall : s.calls i = .locked edge) (hpooled : s.pooled edge.name = none)
      (haddr : edgeAddr P edge = .error error) :
      Step s (.lookup i) (s.setCall i (.done edge (.error error)))
  | dial (s : Daemon P) (i : Nat) (edge : EdgeCfg) (addr : EndpointAddr P)
      (hcall : s.calls i = .locked edge) (hpooled : s.pooled edge.name = none)
      (haddr : edgeAddr P edge = .ok addr) :
      Step s (.lookup i) (s.setCall i (.dialing edge addr.id))
  | timeout (s : Daemon P) (i : Nat) (edge : EdgeCfg) (id : EndpointId P)
      (hcall : s.calls i = .dialing edge id) :
      Step s (.dialEnds i) (s.setCall i (.done edge
        (.error ("connect " ++ edge.name ++ ": timed out (edge offline?)"))))
  | unreachable (s : Daemon P) (i : Nat) (edge : EdgeCfg) (id : EndpointId P) (error : String)
      (hcall : s.calls i = .dialing edge id) :
      Step s (.dialEnds i) (s.setCall i (.done edge
        (.error ("connect " ++ edge.name ++ ": " ++ error))))
  | dialed (s : Daemon P) (i : Nat) (edge : EdgeCfg) (id : EndpointId P) (c : Nat)
      (hcall : s.calls i = .dialing edge id) (hfresh : s.links c = none) :
      Step s (.dialEnds i) ((s.connect c id).setCall i (.dialed edge id c))
  /-- The connection is dropped, which closes it. -/
  | mismatch (s : Daemon P) (i : Nat) (edge : EdgeCfg) (id remote : EndpointId P) (c : Nat)
      (hcall : s.calls i = .dialing edge id) (hfresh : s.links c = none) (hne : remote ≠ id) :
      Step s (.dialEnds i) (((s.connect c remote).closeAll [c]).setCall i
        (.done edge (.error ("edge " ++ edge.name ++ " identity mismatch"))))
  | authorize (s : Daemon P) (i : Nat) (edge : EdgeCfg) (id : EndpointId P) (c : Nat)
      (hcall : s.calls i = .dialed edge id c) (hfree : s.holder = none)
      (hid : endpointOf P s.edges edge.name = some id) :
      Step s (.authorize i) { s.setCall i (.checked edge id c) with holder := some (.call i) }
  | refuse (s : Daemon P) (i : Nat) (edge : EdgeCfg) (id : EndpointId P) (c : Nat)
      (hcall : s.calls i = .dialed edge id c) (hfree : s.holder = none)
      (hid : endpointOf P s.edges edge.name ≠ some id) :
      Step s (.authorize i) ((s.closeAll [c]).setCall i
        (.done edge (.error ("edge " ++ edge.name ++ " authorization changed during dial"))))
  | publish (s : Daemon P) (i : Nat) (edge : EdgeCfg) (id : EndpointId P) (c : Nat)
      (hcall : s.calls i = .checked edge id c) :
      Step s (.publish i) ((s.publish edge.name c).setCall i (.done edge (.ok c)))
  /-- The caller drops the call, wherever it stands, and with it the connection that only it has. -/
  | cancel (s : Daemon P) (i : Nat) (hcall : ∀ edge result, s.calls i ≠ .done edge result) :
      Step s (.cancel i) (((s.closeAll ((s.calls i).dialled.map Prod.snd).toList).setCall i
        .cancelled).release i)
  | close (s : Daemon P) (c : Nat) : Step s (.close c) (s.closeAll [c])
  | evict (s : Daemon P) (task : String × Nat) (htask : task ∈ s.evictions)
      (hclosed : s.isOpen task.2 = false) :
      Step s (.evict task) (s.evict task)
  | commit (s : Daemon P) (config : Config) :
      Step s (.commit config) { s with file := some config, readSince := false }
  | read (s : Daemon P) (r : Reloader) (config : Config) (hidle : s.reloads r = .idle)
      (hload : loadConfigOrDefault s.file = .ok config) :
      Step s (.read r) { s with
        reloads := Function.update s.reloads r (.read (Keyed.collect EdgeCfg.name config.edges))
        readSince := true }
  | readFails (s : Daemon P) (r : Reloader) (error : String) (hidle : s.reloads r = .idle)
      (hload : loadConfigOrDefault s.file = .error error) :
      Step s (.read r) { s with readSince := true }
  | lockEdges (s : Daemon P) (r : Reloader) (new : List EdgeCfg) (hread : s.reloads r = .read new)
      (hfree : s.holder = none) :
      Step s (.lockEdges r) { s with
        reloads := Function.update s.reloads r (.locked new)
        holder := some (.reload r) }
  | install (s : Daemon P) (r : Reloader) (new : List EdgeCfg) (hlocked : s.reloads r = .locked new) :
      Step s (.install r) (s.install r new)
  | accept (s : Daemon P) (k : Nat) (remote : EndpointId P) (blobs : Bool)
      (hfresh : s.inbound k = none) :
      Step s (.accept k remote blobs) (s.setInbound k ⟨remote, blobs, .waiting⟩)
  | check (s : Daemon P) (k : Nat) (conn : Inbound P) (hconn : s.inbound k = some conn)
      (hwaiting : conn.phase = .waiting) (hfree : s.holder = none) :
      Step s (.check k) (s.check k conn)
  | serve (s : Daemon P) (k : Nat) (conn : Inbound P) (hconn : s.inbound k = some conn)
      (hadmitted : conn.phase = .admitted) :
      Step s (.serve k) (s.setInbound k { conn with phase := .serving })
  | hangUp (s : Daemon P) (k : Nat) (conn : Inbound P) (hconn : s.inbound k = some conn) :
      Step s (.hangUp k) (s.setInbound k { conn with phase := .closed })

variable (P)

/-- All runs of a daemon whose events meet a condition. -/
def daemonWhere (allowed : Daemon P → DaemonEvent P → Prop) : System (Daemon P) where
  init s := ∃ config, parseConfig config = .ok config ∧ config.edges ≠ [] ∧ s = .started config
  step s t := ∃ e, allowed s e ∧ Daemon.Step s e t

def daemon : System (Daemon P) := daemonWhere P (fun _ _ => True)

variable {P}

/-- A run under a condition is a run. -/
theorem Daemon.reachable_of_where {allowed : Daemon P → DaemonEvent P → Prop} {s : Daemon P}
    (hs : (daemonWhere P allowed).Reachable s) : (daemon P).Reachable s := by
  obtain ⟨s₀, hinit, hrun⟩ := hs
  refine ⟨s₀, hinit, Relation.ReflTransGen.mono ?_ _ _ hrun⟩
  rintro a b ⟨e, _, hstep⟩
  exact ⟨e, trivial, hstep⟩

/-! ## Connections -/

namespace Daemon

variable {s : Daemon P} {c : Nat} {cs : List Nat}

theorem exists_link_of_isOpen (h : s.isOpen c = true) :
    ∃ id, s.links c = some ⟨id, true⟩ ∧ s.remote c = some id := by
  obtain ⟨⟨id, isOpen⟩, hlink, hopen⟩ := (Option.any_eq_true _ _).1 h
  obtain rfl : isOpen = true := hopen
  exact ⟨id, hlink, by simp [remote, hlink]⟩

@[simp] theorem isOpen_closeAll :
    (s.closeAll cs).isOpen c = true ↔ s.isOpen c = true ∧ c ∉ cs := by
  by_cases hc : c ∈ cs
  · cases hlink : s.links c <;> simp [isOpen, closeAll, hc, hlink]
  · simp [isOpen, closeAll, hc]

@[simp] theorem remote_closeAll : (s.closeAll cs).remote c = s.remote c := by
  by_cases hc : c ∈ cs
  · cases hlink : s.links c <;> simp [remote, closeAll, hc, hlink]
  · simp [remote, closeAll, hc]

@[simp] theorem isSome_links_closeAll : ((s.closeAll cs).links c).isSome = (s.links c).isSome := by
  by_cases hc : c ∈ cs <;> simp [closeAll, hc]

theorem pooled_eq_some (h : s.pooled name = some c) :
    (name, c) ∈ s.conns ∧ s.isOpen c = true := by
  obtain ⟨hlookup, hopen⟩ := Option.filter_eq_some_iff.1 h
  obtain ⟨⟨name', c'⟩, hentry, rfl⟩ := Option.map_eq_some_iff.1 hlookup
  obtain ⟨hmem, rfl⟩ := Keyed.mem_of_lookup hentry
  exact ⟨hmem, hopen⟩

/-- When a name has no open connection in the pool, whatever the pool has for it is closed. -/
theorem isOpen_of_pooled_eq_none (hdistinct : Keyed.Distinct Prod.fst s.conns)
    (h : s.pooled name = none) (hc : (name, c) ∈ s.conns) : s.isOpen c = false := by
  have hlookup : Keyed.lookup Prod.fst name s.conns = some (name, c) :=
    (Keyed.lookup_eq_some hdistinct).2 ⟨hc, rfl⟩
  simpa [pooled, hlookup] using h

theorem remains_iff {new : List EdgeCfg} {entry : String × Nat} :
    s.remains new entry = true ↔
      ∃ id, endpointOf P new entry.1 = some id ∧ s.remote entry.2 = some id := by
  simp [remains, Option.any_eq_true]

/-- Reloading keeps the connections that have the id the new configuration gives their edge. -/
theorem conns_install (hdistinct : Keyed.Distinct Prod.fst s.conns) (r : Reloader)
    (new : List EdgeCfg) :
    (s.install r new).conns = s.conns.filter (s.remains new) := by
  refine (Keyed.foldl_discard_selected hdistinct (fun entry => !s.remains new entry)).trans ?_
  simp

/-- An open connection of the pool that survives a reload stays in the pool. -/
theorem mem_conns_install {r : Reloader} {new : List EdgeCfg}
    (hdistinct : Keyed.Distinct Prod.fst s.conns) (hmem : (name, c) ∈ s.conns)
    (hopen : (s.install r new).isOpen c = true) : (name, c) ∈ (s.install r new).conns := by
  rw [conns_install hdistinct r new, List.mem_filter]
  refine ⟨hmem, ?_⟩
  by_contra hevicted
  have hclosed := (isOpen_closeAll.1 hopen).2
  exact hclosed (List.mem_map.2 ⟨(name, c), List.mem_filter.2 ⟨hmem, by simpa using hevicted⟩, rfl⟩)

end Daemon

end AgentScale.Client
