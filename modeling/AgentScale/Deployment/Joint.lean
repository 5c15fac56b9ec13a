import AgentScale.Control.Execution
import AgentScale.Relay.Site

set_option autoImplicit false

/-! # One Control and one Relay

The Relay polls with the version it has applied; Control answers with a signed update; the answer may
be delivered any number of times, late, or never. Everything shares one clock. -/

namespace AgentScale

open Checked ControlApi RelayApi Control Transition

structure Deployment (P : Platform) where
  control : World
  relay : Relay.Host P
  /-- The versions the Relay has polled with. -/
  requests : List Nat
  /-- The updates Control has answered with. -/
  messages : List SignedRevocationUpdate

namespace Deployment

variable {P : Platform}

/-- The shared clock. -/
def clock (d : Deployment P) : Int := d.control.clock

/-- One step of Control, of the Relay, or of a message between them. -/
inductive Step (key : SecretKey) : Deployment P → Deployment P → Prop
  | control (d : Deployment P) (w : World) (step : World.Step P key (fun _ _ _ => True) d.control w) :
      Step key d { d with control := w }
  | relay (d : Deployment P) (host : Relay.Host P) (step : Relay.Host.Step d.clock d.relay host) :
      Step key d { d with relay := host }
  | request (d : Deployment P) (memory : Relay.Memory P) (running : d.relay.process = some memory) :
      Step key d { d with requests := memory.current.version :: d.requests }
  | answer (d : Deployment P) (amb : Ambient) (request : WatchRequest) (state : ControlState)
      (signed : SignedRevocationUpdate) (running : d.control.process = some state)
      (admissible : amb.Admissible d.control) (asked : request.knownRevision ∈ d.requests)
      (answers : relayWatch P key amb request state = .ok (some signed)) :
      Step key d { d with
        control := (d.control.operate P key amb (.relayWatch request) state).2
        messages := signed :: d.messages }
  | deliver (d : Deployment P) (memory : Relay.Memory P) (ioError : Option String)
      (signed : SignedRevocationUpdate) (host : Relay.Host P)
      (running : d.relay.process = some memory) (sent : signed ∈ d.messages)
      (accepted : Relay.applyRevocationUpdate P d.relay memory d.clock ioError signed = .ok host) :
      Step key d { d with relay := host }

/-- A fresh Control, and a Relay that trusts its key and has never run. -/
def Initial (key : SecretKey) (d : Deployment P) : Prop :=
  World.Initial P d.control ∧ d.relay.Fresh ∧ d.relay.authorityId = key.public P ∧
    d.requests = [] ∧ d.messages = []

end Deployment

/-- All runs of a Control and a Relay. -/
def deployment (P : Platform) (key : SecretKey) : Transition.System (Deployment P) where
  init := Deployment.Initial key
  step := Deployment.Step key

/-! ## Control on its own -/

section Control

variable {P : Platform} {key : SecretKey} {d d' : Deployment P}

theorem control_step (h : Deployment.Step key d d') :
    d'.control = d.control ∨ World.Step P key (fun _ _ _ => True) d.control d'.control := by
  cases h with
  | control w step => exact .inr step
  | relay | request | deliver => exact .inl rfl
  | answer amb request state signed running admissible =>
    exact .inr (.operate d.control amb (.relayWatch request) state running admissible trivial)

theorem control_reachable (h : (deployment P key).Reachable d) :
    (control P key).Reachable d.control := by
  refine h.invariant (P := fun d => (control P key).Reachable d.control) ?_ ?_
  · intro d hd
    exact ⟨d.control, hd.1, .refl⟩
  · intro d d' _ hr hstep
    rcases control_step hstep with heq | hw
    · rw [heq]
      exact hr
    · exact hr.step hw

end Control

/-! ## Runs that can be computed -/

namespace Deployment

variable {P : Platform} {key : SecretKey} {d d' : Deployment P}

/-- An event of a run. The Relay with key `node` polls under the last version it has sent, and the
    last answer is the one that is delivered. -/
inductive Event (P : Platform) where
  | control (event : Control.Event P)
  | relay (event : Relay.HostEvent P)
  | request
  | answer (node : SecretKey) (inviteId : String)
  | deliver

/-- Control's answer to the last poll. -/
def performAnswer (key : SecretKey) (d : Deployment P) (node : SecretKey) (inviteId : String)
    (state : ControlState) (known : Nat) : Option (Deployment P) :=
  let amb := d.control.ambient state inviteId
  let request := watchRequest P node d.clock known
  match relayWatch P key amb request state with
  | .ok (some signed) =>
    if inviteId ∉ d.control.drawn then
      some { d with
        control := (d.control.operate P key amb (.relayWatch request) state).2
        messages := signed :: d.messages }
    else none
  | _ => none

def perform (key : SecretKey) (d : Deployment P) : Event P → Option (Deployment P)
  | .control event =>
    (d.control.perform key (fun _ _ _ => True) event).map (fun w => { d with control := w })
  | .relay event => (d.relay.perform d.clock event).map (fun host => { d with relay := host })
  | .request =>
    d.relay.process.map (fun memory => { d with requests := memory.current.version :: d.requests })
  | .answer node inviteId =>
    d.control.process.bind (fun state =>
      d.requests.head?.bind (performAnswer key d node inviteId state))
  | .deliver =>
    d.relay.process.bind (fun memory => d.messages.head?.bind (fun signed =>
      (Relay.applyRevocationUpdate P d.relay memory d.clock none signed).toOption.map (fun host =>
        { d with relay := host })))

theorem performAnswer_step (hr : (deployment P key).Reachable d) {node : SecretKey}
    {inviteId : String} {state : ControlState} {known : Nat} (hrun : d.control.process = some state)
    (hknown : known ∈ d.requests) (h : performAnswer key d node inviteId state known = some d') :
    Step key d d' := by
  simp only [performAnswer] at h
  split at h
  · next signed hanswer =>
    split at h
    · next hfresh =>
      cases h
      exact .answer d _ _ state signed hrun ⟨le_rfl, rfl,
        World.current_mem_past (control_reachable hr) state hrun, hfresh⟩ hknown hanswer
    · cases h
  · cases h

theorem perform_step (hr : (deployment P key).Reachable d) {e : Event P}
    (h : d.perform key e = some d') : Step key d d' := by
  cases e with
  | control event =>
    obtain ⟨w, hw, rfl⟩ := Option.map_eq_some_iff.1 h
    exact .control d w (World.perform_step (control_reachable hr) hw)
  | relay event =>
    obtain ⟨host, hhost, rfl⟩ := Option.map_eq_some_iff.1 h
    exact .relay d host (Relay.Host.perform_step hhost)
  | request =>
    obtain ⟨memory, hrun, rfl⟩ := Option.map_eq_some_iff.1 h
    exact .request d memory hrun
  | answer node inviteId =>
    obtain ⟨state, hrun, h⟩ := Option.bind_eq_some_iff.1 h
    obtain ⟨known, hknown, h⟩ := Option.bind_eq_some_iff.1 h
    exact performAnswer_step hr hrun (List.mem_of_head? hknown) h
  | deliver =>
    obtain ⟨memory, hrun, h⟩ := Option.bind_eq_some_iff.1 h
    obtain ⟨signed, hsent, h⟩ := Option.bind_eq_some_iff.1 h
    obtain ⟨host, hhost, rfl⟩ := Option.map_eq_some_iff.1 h
    cases happly : Relay.applyRevocationUpdate P d.relay memory d.clock none signed with
    | error e => exact absurd hhost (by simp [happly, Except.toOption])
    | ok host' =>
      rw [happly] at hhost
      obtain rfl := Option.some.inj hhost
      exact .deliver d memory none signed host' hrun (List.mem_of_head? hsent) happly

/-- A fresh Control and a Relay that has enrolled with it and never run. -/
def fresh (P : Platform) (key : SecretKey) : Option (Deployment P) :=
  (World.fresh P).map (fun w => ⟨w, ⟨"agents", key.public P, none, false, none⟩, [], []⟩)

/-- What has been checked after some events, and after some more, holds along a run. -/
theorem exists_after (key : SecretKey) (events later : List (Event P))
    (check : Deployment P → Deployment P → Bool)
    (h : ((fresh P key).bind (fun d => runAll (perform key) d events)).any (fun d =>
      (runAll (perform key) d later).any (check d)) = true) :
    ∃ d d', (deployment P key).Reachable d ∧ (deployment P key).Steps d d' ∧
      check d d' = true := by
  obtain ⟨d, hafter, h⟩ := (Option.any_eq_true _ _).1 h
  obtain ⟨d', hlater, hcheck⟩ := (Option.any_eq_true _ _).1 h
  obtain ⟨d₀, hfresh, hrun⟩ := Option.bind_eq_some_iff.1 hafter
  obtain ⟨w, hw, rfl⟩ := Option.map_eq_some_iff.1 hfresh
  have hinit : (deployment P key).Reachable ⟨w, ⟨"agents", key.public P, none, false, none⟩, [], []⟩ :=
    ⟨_, ⟨World.fresh_initial hw, ⟨rfl, rfl, rfl⟩, rfl, rfl, rfl⟩, .refl⟩
  have hperform : ∀ a b e, (deployment P key).Reachable a → a.perform key e = some b →
      (deployment P key).step a b := fun _ _ _ hr h => perform_step hr h
  have hr := hinit.steps (steps_of_runAll hperform hinit hrun)
  exact ⟨d, d', hr, steps_of_runAll hperform hr hlater, hcheck⟩

/-- A Relay and a client have enrolled, the Relay has started, and the client has been removed. -/
def removeClient (P : Platform) (key node relayNode : SecretKey) : List (Event P) :=
  (enrolClient P key node ++ enrolRelay P key relayNode "r" "https://relay.example/").map .control ++
    [.relay .start, .control (.operate (fun _ => .localAdmin (.removeClient "a")) "remove-a")]

/-- The Relay has fetched the update. -/
def poll (relayNode : SecretKey) : List (Event P) := [.request, .answer relayNode "poll", .deliver]

end Deployment

end AgentScale
