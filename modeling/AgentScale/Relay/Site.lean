import AgentScale.Api.Reference
import AgentScale.Relay.Server

set_option autoImplicit false

/-! # A Relay over time

The steps of a Relay: connections, crashes, starts, the revocation of its enrollment, and the signed
updates it accepts. As for Control, a list of events can be performed, and what it leads to is a run
(`Site.exists_after`). -/

namespace AgentScale.Relay

open Checked RelayApi Transition

variable {P : Platform}

/-- What happens at a Relay without an update from Control. -/
inductive Host.Step (now : Int) : Host P → Host P → Prop
  | connect (host : Host P) (memory : Memory P) (endpointId : EndpointId P) (token : Option String)
      (running : host.process = some memory) :
      Step now host { host with process := some (connect P host memory now endpointId token) }
  | leave (host : Host P) (memory : Memory P) (session : Session P)
      (running : host.process = some memory) :
      Step now host { host with
        process := some { memory with sessions := memory.sessions.erase session } }
  | crash (host : Host P) : Step now host { host with process := none }
  | start (host host' : Host P) (stopped : host.process = none)
      (started : Relay.start P host now = .ok host') : Step now host host'
  | revokeAll (host : Host P) (memory : Memory P) (written : Bool)
      (running : host.process = some memory) : Step now host (revokeAll host memory written)

/-- A Relay and its clock. -/
structure Site (P : Platform) where
  clock : Int
  host : Host P

/-- One step of a Relay that receives whatever Control has signed. -/
inductive Site.Step : Site P → Site P → Prop
  | tick (s : Site P) (now : Int) (later : s.clock ≤ now) : Step s { s with clock := now }
  | host (s : Site P) (host : Host P) (step : Host.Step s.clock s.host host) :
      Step s { s with host }
  | update (s : Site P) (memory : Memory P) (ioError : Option String)
      (signed : SignedRevocationUpdate) (host : Host P) (running : s.host.process = some memory)
      (accepted : applyRevocationUpdate P s.host memory s.clock ioError signed = .ok host) :
      Step s { s with host }

/-- A Relay that has enrolled and never run. -/
def Host.Fresh (host : Host P) : Prop :=
  host.file = none ∧ host.marker = false ∧ host.process = none

/-- All runs of a Relay on a clock that does not go back. -/
def relay (P : Platform) : Transition.System (Site P) where
  init := fun s => s.host.Fresh
  step := Site.Step

/-! ## Runs that can be computed -/

/-- An event at a Relay. -/
inductive HostEvent (P : Platform) where
  | connect (endpointId : EndpointId P) (token : Option String)
  | crash
  | start

def Host.perform (now : Int) (host : Host P) : HostEvent P → Option (Host P)
  | .connect endpointId token =>
    host.process.map (fun memory =>
      { host with process := some (Relay.connect P host memory now endpointId token) })
  | .crash => some { host with process := none }
  | .start => if host.process = none then (Relay.start P host now).toOption else none

theorem Host.perform_step {now : Int} {host host' : Host P} {e : HostEvent P}
    (h : host.perform now e = some host') : Host.Step now host host' := by
  cases e with
  | connect endpointId token =>
    obtain ⟨memory, hrun, rfl⟩ := Option.map_eq_some_iff.1 h
    exact .connect host memory endpointId token hrun
  | crash =>
    cases h
    exact .crash host
  | start =>
    simp only [Host.perform] at h
    split at h
    · next hstopped =>
      cases hstart : Relay.start P host now with
      | error e => exact absurd h (by simp [hstart, Except.toOption])
      | ok started =>
        rw [hstart] at h
        obtain rfl := Option.some.inj h
        exact .start host started hstopped hstart
    · cases h

/-- An event at a Relay with a clock. -/
inductive SiteEvent (P : Platform) where
  | tick (now : Int)
  | host (event : HostEvent P)
  | update (signed : SignedRevocationUpdate)

def Site.perform (s : Site P) : SiteEvent P → Option (Site P)
  | .tick now => if s.clock ≤ now then some { s with clock := now } else none
  | .host event => (s.host.perform s.clock event).map (fun host => { s with host })
  | .update signed =>
    s.host.process.bind (fun memory =>
      (applyRevocationUpdate P s.host memory s.clock none signed).toOption.map (fun host =>
        { s with host }))

theorem Site.perform_step {s s' : Site P} {e : SiteEvent P} (h : s.perform e = some s') :
    Site.Step s s' := by
  cases e with
  | tick now =>
    simp only [Site.perform] at h
    split at h
    · next hle =>
      cases h
      exact .tick s now hle
    · cases h
  | host event =>
    obtain ⟨host, hhost, rfl⟩ := Option.map_eq_some_iff.1 h
    exact .host s host (Host.perform_step hhost)
  | update signed =>
    obtain ⟨memory, hrun, h⟩ := Option.bind_eq_some_iff.1 h
    obtain ⟨host, hhost, rfl⟩ := Option.map_eq_some_iff.1 h
    cases happly : applyRevocationUpdate P s.host memory s.clock none signed with
    | error e => exact absurd hhost (by simp [happly, Except.toOption])
    | ok host' =>
      rw [happly] at hhost
      obtain rfl := Option.some.inj hhost
      exact .update s memory none signed host' hrun happly

/-- A Relay that has enrolled with the given authority and never run, at time zero. -/
def Site.fresh (authorityId : EndpointId P) : Site P := ⟨0, ⟨"agents", authorityId, none, false, none⟩⟩

/-- What has been checked after some events holds of a reachable Relay. -/
theorem Site.exists_after (authorityId : EndpointId P) (events : List (SiteEvent P))
    (check : Site P → Bool)
    (h : (runAll Site.perform (Site.fresh authorityId) events).any check = true) :
    ∃ s, (relay P).Reachable s ∧ check s = true := by
  obtain ⟨s, hrun, hcheck⟩ := (Option.any_eq_true _ _).1 h
  have hinit : (relay P).Reachable (Site.fresh authorityId) := ⟨_, ⟨rfl, rfl, rfl⟩, .refl⟩
  exact ⟨s, hinit.steps (steps_of_runAll (fun _ _ _ _ h => Site.perform_step h) hinit hrun), hcheck⟩

/-- Some events lead to a reachable Relay that accepts an update, with the checked sessions and clock
    before and sessions after it. -/
theorem Site.exists_accepted (authorityId : EndpointId P) (events : List (SiteEvent P))
    (signed : SignedRevocationUpdate) (clock : Int) (before after : List (Session P))
    (h : (runAll Site.perform (Site.fresh authorityId) events).any (fun s =>
      s.clock = clock && s.host.process.any (fun memory => memory.sessions = before &&
        (applyRevocationUpdate P s.host memory s.clock none signed).toOption.any (fun host' =>
          host'.process.any (fun memory' => memory'.sessions = after)))) = true) :
    ∃ (s : Site P) (host' : Host P) (memory memory' : Memory P), (relay P).Reachable s ∧
      s.host.process = some memory ∧ host'.process = some memory' ∧
      applyRevocationUpdate P s.host memory s.clock none signed = .ok host' ∧
      s.clock = clock ∧ memory.sessions = before ∧ memory'.sessions = after := by
  obtain ⟨s, hr, hcheck⟩ := Site.exists_after authorityId events _ h
  rw [Bool.and_eq_true, decide_eq_true_iff] at hcheck
  obtain ⟨hclock, hcheck⟩ := hcheck
  obtain ⟨memory, hrun, hcheck⟩ := (Option.any_eq_true _ _).1 hcheck
  rw [Bool.and_eq_true, decide_eq_true_iff] at hcheck
  obtain ⟨hbefore, hcheck⟩ := hcheck
  cases haccepted : applyRevocationUpdate P s.host memory s.clock none signed with
  | error e => exact absurd hcheck (by simp [haccepted, Except.toOption])
  | ok host' =>
    rw [haccepted] at hcheck
    obtain ⟨_, hsome, hcheck⟩ := (Option.any_eq_true _ _).1 hcheck
    cases hsome
    obtain ⟨memory', hrun', hcheck⟩ := (Option.any_eq_true _ _).1 hcheck
    exact ⟨s, host', memory, memory', hr, hrun, hrun', haccepted, hclock, hbefore,
      of_decide_eq_true hcheck⟩

end AgentScale.Relay
