import AgentScale.Relay.Sessions

set_option autoImplicit false

/-! # The Relay's watch of Control

`poll_control` is the only task of a Relay that changes its revocations: it asks Control for the next
update, applies what it is given, backs off when that fails, and takes the Relay out of service for
good when Control answers that the Relay is not enrolled any more. -/

namespace AgentScale.Relay

open Checked RelayApi

/-- What the request of one round comes back with. -/
inductive WatchAnswer where
  | noContent
  | update (signed : SignedRevocationUpdate)
  /-- A success whose body is no signed update. -/
  | undecodable
  | refused (status : StatusCode)
  /-- Control could not be reached, or did not answer in time. -/
  | unavailable

/-- The loop of `poll_control`: how long it sleeps after the next failure, and whether it has
    returned. -/
structure Poller where
  backoff : Nat
  stopped : Bool

namespace Poller

def fresh : Poller := ⟨1, false⟩

def reset (poller : Poller) : Poller := { poller with backoff := 1 }

def backOff (poller : Poller) : Poller := { poller with backoff := min (poller.backoff * 2) 60 }

def stop (poller : Poller) : Poller := { poller with stopped := true }

@[simp] theorem backOff_stopped (poller : Poller) : poller.backOff.stopped = poller.stopped := rfl

end Poller

/-- The statuses that end the enrollment. -/
def revokes (status : StatusCode) : Bool := status = .forbidden || status = .gone

variable (P : Platform)

/-- What `poll_control` checks of an update before it hands it to `apply_revocation_update`. -/
def validAnswer (host : Host P) (signed : SignedRevocationUpdate) : Except String Unit := do
  signed.verify P host.authorityId
  let _ ← validateRevocations P signed.update host.audience
  return ()

/-- One round of `poll_control`, from its answer on; `ioError` is what persisting an update runs into,
    `written` whether the marker of a revoked enrollment can be written. -/
def pollControl (host : Host P) (memory : Memory P) (now : Int) (ioError : Option String)
    (written : Bool) (poller : Poller) : WatchAnswer → Host P × Poller
  | .noContent => (host, poller.reset)
  | .update signed =>
    match validAnswer P host signed with
    | .error _ => (host, poller.backOff)
    | .ok () =>
      match applyRevocationUpdate P host memory now ioError signed with
      | .error _ => (host, poller.backOff)
      | .ok host' => (host', poller.reset)
  | .undecodable => (host, poller.backOff)
  | .refused status =>
    if revokes status then (revokeAll host memory written, poller.stop)
    else (host, poller.backOff)
  | .unavailable => (host, poller.backOff)

variable {P} {host : Host P} {memory : Memory P} {now : Int} {ioError : Option String}
  {written : Bool} {poller : Poller} {answer : WatchAnswer}

/-- What a round does: it takes the Relay out of service, applies an update, or changes nothing. -/
theorem pollControl_cases (host : Host P) (memory : Memory P) (now : Int) (ioError : Option String)
    (written : Bool) (poller : Poller) (answer : WatchAnswer) :
    (∃ status, answer = .refused status ∧ revokes status = true ∧
        pollControl P host memory now ioError written poller answer =
          (revokeAll host memory written, poller.stop)) ∨
      (pollControl P host memory now ioError written poller answer).2.stopped = poller.stopped ∧
        ((pollControl P host memory now ioError written poller answer).1 = host ∨
          ∃ signed, answer = .update signed ∧
            applyRevocationUpdate P host memory now ioError signed =
              .ok (pollControl P host memory now ioError written poller answer).1) := by
  cases answer with
  | noContent | undecodable | unavailable => exact .inr ⟨rfl, .inl rfl⟩
  | refused status =>
    cases hstatus : revokes status with
    | true => exact .inl ⟨status, rfl, hstatus, by simp [pollControl, hstatus]⟩
    | false => exact .inr (by simp [pollControl, hstatus])
  | update signed =>
    refine .inr ?_
    simp only [pollControl]
    split
    · exact ⟨rfl, .inl rfl⟩
    · cases happly : applyRevocationUpdate P host memory now ioError signed with
      | error e => exact ⟨rfl, .inl rfl⟩
      | ok host' => exact ⟨rfl, .inr ⟨signed, rfl, happly⟩⟩

variable {host' : Host P}

/-- An update leaves the standing of the Relay's own enrollment alone. -/
theorem applyRevocationUpdate_standing {signed : SignedRevocationUpdate}
    (hrun : host.process = some memory)
    (h : applyRevocationUpdate P host memory now ioError signed = .ok host') :
    host'.marker = host.marker ∧ ∃ memory', host'.process = some memory' ∧
      memory'.enrollmentRevoked = memory.enrollmentRevoked ∧
        ∀ session ∈ memory'.sessions, session ∈ memory.sessions := by
  obtain ⟨_, _, _, ⟨_, hre⟩ | ⟨_, hacc⟩⟩ := applyRevocationUpdate_eq_ok.1 h
  · obtain ⟨_, rfl | ⟨_, _, rfl⟩⟩ := reapply_eq_ok hre
    · exact ⟨rfl, memory, hrun, rfl, fun _ h => h⟩
    · exact ⟨rfl, _, rfl, rfl, fun _ h => h⟩
  · obtain ⟨_, _, _, _, _, _, _, rfl⟩ := accumulate_eq_ok.1 hacc
    exact ⟨rfl, _, rfl, rfl, fun session hsession =>
      ((mem_sessions_of_accepted hrun rfl h).1 hsession).1⟩

theorem start_eq_ok (h : Relay.start P host now = .ok host') :
    host.marker = false ∧ ∃ current revoked, host' =
      { host with file := some current, process := some ⟨current, revoked, [], false⟩ } := by
  obtain ⟨_, _, h⟩ := of_bind h
  obtain ⟨_, hmarker, h⟩ := of_bind h
  obtain ⟨revoked, _, h⟩ := of_bind h
  exact ⟨ensure_eq_ok.1 hmarker, _, revoked, (pure_eq_ok.1 h).symm⟩

/-! ## Out of service -/

/-- A Relay that runs, if it does, without serving anybody. -/
def Host.OutOfService (host : Host P) : Prop :=
  ∀ memory, host.process = some memory → memory.enrollmentRevoked = true ∧ memory.sessions = []

theorem revokeAll_outOfService : (revokeAll host memory written).OutOfService := by
  rintro _ ⟨⟩
  exact ⟨rfl, rfl⟩

/-- Nobody is admitted to a Relay whose enrollment is revoked. -/
theorem connect_eq_of_revoked {endpointId : EndpointId P} {token : Option String}
    (h : memory.enrollmentRevoked = true) : connect P host memory now endpointId token = memory := by
  simp [connect, onConnect, h]

/-- Once the marker is written, whatever happens at the Relay leaves it out of service. -/
theorem Host.Step.outOfService (hstep : Host.Step now host host') (hmarker : host.marker = true)
    (h : host.OutOfService) :
    host'.marker = true ∧ host'.OutOfService := by
  cases hstep with
  | connect memory endpointId token running =>
    refine ⟨hmarker, ?_⟩
    rw [connect_eq_of_revoked (h memory running).1]
    rintro _ ⟨⟩
    exact h memory running
  | leave memory session running =>
    refine ⟨hmarker, ?_⟩
    rintro _ ⟨⟩
    obtain ⟨hrevoked, hnobody⟩ := h memory running
    exact ⟨hrevoked, by simp [hnobody]⟩
  | crash =>
    refine ⟨hmarker, ?_⟩
    rintro _ ⟨⟩
  | start _ stopped started =>
    exact absurd (start_eq_ok started).1 (by simp [hmarker])
  | revokeAll memory written running =>
    exact ⟨by simp [Relay.revokeAll, hmarker], revokeAll_outOfService⟩

theorem pollControl_outOfService (hrun : host.process = some memory) (hmarker : host.marker = true)
    (h : host.OutOfService) :
    (pollControl P host memory now ioError written poller answer).1.marker = true ∧
      (pollControl P host memory now ioError written poller answer).1.OutOfService := by
  obtain ⟨_, _, _, heq⟩ | ⟨_, heq | ⟨signed, _, happly⟩⟩ :=
    pollControl_cases host memory now ioError written poller answer
  · rw [heq]
    exact ⟨by simp [revokeAll, hmarker], revokeAll_outOfService⟩
  · rw [heq]
    exact ⟨hmarker, h⟩
  · obtain ⟨hkept, memory', hrun', hstanding, hsessions⟩ := applyRevocationUpdate_standing hrun happly
    obtain ⟨hrevoked, hnobody⟩ := h memory hrun
    refine ⟨hkept.trans hmarker, fun _ hother => ?_⟩
    cases hrun'.symm.trans hother
    refine ⟨hstanding.trans hrevoked, List.eq_nil_iff_forall_not_mem.2 fun session hsession => ?_⟩
    exact absurd (hsessions session hsession) (by simp [hnobody])

end AgentScale.Relay
