import AgentScale.Deployment.Joint
import AgentScale.Relay.Polling

set_option autoImplicit false

/-! # Taking a Relay out of service

The Relay of a deployment learns from its own polls whether it is still enrolled. Control answers a
poll from the states its process is in while it works on it; Control's operations, the Relay's
clients, crashes and restarts of both come in between in any order. A Relay that stays registered is
never taken out of service by an answer, and one that has been removed is by the next answer it gets,
for good once it has written that down. -/

namespace AgentScale

open Checked ControlApi RelayApi Control Transition

/-- A poll that Control is working on. -/
structure Poll where
  request : WatchRequest
  received : Int
  /-- The states of Control's process since it received the poll; none when the process that received
      it, if there was one, is gone. -/
  seen : List ControlState

/-- Control has taken a step, after which its process is in the given state. -/
def Poll.observe (process : Option ControlState) (poll : Poll) : Poll :=
  { poll with
    seen := match process, poll.seen with
      | some state, _ :: _ => state :: poll.seen
      | _, _ => [] }

/-- A Control, a Relay and the Relay's watch. -/
structure Watching (P : Platform) where
  control : World
  relay : Relay.Host P
  poller : Relay.Poller
  pending : Option Poll

/-- Whether Control knows a Relay. -/
def Registers {P : Platform} (relayId : EndpointId P) (state : ControlState) : Prop :=
  state.relays.any (·.endpointId = relayId.text) = true

instance {P : Platform} (relayId : EndpointId P) (state : ControlState) :
    Decidable (Registers relayId state) :=
  inferInstanceAs (Decidable (_ = true))

/-- The answer that the result of `relay_watch` is sent as. -/
def watchAnswer : Except ApiError (Option SignedRevocationUpdate) → Relay.WatchAnswer
  | .ok (some signed) => .update signed
  | .ok none => .noContent
  | .error error => .refused error.status

namespace Watching

variable {P : Platform}

@[inherit_doc Deployment.clock]
def clock (d : Watching P) : Int := d.control.clock

/-- What Control may answer to a poll: the refusal of its port update, or what `relay_watch` comes
    to. -/
inductive Answers (key : SecretKey) (w : World) (poll : Poll) : Relay.WatchAnswer → Prop
  | port (amb : Ambient) (state : ControlState) (error : ApiError)
      (running : w.process = some state) (received : amb.received = poll.received)
      (earlier : amb.earlier ∈ poll.seen)
      (refuses : relayWatchPort P amb poll.request state = .error error) :
      Answers key w poll (.refused error.status)
  | watch (amb : Ambient) (state : ControlState) (running : w.process = some state)
      (clock : amb.clock = w.clock) (received : amb.received = poll.received)
      (earlier : amb.earlier ∈ poll.seen) :
      Answers key w poll (watchAnswer (relayWatch P key amb poll.request state))

/-- The Relay has received an answer. -/
def take (d : Watching P) (memory : Relay.Memory P) (ioError : Option String) (written : Bool)
    (answer : Relay.WatchAnswer) : Watching P :=
  let (relay, poller) :=
    Relay.pollControl P d.relay memory d.clock ioError written d.poller answer
  { d with relay, poller, pending := none }

/-- A request `poll_control` may send: signed with the Relay's key, under the version it has applied,
    with the port of its profile, which Control has checked when it enrolled the Relay. -/
structure Genuine (relayId : EndpointId P) (memory : Relay.Memory P) (request : WatchRequest) :
    Prop where
  verifies : request.verify P = .ok relayId
  known : request.knownRevision = memory.current.version
  port : request.relayQadPort ≠ some 0

inductive Step (key : SecretKey) (relayId : EndpointId P) : Watching P → Watching P → Prop
  | control (d : Watching P) (w : World) (step : World.Step P key (fun _ _ _ => True) d.control w) :
      Step key relayId d { d with control := w, pending := d.pending.map (Poll.observe w.process) }
  | connect (d : Watching P) (memory : Relay.Memory P) (endpointId : EndpointId P)
      (token : Option String) (running : d.relay.process = some memory) :
      Step key relayId d { d with relay := { d.relay with
        process := some (Relay.connect P d.relay memory d.clock endpointId token) } }
  | leave (d : Watching P) (memory : Relay.Memory P) (session : Relay.Session P)
      (running : d.relay.process = some memory) :
      Step key relayId d { d with relay := { d.relay with
        process := some { memory with sessions := memory.sessions.erase session } } }
  | crash (d : Watching P) :
      Step key relayId d { d with relay := { d.relay with process := none }, pending := none }
  | start (d : Watching P) (relay : Relay.Host P) (stopped : d.relay.process = none)
      (started : Relay.start P d.relay d.clock = .ok relay) :
      Step key relayId d { d with relay, poller := .fresh, pending := none }
  | poll (d : Watching P) (memory : Relay.Memory P) (request : WatchRequest)
      (running : d.relay.process = some memory) (polling : d.poller.stopped = false)
      (idle : d.pending = none) (genuine : Genuine relayId memory request) :
      Step key relayId d
        { d with pending := some ⟨request, d.clock, d.control.process.toList⟩ }
  | answer (d : Watching P) (memory : Relay.Memory P) (poll : Poll) (ioError : Option String)
      (written : Bool) (answer : Relay.WatchAnswer) (running : d.relay.process = some memory)
      (pending : d.pending = some poll) (answers : Answers (P := P) key d.control poll answer) :
      Step key relayId d (d.take memory ioError written answer)
  /-- The answer does not arrive, or is cut short. -/
  | lost (d : Watching P) (memory : Relay.Memory P) (poll : Poll) (ioError : Option String)
      (written : Bool) (answer : Relay.WatchAnswer) (running : d.relay.process = some memory)
      (pending : d.pending = some poll) (none : answer = .unavailable ∨ answer = .undecodable) :
      Step key relayId d (d.take memory ioError written answer)

/-- Some state of a Control, and a Relay that trusts its key and has never run. -/
def Initial (key : SecretKey) (d : Watching P) : Prop :=
  (Control.control P key).Reachable d.control ∧ d.relay.Fresh ∧ d.relay.authorityId = key.public P ∧
    d.poller = .fresh ∧ d.pending = none

end Watching

/-- The runs of a Control and a Relay in which Control's process is only ever in the given states. -/
def watchingWhile (P : Platform) (key : SecretKey) (relayId : EndpointId P)
    (allowed : ControlState → Prop) : Transition.System (Watching P) where
  init := fun d => Watching.Initial key d ∧ ∀ state, d.control.process = some state → allowed state
  step := fun d d' =>
    Watching.Step key relayId d d' ∧ ∀ state, d'.control.process = some state → allowed state

/-! ## What Control answers -/

section Answers

variable {P : Platform} {key : SecretKey} {relayId : EndpointId P} {amb : Ambient}
  {state : ControlState} {request : WatchRequest}

/-- A computation of Control that does not fail with a status that ends an enrollment. -/
def Mild {α : Type} (result : Except ApiError α) : Prop :=
  ∀ error, result = .error error → Relay.revokes error.status = false

variable {α : Type}

theorem Mild.ok (a : α) : Mild (.ok a : Except ApiError α) := by
  rintro _ ⟨⟩

theorem Mild.bind {α β : Type} {x : Except ApiError α} {f : α → Except ApiError β} (hx : Mild x)
    (hf : ∀ a, x = .ok a → Mild (f a)) : Mild (x >>= f) := by
  cases x with
  | error error =>
    rintro _ ⟨⟩
    exact hx error rfl
  | ok a => exact hf a rfl

theorem Mild.mapError {x : Except String α} {f : String → ApiError}
    (h : ∀ text, Relay.revokes (f text).status = false) : Mild (x.mapError f) := by
  cases x with
  | error text =>
    rintro _ ⟨⟩
    exact h text
  | ok a => exact .ok a

theorem Mild.ensure {p : Prop} [Decidable p] {error : ApiError}
    (h : ¬ p → Relay.revokes error.status = false) : Mild (ensure p error) := by
  by_cases hp : p
  · rw [ensure_of hp]
    exact .ok ()
  · intro other hother
    simp only [Checked.ensure, if_neg hp] at hother
    obtain rfl := Except.error.inj hother
    exact h hp

theorem mild_anyhowRelayExists (h : Registers relayId state) :
    Mild (anyhowRelayExists P state relayId) :=
  .ensure fun hnot => absurd h hnot

theorem mild_updateRelayQadPort (qadPort : Option UInt16) (h : Registers relayId state) :
    Mild (updateRelayQadPort P relayId qadPort state) := by
  obtain ⟨relay, hmem, hid⟩ := List.any_eq_true.1 h
  unfold updateRelayQadPort
  cases hlookup : Keyed.lookup RelayRecord.endpointId relayId.text state.relays with
  | none => exact absurd (of_decide_eq_true hid) (Keyed.lookup_eq_none.1 hlookup relay hmem)
  | some found =>
    simp only [okOr, ok_bind]
    split
    all_goals exact .ok _

/-- The checks that `relay_watch` starts with, of a request that verifies. -/
theorem mild_relayChecks {f : EndpointId P → Except ApiError α}
    (hverify : request.verify P = .ok relayId) (hf : Mild (f relayId)) :
    Mild (do
      let endpointId ← (request.verify P).mapError ApiError.unauthorized
      (checkTime request.issuedAt amb.received).mapError ApiError.unauthorized
      (validateQadPort request.relayQadPort).mapError ApiError.bad
      f endpointId) := by
  refine .bind (.mapError fun _ => rfl) fun id hid => ?_
  obtain rfl : relayId = id := Except.ok.inj (hverify.symm.trans (mapError_eq_ok.1 hid))
  exact .bind (.mapError fun _ => rfl) fun _ _ => .bind (.mapError fun _ => rfl) fun _ _ => hf

theorem relayChecks_eq {f : EndpointId P → Except ApiError α}
    (hverify : request.verify P = .ok relayId)
    (hinTime : (request.issuedAt - amb.received).natAbs ≤ CLOCK_SKEW_SECS)
    (hport : request.relayQadPort ≠ some 0) :
    (do
      let endpointId ← (request.verify P).mapError ApiError.unauthorized
      (checkTime request.issuedAt amb.received).mapError ApiError.unauthorized
      (validateQadPort request.relayQadPort).mapError ApiError.bad
      f endpointId) = f relayId := by
  rw [hverify, checkTime, ensure_of hinTime, validateQadPort, ensure_of hport]
  rfl

theorem mild_relayWatchPort (hverify : request.verify P = .ok relayId)
    (hearlier : Registers relayId amb.earlier) (hnow : Registers relayId state) :
    Mild (relayWatchPort P amb request state) := by
  refine mild_relayChecks hverify (.bind (mild_updateRelayQadPort _ hearlier) fun first _ => ?_)
  cases first with
  | reply => exact .ok _
  | commit => exact mild_updateRelayQadPort _ hnow

theorem mild_relayWatch (hverify : request.verify P = .ok relayId)
    (hearlier : Registers relayId amb.earlier) (hnow : Registers relayId state) :
    Mild (relayWatch P key amb request state) := by
  have hwait : Mild (waitForRelayRevision P relayId request.knownRevision amb.earlier) :=
    .bind (mild_anyhowRelayExists hearlier) fun _ _ =>
      .bind (.ensure fun _ => rfl) fun _ _ => .ok _
  refine mild_relayChecks hverify (.bind hwait fun ready _ => ?_)
  cases ready with
  | false => exact .ok _
  | true =>
    exact .bind (mild_anyhowRelayExists hnow) fun _ _ =>
      .bind (.mapError fun _ => rfl) fun _ _ => .ok _

/-- No answer to a Relay that is registered all along takes it out of service. -/
theorem Watching.Answers.mild {w : World} {poll : Poll} {answer : Relay.WatchAnswer}
    (h : Watching.Answers (P := P) key w poll answer)
    (hverify : poll.request.verify P = .ok relayId)
    (hseen : ∀ state ∈ poll.seen, Registers relayId state)
    (hnow : ∀ state, w.process = some state → Registers relayId state) :
    ∀ status, answer = .refused status → Relay.revokes status = false := by
  cases h with
  | port amb state error running _ earlier refuses =>
    rintro _ ⟨⟩
    exact mild_relayWatchPort hverify (hseen _ earlier) (hnow state running) error refuses
  | watch amb state running _ _ earlier =>
    intro status hstatus
    have hmild : Mild (relayWatch P key amb poll.request state) :=
      mild_relayWatch hverify (hseen _ earlier) (hnow state running)
    cases hresult : relayWatch P key amb poll.request state with
    | error error =>
      rw [hresult] at hstatus
      obtain rfl := Relay.WatchAnswer.refused.inj hstatus
      exact hmild error hresult
    | ok result =>
      rw [hresult] at hstatus
      cases result <;> exact absurd hstatus (by simp [watchAnswer])

/-- Every answer to a Relay that is not registered refuses it. -/
theorem Watching.Answers.refuses {w : World} {poll : Poll} {answer : Relay.WatchAnswer}
    (h : Watching.Answers (P := P) key w poll answer)
    (hverify : poll.request.verify P = .ok relayId) (hport : poll.request.relayQadPort ≠ some 0)
    (hinTime : (poll.request.issuedAt - poll.received).natAbs ≤ CLOCK_SKEW_SECS)
    (hseen : ∀ state ∈ poll.seen, ¬ Registers relayId state) :
    answer = .refused .forbidden := by
  cases h with
  | port amb state error running received earlier refuses =>
    have hnone : Keyed.lookup RelayRecord.endpointId relayId.text amb.earlier.relays = none :=
      Keyed.lookup_eq_none.2 fun relay hmem hid =>
        hseen _ earlier (List.any_eq_true.2 ⟨relay, hmem, decide_eq_true hid⟩)
    have hunknown : relayWatchPort P amb poll.request state =
        .error (ApiError.forbidden "relay is not registered") := by
      refine (relayChecks_eq hverify (received ▸ hinTime) hport).trans ?_
      simp only [updateRelayQadPortIfNeeded, updateRelayQadPort, hnone, okOr, error_bind]
    obtain rfl := Except.error.inj (hunknown.symm.trans refuses)
    rfl
  | watch amb state running _ received earlier =>
    have hgone : anyhowRelayExists P amb.earlier relayId =
        .error (ApiError.forbidden "relay is not registered") := by
      simp only [anyhowRelayExists, Checked.ensure]
      exact if_neg (hseen _ earlier)
    have hunknown : relayWatch P key amb poll.request state =
        .error (ApiError.forbidden "relay is not registered") := by
      refine (relayChecks_eq hverify (received ▸ hinTime) hport).trans ?_
      simp only [waitForRelayRevision, hgone, error_bind]
    rw [hunknown]
    rfl

end Answers

/-! ## Every run -/

namespace Watching

variable {P : Platform} {key : SecretKey} {relayId : EndpointId P} {allowed : ControlState → Prop}
  {d d' : Watching P}

/-- The poll Control is working on came from the Relay, and what it has seen of Control's process
    are states in which that may be. -/
def PollSound (relayId : EndpointId P) (allowed : ControlState → Prop) (d : Watching P) : Prop :=
  ∀ poll, d.pending = some poll → poll.request.verify P = .ok relayId ∧
    poll.request.relayQadPort ≠ some 0 ∧ ∀ state ∈ poll.seen, allowed state

theorem PollSound.of_none (h : d.pending = none) : PollSound relayId allowed d := by
  intro poll hpoll
  cases hpoll.symm.trans h

theorem mem_seen_observe {process : Option ControlState} {poll : Poll} {state : ControlState}
    (h : state ∈ (poll.observe process).seen) : process = some state ∨ state ∈ poll.seen := by
  simp only [Poll.observe] at h
  split at h
  · rcases List.mem_cons.1 h with rfl | hseen
    · exact .inl rfl
    · exact .inr hseen
  · exact absurd h List.not_mem_nil

theorem PollSound.step (hstep : (watchingWhile P key relayId allowed).step d d')
    (hnow : ∀ state, d.control.process = some state → allowed state)
    (h : PollSound relayId allowed d) : PollSound relayId allowed d' := by
  obtain ⟨hstep, hnow'⟩ := hstep
  cases hstep with
  | control w step =>
    intro poll' hpoll'
    obtain ⟨poll, hpoll, rfl⟩ := Option.map_eq_some_iff.1 hpoll'
    obtain ⟨hverify, hport, hseen⟩ := h poll hpoll
    refine ⟨hverify, hport, fun state hstate => ?_⟩
    rcases mem_seen_observe hstate with hprocess | hbefore
    · exact hnow' state hprocess
    · exact hseen state hbefore
  | connect | leave => exact h
  | crash | start | answer | lost => exact .of_none rfl
  | poll memory request running polling idle genuine =>
    rintro _ ⟨⟩
    exact ⟨genuine.verifies, genuine.port, fun state hstate => hnow state (by simpa using hstate)⟩

theorem control_while (h : (watchingWhile P key relayId allowed).Reachable d) :
    ∀ state, d.control.process = some state → allowed state :=
  h.invariant (P := fun d => ∀ state, d.control.process = some state → allowed state)
    (fun _ hinit => hinit.2) (fun _ _ _ _ hstep => hstep.2)

theorem pollSound_of_reachable (h : (watchingWhile P key relayId allowed).Reachable d) :
    PollSound relayId allowed d :=
  h.invariant (P := PollSound relayId allowed) (fun _ hinit => .of_none hinit.1.2.2.2.2)
    (fun _ _ hr hd hstep => hd.step hstep (control_while hr))

/-- The Relay has not been told that its enrollment is revoked. -/
structure InService (d : Watching P) : Prop where
  marker : d.relay.marker = false
  memory : ∀ memory, d.relay.process = some memory → memory.enrollmentRevoked = false
  polling : d.poller.stopped = false

theorem InService.take {memory : Relay.Memory P} {ioError : Option String} {written : Bool}
    {answer : Relay.WatchAnswer} (h : InService d) (hrun : d.relay.process = some memory)
    (hanswer : ∀ status, answer = .refused status → Relay.revokes status = false) :
    InService (d.take memory ioError written answer) := by
  obtain ⟨status, hrefused, hrevokes, _⟩ | ⟨hstopped, heq | ⟨signed, _, happly⟩⟩ :=
    Relay.pollControl_cases d.relay memory d.clock ioError written d.poller answer
  · exact absurd hrevokes (by simp [hanswer status hrefused])
  · exact ⟨(congrArg Relay.Host.marker heq).trans h.marker,
      fun other hother => h.memory other ((congrArg Relay.Host.process heq).symm.trans hother),
      hstopped.trans h.polling⟩
  · obtain ⟨hmarker, memory', hrun', hstanding, _⟩ :=
      Relay.applyRevocationUpdate_standing hrun happly
    refine ⟨hmarker.trans h.marker, fun other hother => ?_, hstopped.trans h.polling⟩
    cases hrun'.symm.trans hother
    exact hstanding.trans (h.memory memory hrun)

theorem InService.step (h : InService d) (hstep : Step key relayId d d')
    (hnow : ∀ state, d.control.process = some state → Registers relayId state)
    (hpoll : PollSound relayId (Registers relayId) d) : InService d' := by
  cases hstep with
  | control | poll => exact ⟨h.marker, h.memory, h.polling⟩
  | connect memory endpointId token running =>
    refine ⟨h.marker, ?_, h.polling⟩
    rintro _ ⟨⟩
    simp only [Relay.connect]
    split <;> exact h.memory memory running
  | leave memory session running =>
    refine ⟨h.marker, ?_, h.polling⟩
    rintro _ ⟨⟩
    exact h.memory memory running
  | crash =>
    refine ⟨h.marker, ?_, h.polling⟩
    rintro _ ⟨⟩
  | start relay stopped started =>
    obtain ⟨_, current, revoked, rfl⟩ := Relay.start_eq_ok started
    refine ⟨h.marker, ?_, rfl⟩
    rintro _ ⟨⟩
    rfl
  | answer memory poll ioError written answer running pending answers =>
    obtain ⟨hverify, _, hseen⟩ := hpoll poll pending
    exact h.take running (answers.mild hverify hseen hnow)
  | lost memory poll ioError written answer running pending none =>
    refine h.take running fun status hstatus => ?_
    rcases none with rfl | rfl <;> cases hstatus

/-- Once it has written down that its enrollment is revoked, the Relay stays out of service. -/
theorem step_outOfService (hstep : Step key relayId d d')
    (h : d.relay.marker = true ∧ d.relay.OutOfService) :
    d'.relay.marker = true ∧ d'.relay.OutOfService := by
  obtain ⟨hmarker, hout⟩ := h
  cases hstep with
  | control | poll => exact ⟨hmarker, hout⟩
  | connect memory endpointId token running =>
    have hhost : Relay.Host.Step d.clock d.relay _ := .connect d.relay memory endpointId token running
    exact hhost.outOfService hmarker hout
  | leave memory session running =>
    have hhost : Relay.Host.Step d.clock d.relay _ := .leave d.relay memory session running
    exact hhost.outOfService hmarker hout
  | crash =>
    have hhost : Relay.Host.Step d.clock d.relay _ := .crash d.relay
    exact hhost.outOfService hmarker hout
  | start relay stopped started =>
    exact (Relay.Host.Step.start d.relay relay stopped started).outOfService hmarker hout
  | answer memory _ _ _ _ running | lost memory _ _ _ _ running =>
    exact Relay.pollControl_outOfService running hmarker hout

end Watching

/-! ## Runs that can be computed -/

namespace Watching

variable {P : Platform} {key : SecretKey} {relayId : EndpointId P} {allowed : ControlState → Prop}
  [DecidablePred allowed] {d d' : Watching P}

/-- An event of a run. The Relay polls with the key `node`; Control answers from the last state of its
    process, and the Relay can write what it has to. -/
inductive Event (P : Platform) where
  | control (event : Control.Event P)
  | start
  | connect (endpointId : EndpointId P) (token : Option String)
  | poll (node : SecretKey)
  | answer

/-- Control's answer to a poll. -/
def reply (key : SecretKey) (d : Watching P) (poll : Poll) (state earlier : ControlState) :
    Relay.WatchAnswer :=
  watchAnswer (relayWatch P key
    { d.control.ambient state "" with received := poll.received, earlier } poll.request state)

/-- Perform an event, if it is possible. -/
def perform (key : SecretKey) (relayId : EndpointId P) (d : Watching P) :
    Event P → Option (Watching P)
  | .control event =>
    (d.control.perform key (fun _ _ _ => True) event).map (fun w =>
      { d with control := w, pending := d.pending.map (Poll.observe w.process) })
  | .start =>
    if d.relay.process = none then
      (Relay.start P d.relay d.clock).toOption.map (fun relay =>
        { d with relay, poller := .fresh, pending := none })
    else none
  | .connect endpointId token =>
    d.relay.process.map (fun memory => { d with relay := { d.relay with
      process := some (Relay.connect P d.relay memory d.clock endpointId token) } })
  | .poll node =>
    d.relay.process.bind (fun memory =>
      let request := watchRequest P node d.clock memory.current.version
      if (request.verify P).toOption = some relayId ∧ d.poller.stopped = false ∧
          d.pending.isNone = true then
        some { d with pending := some ⟨request, d.clock, d.control.process.toList⟩ }
      else none)
  | .answer =>
    d.relay.process.bind (fun memory => d.pending.bind (fun poll =>
      d.control.process.bind (fun state => poll.seen.head?.map (fun earlier =>
        d.take memory none true (d.reply key poll state earlier)))))

theorem reply_answers {poll : Poll} {state earlier : ControlState}
    (hrun : d.control.process = some state) (hseen : earlier ∈ poll.seen) :
    Answers (P := P) key d.control poll (d.reply key poll state earlier) :=
  .watch _ state hrun rfl rfl hseen

omit [DecidablePred allowed] in
theorem control_reachable (h : (watchingWhile P key relayId allowed).Reachable d) :
    (Control.control P key).Reachable d.control := by
  refine h.invariant (P := fun d => (Control.control P key).Reachable d.control) ?_ ?_
  · exact fun d hd => hd.1.1
  · rintro d d' _ hr ⟨hstep, _⟩
    cases hstep with
    | control w step => exact hr.step step
    | connect | leave | crash | start | poll | answer | lost => exact hr

theorem perform_step (hr : (Control.control P key).Reachable d.control) {e : Event P}
    (h : d.perform key relayId e = some d') : Step key relayId d d' := by
  cases e with
  | control event =>
    obtain ⟨w, hw, rfl⟩ := Option.map_eq_some_iff.1 h
    exact .control d w (World.perform_step hr hw)
  | start =>
    obtain ⟨hstopped, h⟩ := Option.ite_none_right_eq_some.1 h
    obtain ⟨relay, hrelay, rfl⟩ := Option.map_eq_some_iff.1 h
    exact .start d relay hstopped (toOption_eq_some.1 hrelay)
  | connect endpointId token =>
    obtain ⟨memory, hrun, rfl⟩ := Option.map_eq_some_iff.1 h
    exact .connect d memory endpointId token hrun
  | poll node =>
    obtain ⟨memory, hrun, h⟩ := Option.bind_eq_some_iff.1 h
    obtain ⟨⟨hverify, hpolling, hidle⟩, ⟨⟩⟩ := Option.ite_none_right_eq_some.1 h
    exact .poll d memory _ hrun hpolling (Option.isNone_iff_eq_none.1 hidle)
      ⟨toOption_eq_some.1 hverify, rfl, by simp [watchRequest]⟩
  | answer =>
    obtain ⟨memory, hrun, h⟩ := Option.bind_eq_some_iff.1 h
    obtain ⟨poll, hpending, h⟩ := Option.bind_eq_some_iff.1 h
    obtain ⟨state, hcontrol, h⟩ := Option.bind_eq_some_iff.1 h
    obtain ⟨earlier, hearlier, rfl⟩ := Option.map_eq_some_iff.1 h
    exact .answer d memory poll none true _ hrun hpending
      (reply_answers hcontrol (List.mem_of_head? hearlier))

/-- Perform an event after which Control's process may be in the state it is in. -/
def performWhile (key : SecretKey) (relayId : EndpointId P) (allowed : ControlState → Prop)
    [DecidablePred allowed] (d : Watching P) (e : Event P) : Option (Watching P) :=
  (d.perform key relayId e).filter (fun d' => d'.control.process.all (fun state => allowed state))

theorem while_of_all {process : Option ControlState}
    (h : process.all (fun state => allowed state) = true) :
    ∀ state, process = some state → allowed state := by
  rintro state rfl
  exact of_decide_eq_true h

/-- A Control after some events, with a Relay that has enrolled with it and never run. -/
def fresh (P : Platform) (key : SecretKey) (events : List (Control.Event P)) :
    Option (Watching P) :=
  (World.after key (fun _ _ _ => True) events).map (fun w =>
    ⟨w, ⟨"agents", key.public P, none, false, none⟩, .fresh, none⟩)

/-- What has been checked after some events holds of a reachable state. -/
theorem exists_after (key : SecretKey) (relayId : EndpointId P) (allowed : ControlState → Prop)
    [DecidablePred allowed] (enrolment : List (Control.Event P)) (events : List (Event P))
    (check : Watching P → Bool)
    (h : ((fresh P key enrolment).filter (fun d =>
        d.control.process.all (fun state => allowed state))).any (fun d =>
      (runAll (performWhile key relayId allowed) d events).any check) = true) :
    ∃ d, (watchingWhile P key relayId allowed).Reachable d ∧ check d = true := by
  obtain ⟨d₀, hfresh, h⟩ := (Option.any_eq_true _ _).1 h
  obtain ⟨d, hrun, hcheck⟩ := (Option.any_eq_true _ _).1 h
  obtain ⟨hfresh, hwhile⟩ := Option.filter_eq_some_iff.1 hfresh
  obtain ⟨w, hw, rfl⟩ := Option.map_eq_some_iff.1 hfresh
  obtain ⟨w₀, hinit, hw⟩ := Option.bind_eq_some_iff.1 hw
  have hcontrol : (Control.control P key).Reachable w₀ := ⟨w₀, World.fresh_initial hinit, .refl⟩
  have hreach : (watchingWhile P key relayId allowed).Reachable
      ⟨w, ⟨"agents", key.public P, none, false, none⟩, .fresh, none⟩ :=
    ⟨_, ⟨⟨hcontrol.steps (World.steps_of_run hcontrol hw), ⟨rfl, rfl, rfl⟩, rfl, rfl, rfl⟩,
      while_of_all hwhile⟩, .refl⟩
  refine ⟨d, hreach.steps (steps_of_runAll (fun a b e hr hperform => ?_) hreach hrun), hcheck⟩
  obtain ⟨hperform, hwhile⟩ := Option.filter_eq_some_iff.1 hperform
  exact ⟨perform_step (control_reachable hr) hperform, while_of_all hwhile⟩

end Watching

section Results

variable {P : Platform} {key : SecretKey} {relayId : EndpointId P} {d : Watching P}

/-- **A registered Relay stays in service.** In every run in which Control's process, whenever there
    is one, knows the Relay, no answer makes the Relay disconnect its clients, stop polling or write
    the marker that keeps it from starting again: whatever else happens at Control and at the Relay,
    whatever an answer was computed from, and whichever answers are lost. -/
theorem registered_relay_stays_in_service
    (h : (watchingWhile P key relayId (Registers relayId)).Reachable d) :
    d.relay.marker = false ∧ d.poller.stopped = false ∧
      ∀ memory, d.relay.process = some memory → memory.enrollmentRevoked = false := by
  have hservice : d.InService := by
    refine h.invariant (P := Watching.InService) ?_ ?_
    · rintro d ⟨⟨_, ⟨_, hmarker, hstopped⟩, _, hpoller, _⟩, _⟩
      refine ⟨hmarker, fun memory hrun => ?_, by rw [hpoller]; rfl⟩
      cases hrun.symm.trans hstopped
    · intro d d' hr hd hstep
      exact hd.step hstep.1 (Watching.control_while hr) (Watching.pollSound_of_reachable hr)
  exact ⟨hservice.marker, hservice.polling, hservice.memory⟩

open Reference in
/-- A Relay is told of the removal of a client, and stays in service itself. -/
theorem informed_relay_stays_in_service :
    ∃ (d : Watching Relay.clientPlatform) (memory : Relay.Memory Relay.clientPlatform),
      (watchingWhile Relay.clientPlatform controlKey (otherKey.public _)
        (Registers (otherKey.public Relay.clientPlatform))).Reachable d ∧
      d.relay.process = some memory ∧ memory.current.version = 2 ∧
      d.relay.marker = false ∧ memory.enrollmentRevoked = false := by
  obtain ⟨d, hr, hcheck⟩ := Watching.exists_after controlKey (otherKey.public _)
    (Registers (otherKey.public Relay.clientPlatform))
    (enrolClient Relay.clientPlatform controlKey nodeKey ++
      enrolRelay Relay.clientPlatform controlKey otherKey "r" "https://relay.example/")
    [.start, .control (.operate (fun _ => .localAdmin (.removeClient "a")) "remove-a"),
      .poll otherKey, .answer]
    (fun d => d.relay.process.any (fun memory => memory.current.version = 2)) (by decide +kernel)
  obtain ⟨memory, hrun, hversion⟩ := (Option.any_eq_true _ _).1 hcheck
  obtain ⟨hmarker, _, hmemory⟩ := registered_relay_stays_in_service hr
  exact ⟨d, memory, hr, hrun, of_decide_eq_true hversion, hmarker, hmemory memory hrun⟩

/-- **A removed Relay is taken out of service, for good.** When Control's process does not know the
    Relay at any time while it works on a poll, whatever it answers ends the Relay's service: its
    clients are disconnected and nobody is admitted any more. If the Relay could write that down, this
    stays so in every continuation, restarts and a new registration included, and it does not start
    again. -/
theorem removed_relay_is_taken_out_of_service {memory : Relay.Memory P} {poll : Poll}
    {answer : Relay.WatchAnswer} (ioError : Option String) (written : Bool)
    (h : (watchingWhile P key relayId (fun _ => True)).Reachable d)
    (hrun : d.relay.process = some memory) (hpending : d.pending = some poll)
    (hremoved : ∀ state ∈ poll.seen, ¬ Registers relayId state)
    (hinTime : (poll.request.issuedAt - poll.received).natAbs ≤ CLOCK_SKEW_SECS)
    (hanswers : Watching.Answers (P := P) key d.control poll answer) :
    (d.take memory ioError written answer).relay.OutOfService ∧
      (d.take memory ioError written answer).poller.stopped = true ∧
      (written = true → ∀ d', (watchingWhile P key relayId (fun _ => True)).Steps
          (d.take memory ioError written answer) d' →
        d'.relay.OutOfService ∧ ∀ now host, Relay.start P d'.relay now ≠ .ok host) := by
  obtain ⟨hverify, hport, _⟩ := Watching.pollSound_of_reachable h poll hpending
  obtain rfl := hanswers.refuses hverify hport hinTime hremoved
  refine ⟨Relay.revokeAll_outOfService, rfl, ?_⟩
  rintro rfl d' hsteps
  have htaken : (watchingWhile P key relayId (fun _ => True)).Reachable
      (d.take memory ioError true (.refused .forbidden)) :=
    h.step ⟨.answer d memory poll ioError true _ hrun hpending hanswers, fun _ _ => trivial⟩
  obtain ⟨hmarker, hout⟩ := hsteps.preserves
    (P := fun d => d.relay.marker = true ∧ d.relay.OutOfService) htaken
    (fun _ _ _ hd hstep => Watching.step_outOfService hstep.1 hd)
    ⟨by simp [Watching.take, Relay.pollControl, Relay.revokes, Relay.revokeAll],
      Relay.revokeAll_outOfService⟩
  refine ⟨hout, fun now host hstart => ?_⟩
  exact absurd (Relay.start_eq_ok hstart).1 (by simp [hmarker])

open Reference in
/-- A Relay with a client is removed, polls, and cannot be started again. -/
theorem removed_relay_does_not_start_again :
    ∃ (d : Watching Relay.clientPlatform) (memory : Relay.Memory Relay.clientPlatform) (poll : Poll)
      (answer : Relay.WatchAnswer),
      (watchingWhile Relay.clientPlatform controlKey (otherKey.public _) (fun _ => True)).Reachable d ∧
      d.relay.process = some memory ∧ d.pending = some poll ∧ poll.seen ≠ [] ∧
      Watching.Answers (P := Relay.clientPlatform) controlKey d.control poll answer ∧
      memory.sessions = [⟨nodeKey.public _, 2⟩] ∧
      (d.take memory none true answer).relay.OutOfService ∧
      ∀ now host, Relay.start _ (d.take memory none true answer).relay now ≠ .ok host := by
  obtain ⟨d, hr, hcheck⟩ := Watching.exists_after controlKey (otherKey.public _) (fun _ => True)
    (enrolClient Relay.clientPlatform controlKey nodeKey ++
      enrolRelay Relay.clientPlatform controlKey otherKey "r" "https://relay.example/")
    [.start, .connect (nodeKey.public _) (some "client-token"),
      .control (.operate (fun _ => .localAdmin (.removeRelay "r")) "remove-r"), .poll otherKey]
    (fun d => d.relay.process.any (fun memory => memory.sessions = [⟨nodeKey.public _, 2⟩]) &&
      d.pending.any (fun poll => poll.seen.head?.any (fun _ => d.control.process.isSome) &&
        poll.seen.all (fun state => !Registers (otherKey.public Relay.clientPlatform) state) &&
        (poll.request.issuedAt - poll.received).natAbs ≤ CLOCK_SKEW_SECS)) (by decide +kernel)
  simp only [Bool.and_eq_true] at hcheck
  obtain ⟨hrunning, hpoll⟩ := hcheck
  obtain ⟨memory, hrun, hsessions⟩ := (Option.any_eq_true _ _).1 hrunning
  obtain ⟨poll, hpending, hpoll⟩ := (Option.any_eq_true _ _).1 hpoll
  simp only [Bool.and_eq_true, decide_eq_true_eq] at hpoll
  obtain ⟨⟨hseen, hremoved⟩, hinTime⟩ := hpoll
  obtain ⟨earlier, hearlier, hcontrol⟩ := (Option.any_eq_true _ _).1 hseen
  obtain ⟨state, hstate⟩ := Option.isSome_iff_exists.1 hcontrol
  have hmem := List.mem_of_head? hearlier
  have hanswers : Watching.Answers controlKey d.control poll
      (d.reply controlKey poll state earlier) := Watching.reply_answers hstate hmem
  obtain ⟨hout, _, hlater⟩ := removed_relay_is_taken_out_of_service none true hr hrun hpending
    (by simpa using hremoved) hinTime hanswers
  exact ⟨d, memory, poll, _, hr, hrun, hpending, List.ne_nil_of_mem hmem, hanswers,
    of_decide_eq_true hsessions, hout, (hlater rfl _ .refl).2⟩

end Results

end AgentScale
