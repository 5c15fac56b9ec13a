import AgentScale.Edge.McpOutput
import AgentScale.Library.Transition

set_option autoImplicit false

/-! # The tasks of an HTTP bridge

`bridge` runs a transport loop, `streamable` or `legacy_sse`, and next to it up to two tasks: one forwards
the events of a GET, and one writes to the MCP client what the others put into a channel. The channel
takes `OUTPUT_QUEUE_ITEMS` messages, and the messages that are not yet written share a budget of
`OUTPUT_BUDGET_BYTES`. The tasks move in any order, and the server and the MCP client may do anything. A
run starts when `bridge` has told the MCP client that the session is open. -/

namespace AgentScale.Edge.Bridge

open Bytes Transition Transport

def outputQueueItems : Nat := 64

def outputBudgetBytes : Nat := 32 * 1024 * 1024

/-- How far a call of `OutputSender::send` is. -/
inductive Sending where
  /-- The task is not in `send`. -/
  | idle
  /-- In `acquire_many_owned`. -/
  | acquiring (frame : Frame)
  /-- In `self.tx.send`, with the permits. -/
  | queueing (frame : Frame)
deriving DecidableEq

/-- `send` is called. A message that is too long is refused at once. -/
def Sending.start (frame : Frame) : Sending :=
  if frame.payload.length ≤ maxMessageBytes then .acquiring frame else .idle

/-- The permits that a call holds. -/
def Sending.held : Sending → Nat
  | .queueing frame => frame.payload.length
  | _ => 0

/-- The tasks that send. -/
inductive Task where
  /-- The task of `bridge` itself, in the transport loop or with an error to report. -/
  | main
  /-- The task of `spawn_get_sse`, or the `reader` of `legacy_sse`. -/
  | side

inductive Phase where
  /-- In the transport loop. -/
  | serving
  /-- In `tx.push_error`. -/
  | reporting
  /-- In `writer.await`. -/
  | joining
  | returned
deriving DecidableEq

/-- The task that writes. -/
inductive Writer where
  | running
  /-- `rx.recv` has returned `None`. -/
  | finished
  /-- `write_frame` has failed. -/
  | failed
deriving DecidableEq

structure State where
  phase : Phase
  main : Sending
  side : Option Sending
  /-- The second task has been spawned. -/
  spawned : Bool
  /-- `abort` has been called on it. -/
  aborted : Bool
  queue : List Frame
  /-- The message the writer has taken from the queue. -/
  writing : Option Frame
  writer : Writer
  /-- The permits that are left in the budget. -/
  free : Nat
  /-- The messages for which `send` has returned `Ok`, in this order. -/
  accepted : List Frame
  /-- The messages that have been written. -/
  written : List Frame

def State.start : State :=
  ⟨.serving, .idle, none, false, false, [], none, .running, outputBudgetBytes, [], []⟩

inductive Event where
  | push (task : Task) (frame : Frame)
  /-- `acquire_many_owned` returns. -/
  | acquire (task : Task)
  /-- `self.tx.send` returns `Ok`. -/
  | enqueue (task : Task)
  /-- `self.tx.send` returns an error. -/
  | refuse (task : Task)
  | spawn
  /-- The transport loop returns `Ok`. -/
  | ends
  /-- The transport loop returns an error, and a second task is left on its own. -/
  | fails (error : String)
  | reported
  | sideEnds
  /-- The second task stops after `abort`. -/
  | cancel
  /-- `rx.recv` returns a message. -/
  | receive
  | write
  | writeFails
  /-- `rx.recv` returns `None`: there is no sender left. -/
  | drain
  /-- `writer.await` returns. -/
  | join

def size (frames : List Frame) : Nat := (frames.map (·.payload.length)).sum

namespace State

variable (s : State)

def sender : Task → Option Sending
  | .main => some s.main
  | .side => s.side

def setSender : Task → Sending → State
  | .main, sending => { s with main := sending }
  | .side, sending => { s with side := some sending }

/-- The task is where it may call `push_line` or `push_error`. -/
def mayPush : Task → Prop
  | .main => s.phase = .serving ∧ s.main = .idle
  | .side => s.side = some .idle

instance (task : Task) : Decidable (s.mayPush task) :=
  match task with
  | .main => inferInstanceAs (Decidable (s.phase = .serving ∧ s.main = .idle))
  | .side => inferInstanceAs (Decidable (s.side = some .idle))

def perform : Event → Option State
  | .push task frame => if s.mayPush task then some (s.setSender task (.start frame)) else none
  | .acquire task =>
    match s.sender task with
    | some (.acquiring frame) =>
      if frame.payload.length ≤ s.free then
        some { s.setSender task (.queueing frame) with free := s.free - frame.payload.length }
      else none
    | _ => none
  | .enqueue task =>
    match s.sender task with
    | some (.queueing frame) =>
      if s.writer = .running ∧ s.queue.length < outputQueueItems then
        some { s.setSender task .idle with
          queue := s.queue ++ [frame], accepted := s.accepted ++ [frame] }
      else none
    | _ => none
  | .refuse task =>
    match s.sender task with
    | some (.queueing frame) =>
      if s.writer ≠ .running then
        some { s.setSender task .idle with free := s.free + frame.payload.length }
      else none
    | _ => none
  | .spawn =>
    if s.phase = .serving ∧ s.spawned = false then
      some { s with spawned := true, side := some .idle }
    else none
  | .ends =>
    if s.phase = .serving ∧ s.main = .idle then
      some { s with phase := .joining, aborted := s.spawned }
    else none
  | .fails error =>
    if s.phase = .serving ∧ s.main = .idle then
      some { s with
        phase := .reporting
        main := .start ⟨.stderr, utf8 ("MCP HTTP bridge: " ++ error ++ "\n")⟩ }
    else none
  | .reported =>
    if s.phase = .reporting ∧ s.main = .idle then some { s with phase := .joining } else none
  | .sideEnds => if s.side = some .idle then some { s with side := none } else none
  | .cancel =>
    match s.side with
    | some sending =>
      if s.aborted then some { s with side := none, free := s.free + sending.held } else none
    | none => none
  | .receive =>
    match s.queue with
    | frame :: rest =>
      if s.writer = .running ∧ s.writing = none then
        some { s with queue := rest, writing := some frame }
      else none
    | [] => none
  | .write =>
    match s.writing with
    | some frame =>
      some { s with
        writing := none
        free := s.free + frame.payload.length
        written := s.written ++ [frame] }
    | none => none
  | .writeFails =>
    match s.writing with
    -- the writer leaves its loop and drops the receiver, with the messages in it
    | some frame =>
      some { s with
        writer := .failed
        writing := none
        queue := []
        free := s.free + (frame.payload.length + size s.queue) }
    | none => none
  | .drain =>
    -- `bridge` keeps a sender of its own until it returns
    if s.writer = .running ∧ s.writing = none ∧ s.queue = [] ∧ s.phase = .returned ∧
        s.side = none then
      some { s with writer := .finished }
    else none
  | .join =>
    if s.phase = .joining ∧ s.writer ≠ .running then some { s with phase := .returned } else none

end State

/-- One session. -/
def system : System State where
  init s := s = .start
  step s t := ∃ e, s.perform e = some t

@[simp] theorem setSender_free (s : State) (task : Task) (sending : Sending) :
    (s.setSender task sending).free = s.free := by
  cases task <;> rfl

@[simp] theorem setSender_queue (s : State) (task : Task) (sending : Sending) :
    (s.setSender task sending).queue = s.queue := by
  cases task <;> rfl

@[simp] theorem setSender_writing (s : State) (task : Task) (sending : Sending) :
    (s.setSender task sending).writing = s.writing := by
  cases task <;> rfl

@[simp] theorem setSender_writer (s : State) (task : Task) (sending : Sending) :
    (s.setSender task sending).writer = s.writer := by
  cases task <;> rfl

@[simp] theorem setSender_phase (s : State) (task : Task) (sending : Sending) :
    (s.setSender task sending).phase = s.phase := by
  cases task <;> rfl

@[simp] theorem setSender_history (s : State) (task : Task) (sending : Sending) :
    (s.setSender task sending).accepted = s.accepted ∧
      (s.setSender task sending).written = s.written := by
  cases task <;> exact ⟨rfl, rfl⟩

/-! ## What a step can do -/

/-- The steps, with their guards. -/
inductive Move (s : State) : State → Prop where
  | push (task : Task) (frame : Frame) : s.mayPush task → Move s (s.setSender task (.start frame))
  | acquire (task : Task) (frame : Frame) : s.sender task = some (.acquiring frame) →
      frame.payload.length ≤ s.free →
      Move s { s.setSender task (.queueing frame) with free := s.free - frame.payload.length }
  | enqueue (task : Task) (frame : Frame) : s.sender task = some (.queueing frame) →
      s.writer = .running → s.queue.length < outputQueueItems →
      Move s { s.setSender task .idle with
        queue := s.queue ++ [frame], accepted := s.accepted ++ [frame] }
  | refuse (task : Task) (frame : Frame) : s.sender task = some (.queueing frame) →
      s.writer ≠ .running →
      Move s { s.setSender task .idle with free := s.free + frame.payload.length }
  | spawn : s.phase = .serving → s.spawned = false →
      Move s { s with spawned := true, side := some .idle }
  | ends : s.phase = .serving → s.main = .idle →
      Move s { s with phase := .joining, aborted := s.spawned }
  | fails (frame : Frame) : s.phase = .serving → s.main = .idle →
      Move s { s with phase := .reporting, main := .start frame }
  | reported : s.phase = .reporting → s.main = .idle → Move s { s with phase := .joining }
  | leave (sending : Sending) : s.side = some sending →
      Move s { s with side := none, free := s.free + sending.held }
  | receive (frame : Frame) (rest : List Frame) : s.queue = frame :: rest → s.writer = .running →
      s.writing = none → Move s { s with queue := rest, writing := some frame }
  | write (frame : Frame) : s.writing = some frame →
      Move s { s with
        writing := none, free := s.free + frame.payload.length, written := s.written ++ [frame] }
  | writeFails (frame : Frame) : s.writing = some frame →
      Move s { s with
        writer := .failed, writing := none, queue := []
        free := s.free + (frame.payload.length + size s.queue) }
  | drain : s.writer = .running → s.writing = none → s.queue = [] → s.phase = .returned →
      Move s { s with writer := .finished }
  | join : s.phase = .joining → s.writer ≠ .running → Move s { s with phase := .returned }

variable {s t : State} {task : Task} {frame : Frame} {sending : Sending}

theorem perform_move {e : Event} (h : s.perform e = some t) : Move s t := by
  cases e with
  | push task frame =>
    obtain ⟨hmay, ⟨⟩⟩ := Option.ite_none_right_eq_some.1 h
    exact .push task frame hmay
  | acquire task =>
    simp only [State.perform] at h
    split at h
    · next frame hsender =>
      obtain ⟨hfree, ⟨⟩⟩ := Option.ite_none_right_eq_some.1 h
      exact .acquire task frame hsender hfree
    · cases h
  | enqueue task =>
    simp only [State.perform] at h
    split at h
    · next frame hsender =>
      obtain ⟨⟨hrunning, hroom⟩, ⟨⟩⟩ := Option.ite_none_right_eq_some.1 h
      exact .enqueue task frame hsender hrunning hroom
    · cases h
  | refuse task =>
    simp only [State.perform] at h
    split at h
    · next frame hsender =>
      obtain ⟨hstopped, ⟨⟩⟩ := Option.ite_none_right_eq_some.1 h
      exact .refuse task frame hsender hstopped
    · cases h
  | spawn =>
    obtain ⟨⟨hphase, hspawned⟩, ⟨⟩⟩ := Option.ite_none_right_eq_some.1 h
    exact .spawn hphase hspawned
  | ends =>
    obtain ⟨⟨hphase, hmain⟩, ⟨⟩⟩ := Option.ite_none_right_eq_some.1 h
    exact .ends hphase hmain
  | fails error =>
    obtain ⟨⟨hphase, hmain⟩, ⟨⟩⟩ := Option.ite_none_right_eq_some.1 h
    exact .fails _ hphase hmain
  | reported =>
    obtain ⟨⟨hphase, hmain⟩, ⟨⟩⟩ := Option.ite_none_right_eq_some.1 h
    exact .reported hphase hmain
  | sideEnds =>
    obtain ⟨hside, ⟨⟩⟩ := Option.ite_none_right_eq_some.1 h
    exact .leave .idle hside
  | cancel =>
    simp only [State.perform] at h
    split at h
    · next sending hside =>
      obtain ⟨_, ⟨⟩⟩ := Option.ite_none_right_eq_some.1 h
      exact .leave sending hside
    · cases h
  | receive =>
    simp only [State.perform] at h
    split at h
    · next frame rest hqueue =>
      obtain ⟨⟨hrunning, hwriting⟩, ⟨⟩⟩ := Option.ite_none_right_eq_some.1 h
      exact .receive frame rest hqueue hrunning hwriting
    · cases h
  | write =>
    simp only [State.perform] at h
    split at h
    · next frame hwriting => exact Option.some.inj h ▸ .write frame hwriting
    · cases h
  | writeFails =>
    simp only [State.perform] at h
    split at h
    · next frame hwriting => exact Option.some.inj h ▸ .writeFails frame hwriting
    · cases h
  | drain =>
    obtain ⟨⟨hrunning, hwriting, hqueue, hphase, _⟩, ⟨⟩⟩ := Option.ite_none_right_eq_some.1 h
    exact .drain hrunning hwriting hqueue hphase
  | join =>
    obtain ⟨⟨hphase, hstopped⟩, ⟨⟩⟩ := Option.ite_none_right_eq_some.1 h
    exact .join hphase hstopped

/-! ## The budget -/

/-- The permits that tasks and messages hold. -/
def State.held (s : State) : Nat :=
  s.main.held + s.side.elim 0 Sending.held + size s.writing.toList + size s.queue

/-- Every permit is in the budget or held, and a call waits only for a message that is not too long. -/
structure Sound (s : State) : Prop where
  budget : s.free + s.held = outputBudgetBytes
  room : s.queue.length ≤ outputQueueItems
  short : ∀ task frame, s.sender task = some (.acquiring frame) →
    frame.payload.length ≤ maxMessageBytes
  unspawned : s.spawned = false → s.side = none

@[simp] theorem size_nil : size [] = 0 := rfl

@[simp] theorem size_cons (frames : List Frame) :
    size (frame :: frames) = frame.payload.length + size frames := rfl

@[simp] theorem size_append (first second : List Frame) :
    size (first ++ second) = size first + size second := by
  simp [size]

@[simp] theorem start_held : (Sending.start frame).held = 0 := by
  unfold Sending.start
  split <;> rfl

theorem start_short {message : Frame} (h : Sending.start frame = .acquiring message) :
    message.payload.length ≤ maxMessageBytes := by
  unfold Sending.start at h
  split at h
  · next hshort => exact Sending.acquiring.inj h ▸ hshort
  · cases h

/-- The call of one task moves on. -/
theorem held_setSender (next : Sending) (h : s.sender task = some sending) :
    (s.setSender task next).held + sending.held = s.held + next.held := by
  cases task with
  | main =>
    cases h
    simp only [State.setSender, State.held]
    omega
  | side =>
    have hside : s.side = some sending := h
    simp only [State.setSender, State.held, hside, Option.elim_some]
    omega

theorem sender_of_mayPush (h : s.mayPush task) : s.sender task = some .idle := by
  cases task with
  | main => exact congrArg some h.2
  | side => exact h

theorem sender_setSender {other : Task} {next found : Sending}
    (h : (s.setSender task next).sender other = some found) :
    found = next ∨ s.sender other = some found := by
  cases task <;> cases other <;> simp_all [State.setSender, State.sender]

variable {next : Sending}

/-- Setting the call of one task keeps the messages that wait short. -/
theorem Sound.short_setSender (h : Sound s) (task : Task)
    (hnext : ∀ frame, next = .acquiring frame → frame.payload.length ≤ maxMessageBytes) :
    ∀ other frame, (s.setSender task next).sender other = some (.acquiring frame) →
      frame.payload.length ≤ maxMessageBytes := by
  intro other frame hfound
  rcases sender_setSender hfound with heq | hsender
  · exact hnext frame heq.symm
  · exact h.short other frame hsender

theorem Sound.unspawned_setSender (h : Sound s) (hsender : s.sender task = some sending) :
    (s.setSender task next).spawned = false → (s.setSender task next).side = none := by
  intro hspawned
  cases task with
  | main => exact h.unspawned hspawned
  | side => cases hsender.symm.trans (h.unspawned hspawned)

theorem Sound.step (h : Sound s) (hmove : Move s t) : Sound t := by
  have hbudget := h.budget
  have hroom := h.room
  cases hmove with
  | push task frame hmay =>
    have hheld := held_setSender (.start frame) (sender_of_mayPush hmay)
    refine ⟨?_, by simpa using hroom, h.short_setSender task (fun _ => start_short),
      h.unspawned_setSender (sender_of_mayPush hmay)⟩
    rw [start_held] at hheld
    simp only [setSender_free, Sending.held] at hheld ⊢
    omega
  | acquire task frame hsender hfree =>
    have hheld := held_setSender (.queueing frame) hsender
    refine ⟨?_, by simpa using hroom, h.short_setSender task (by simp), h.unspawned_setSender hsender⟩
    change s.free - frame.payload.length + (s.setSender task (.queueing frame)).held = _
    simp only [Sending.held] at hheld
    omega
  | enqueue task frame hsender _ hless =>
    have hheld := held_setSender .idle hsender
    refine ⟨?_, by simp only [List.length_append, List.length_singleton]; omega,
      h.short_setSender task (by simp), h.unspawned_setSender hsender⟩
    simp only [State.held, setSender_free, setSender_queue, setSender_writing, Sending.held,
      size_append, size_cons, size_nil] at hheld hbudget ⊢
    omega
  | refuse task frame hsender _ =>
    have hheld := held_setSender .idle hsender
    refine ⟨?_, by simpa using hroom, h.short_setSender task (by simp), h.unspawned_setSender hsender⟩
    change s.free + frame.payload.length + (s.setSender task .idle).held = _
    simp only [Sending.held] at hheld
    omega
  | spawn _ hspawned =>
    have hside := h.unspawned hspawned
    refine ⟨?_, hroom, ?_, by simp⟩
    · simp only [State.held, hside, Option.elim_none, Option.elim_some, Sending.held] at hbudget ⊢
      omega
    · intro task frame hsender
      cases task with
      | main => exact h.short .main frame hsender
      | side => cases hsender
  | ends => exact ⟨hbudget, hroom, h.short, h.unspawned⟩
  | fails frame _ hmain =>
    refine ⟨?_, hroom, h.short_setSender .main (fun _ => start_short), h.unspawned⟩
    have hsender : s.sender .main = some .idle := congrArg some hmain
    have hheld := held_setSender (.start frame) hsender
    rw [start_held] at hheld
    change s.free + (s.setSender .main (.start frame)).held = _
    simp only [Sending.held] at hheld
    omega
  | reported => exact ⟨hbudget, hroom, h.short, h.unspawned⟩
  | leave sending hside =>
    refine ⟨?_, hroom, ?_, fun _ => rfl⟩
    · simp only [State.held, hside, Option.elim_some, Option.elim_none] at hbudget ⊢
      omega
    · intro task frame hsender
      cases task with
      | main => exact h.short .main frame hsender
      | side => cases hsender
  | receive frame rest hqueue _ hwriting =>
    refine ⟨?_, ?_, h.short, h.unspawned⟩
    · simp only [State.held, hqueue, hwriting, Option.toList, size_cons, size_nil] at hbudget ⊢
      omega
    · rw [hqueue, List.length_cons] at hroom
      exact Nat.le_of_succ_le hroom
  | write frame hwriting =>
    refine ⟨?_, hroom, h.short, h.unspawned⟩
    simp only [State.held, hwriting, Option.toList, size_cons, size_nil] at hbudget ⊢
    omega
  | writeFails frame hwriting =>
    refine ⟨?_, Nat.zero_le _, h.short, h.unspawned⟩
    simp only [State.held, hwriting, Option.toList, size_cons, size_nil] at hbudget ⊢
    omega
  | drain => exact ⟨hbudget, hroom, h.short, h.unspawned⟩
  | join => exact ⟨hbudget, hroom, h.short, h.unspawned⟩

/-! ## The order of the messages -/

/-- What has been accepted is written, being written or in the queue, in this order. After a failed
    write the rest is dropped. -/
structure Ordered (s : State) : Prop where
  written : s.written <+: s.accepted
  running : s.writer = .running → s.accepted = s.written ++ (s.writing.toList ++ s.queue)
  stopped : s.writer ≠ .running → s.writing = none ∧ s.queue = []

theorem Ordered.step (h : Ordered s) (hmove : Move s t) : Ordered t := by
  cases hmove with
  | push | acquire | refuse =>
    exact ⟨by simpa using h.written, by simpa using h.running, by simpa using h.stopped⟩
  | enqueue task frame _ hrunning _ =>
    refine ⟨?_, ?_, ?_⟩
    · simpa using h.written.trans (List.prefix_append _ [frame])
    · simp [h.running hrunning]
    · simp [hrunning]
  | receive frame rest hqueue hrunning hwriting =>
    refine ⟨h.written, ?_, ?_⟩
    · simp [h.running hrunning, hqueue, hwriting]
    · simp [hrunning]
  | write frame hwriting =>
    -- a message is only written while the writer runs
    have hrunning : s.writer = .running := by
      by_contra hstopped
      cases (h.stopped hstopped).1.symm.trans hwriting
    have hall := h.running hrunning
    rw [hwriting] at hall
    refine ⟨⟨s.queue, ?_⟩, ?_, ?_⟩
    · simp [hall]
    · simp [hall]
    · simp [hrunning]
  | writeFails => exact ⟨h.written, by simp, fun _ => ⟨rfl, rfl⟩⟩
  | drain _ hwriting hqueue _ => exact ⟨h.written, by simp, fun _ => ⟨hwriting, hqueue⟩⟩
  | spawn | ends | fails | reported | leave | join => exact ⟨h.written, h.running, h.stopped⟩

/-! ## The end of a session -/

/-- `bridge` has a sender as long as it waits for the writer, and the writer waits as long as there is a
    sender. -/
structure Unfinished (s : State) : Prop where
  finished : s.writer ≠ .finished
  returned : s.phase = .returned → s.writer = .failed
  quiet : s.phase = .joining → s.main = .idle

/-- A call of the main task is in progress only before `bridge` waits for the writer. -/
theorem Unfinished.active (h : Unfinished s) (hsender : s.sender task = some sending)
    (hbusy : sending ≠ .idle) : task = .main → s.phase ≠ .joining := by
  rintro rfl hphase
  exact hbusy (Option.some.inj (hsender.symm.trans (congrArg some (h.quiet hphase))))

theorem Unfinished.setSender (h : Unfinished s) (hphase : t.phase = (s.setSender task next).phase)
    (hmain : t.main = (s.setSender task next).main)
    (hwriter : t.writer = (s.setSender task next).writer)
    (hactive : task = .main → s.phase ≠ .joining) : Unfinished t := by
  rw [setSender_phase] at hphase
  rw [setSender_writer] at hwriter
  refine ⟨hwriter ▸ h.finished, fun hreturned => hwriter ▸ h.returned (hphase ▸ hreturned), ?_⟩
  intro hjoining
  rw [hphase] at hjoining
  cases task with
  | main => exact absurd hjoining (hactive rfl)
  | side => exact hmain.trans (h.quiet hjoining)

theorem Unfinished.step (h : Unfinished s) (hmove : Move s t) : Unfinished t := by
  cases hmove with
  | push task frame hmay =>
    refine h.setSender rfl rfl rfl (fun htask => ?_)
    subst htask
    simp [hmay.1]
  | acquire _ _ hsender | enqueue _ _ hsender | refuse _ _ hsender =>
    exact h.setSender rfl rfl rfl (h.active hsender (by simp))
  | spawn | leave | receive | write => exact ⟨h.finished, h.returned, h.quiet⟩
  | ends _ hmain | reported _ hmain => exact ⟨h.finished, by simp, fun _ => hmain⟩
  | fails => exact ⟨h.finished, by simp, by simp⟩
  | writeFails => exact ⟨by simp, fun _ => rfl, h.quiet⟩
  | drain hrunning _ _ hphase => cases hrunning.symm.trans (h.returned hphase)
  | join _ hstopped =>
    refine ⟨h.finished, fun _ => ?_, by simp⟩
    cases hwriter : s.writer with
    | running => exact absurd hwriter hstopped
    | finished => exact absurd hwriter h.finished
    | failed => rfl

/-! ## The guarantees -/

theorem system_move (h : system.step s t) : Move s t := by
  obtain ⟨e, he⟩ := h
  exact perform_move he

theorem reachable_sound (h : system.Reachable s) : Sound s :=
  h.invariant (fun _ h0 => h0 ▸ ⟨rfl, by decide, by rintro (_ | _) _ ⟨⟩, fun _ => rfl⟩)
    (fun _ _ _ hs hstep => hs.step (system_move hstep))

theorem reachable_ordered (h : system.Reachable s) : Ordered s :=
  h.invariant (fun _ h0 => h0 ▸ ⟨List.nil_prefix, fun _ => rfl, by simp [State.start]⟩)
    (fun _ _ _ hs hstep => hs.step (system_move hstep))

/-- The events that move the messages on: all but the first are independent of the budget. -/
def advances (task : Task) : List Event :=
  [.acquire task, .enqueue .main, .enqueue .side, .refuse .main, .refuse .side, .receive, .write]

/-- Something moves on. -/
def State.Advances (s : State) (task : Task) : Prop :=
  ∃ e ∈ advances task, (s.perform e).isSome = true

/-- While there is a message with the writer or in the queue, the writer can go on. -/
theorem Ordered.advances (h : Ordered s) (task : Task) (hrest : s.writing.toList ++ s.queue ≠ []) :
    s.Advances task := by
  cases hwriting : s.writing with
  | some frame => exact ⟨.write, by simp [Bridge.advances], by simp [State.perform, hwriting]⟩
  | none =>
    cases hqueue : s.queue with
    | nil => simp [hwriting, hqueue] at hrest
    | cons frame rest =>
      have hrunning : s.writer = .running := by
        by_contra hstopped
        cases hqueue.symm.trans (h.stopped hstopped).2
      exact ⟨.receive, by simp [Bridge.advances],
        by simp [State.perform, hqueue, hrunning, hwriting]⟩

theorem Ordered.advances_of_queueing (h : Ordered s) (task holder : Task)
    (hholder : s.sender holder = some (.queueing frame)) : s.Advances task := by
  by_cases hrunning : s.writer = .running
  · by_cases hroom : s.queue.length < outputQueueItems
    · refine ⟨.enqueue holder, by cases holder <;> simp [Bridge.advances], ?_⟩
      simp [State.perform, hholder, hrunning, hroom]
    · refine h.advances task (fun hnil => hroom ?_)
      rw [(List.append_eq_nil_iff.1 hnil).2]
      decide
  · refine ⟨.refuse holder, by cases holder <;> simp [Bridge.advances], ?_⟩
    simp [State.perform, hholder, hrunning]

/-- A call that waits for permits gets them, or those that have them can go on. -/
theorem Sound.advances (h : Sound s) (hordered : Ordered s)
    (hsender : s.sender task = some (.acquiring frame)) : s.Advances task := by
  by_cases hfree : frame.payload.length ≤ s.free
  · exact ⟨.acquire task, by simp [Bridge.advances], by simp [State.perform, hsender, hfree]⟩
  -- a message is smaller than the budget, so something else holds permits
  have hheld : 0 < s.held := by
    have hbudget := h.budget
    have hshort := h.short task frame hsender
    simp only [outputBudgetBytes, maxMessageBytes] at hbudget hshort
    omega
  by_cases hrest : s.writing.toList ++ s.queue = []
  · obtain ⟨hwriting, hqueue⟩ := List.append_eq_nil_iff.1 hrest
    simp only [State.held, hwriting, hqueue, size_nil] at hheld
    cases hmain : s.main with
    | queueing message =>
      exact hordered.advances_of_queueing task .main (congrArg some hmain)
    | idle | acquiring =>
      simp only [hmain, Sending.held] at hheld
      cases hside : s.side with
      | none => simp [hside] at hheld
      | some sending =>
        cases sending with
        | queueing message =>
          exact hordered.advances_of_queueing task .side hside
        | idle | acquiring => simp [hside, Sending.held] at hheld
  · exact hordered.advances task hrest

/-- **What a bridge holds in memory is bounded, and moves.** The messages on their way to the MCP client
    are at most 64 in the queue and never more than 32 MiB together, whatever the server sends and however
    the tasks are aborted or fail; they are written whole and in the order in which they were accepted;
    and a task that waits to send is never stuck: it gets its permits, or those who hold them move on. -/
theorem bridge_output_keeps_to_its_budget (h : system.Reachable s) :
    s.free + s.held = outputBudgetBytes ∧ s.queue.length ≤ outputQueueItems ∧
      s.written <+: s.accepted ∧
      (s.writer = .running → s.accepted = s.written ++ (s.writing.toList ++ s.queue)) ∧
      ∀ task sending, s.sender task = some sending → sending ≠ .idle → s.Advances task := by
  have hsound := reachable_sound h
  have hordered := reachable_ordered h
  refine ⟨hsound.budget, hsound.room, hordered.written, hordered.running, ?_⟩
  intro task sending hsender hbusy
  cases sending with
  | idle => exact absurd rfl hbusy
  | acquiring frame => exact hsound.advances hordered hsender
  | queueing frame => exact hordered.advances_of_queueing task task hsender

/-- Two tasks wait to send. -/
theorem busy_bridge_keeps_to_its_budget :
    ∃ s, system.Reachable s ∧ s.Advances .main ∧ s.free + s.held = outputBudgetBytes := by
  obtain ⟨s, hreach, hcheck⟩ := exists_reachable (S := system) (fun _ _ e h => ⟨e, h⟩) rfl
    (show (runAll State.perform .start [.spawn, .push .main ⟨.data, [123, 125, 10]⟩, .acquire .main,
        .push .side ⟨.data, [91, 93, 10]⟩]).any
      (fun s => s.main = .queueing ⟨.data, [123, 125, 10]⟩) = true by decide +kernel)
  have hmain : s.sender .main = some (.queueing ⟨.data, [123, 125, 10]⟩) :=
    congrArg some (of_decide_eq_true hcheck)
  obtain ⟨hbudget, _, _, _, hadvances⟩ := bridge_output_keeps_to_its_budget hreach
  exact ⟨s, hreach, hadvances .main _ hmain (by simp), hbudget⟩

/-- An answer of the server is forwarded, the MCP client closes its side, and nothing fails. -/
def session : List Event :=
  [.push .main ⟨.data, [123, 125, 10]⟩, .spawn, .acquire .main, .enqueue .main, .receive, .write, .ends,
    .cancel]

end AgentScale.Edge.Bridge
