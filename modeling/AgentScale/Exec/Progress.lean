import AgentScale.Exec.Output

set_option autoImplicit false

/-! # A command does not hang

A byte of the child's output is read, framed, carried to the daemon, passed on, carried to the Client and
printed. It weighs the more the more of this is still to come; so every step that is not the child's takes
something from the weight of the pipeline, and a run of which the child writes little is short. A pipeline
in which nothing more can happen has a result, or waits for the child. -/

namespace AgentScale.Exec

open Bytes Transition Transport

variable {r : Request} {s t : Pipeline} {child : Child} {channel : Channel} {e : Event}

/-! ## Weights -/

/-- A byte weighs most before it arrives, and least when a `read_frame` has taken it. -/
def weightOf (w : Nat) (p : Pipe) : Nat :=
  (w + 2) * p.reader.coming.length + (w + 1) * p.reader.arrived.length + w * p.reader.taken.length +
    (!p.lost).toNat

section Pipes

variable (w : Nat) (p : Pipe)

@[simp]
theorem weightOf_close : weightOf w p.close = weightOf w p := rfl

theorem weightOf_lose (h : p.lost ≠ true) : weightOf w p.lose + 1 = weightOf w p := by
  simp [weightOf, Pipe.lose, h]

theorem weightOf_lose_le : weightOf w p.lose ≤ weightOf w p := by
  simp [weightOf, Pipe.lose]

theorem weightOf_put (bytes : List UInt8) (cut : Option Nat) :
    weightOf w (p.put bytes cut) ≤ weightOf w p + (w + 2) * bytes.length := by
  have hlen : (cut.elim bytes bytes.take).length ≤ bytes.length := by
    cases cut with
    | none => exact Nat.le_refl _
    | some n => exact List.length_take_le' n bytes
  have hmul := Nat.mul_le_mul_left (w + 2) hlen
  simp only [weightOf, Pipe.put, List.length_append, Nat.mul_add]
  omega

theorem weightOf_writeFrame (frame : Frame) (cut : Option Nat) :
    weightOf w (p.writeFrame frame cut).1 ≤ weightOf w p + (w + 2) * (encode frame).length := by
  by_cases hfits : frame.payload.length ≤ maxFrame
  · rw [Pipe.writeFrame_of_fits hfits]
    exact weightOf_put w p (encode frame) cut
  · rw [Pipe.writeFrame_of_large (Nat.lt_of_not_le hfits)]
    exact Nat.le_add_right _ _

theorem weightOf_writeBoth (first second : Frame) (cut₁ cut₂ : Option Nat) :
    weightOf w (p.writeBoth first second cut₁ cut₂) ≤
      weightOf w p + (w + 2) * ((encode first).length + (encode second).length) := by
  rw [Pipe.writeBoth, Nat.mul_add]
  split
  · have hfirst := weightOf_writeFrame w p first cut₁
    omega
  · have hfirst := weightOf_writeFrame w p first none
    have hsecond := weightOf_writeFrame w (p.writeFrame first none).1 second cut₂
    omega

theorem weightOf_arrive {n : Nat} (hn : 0 < n) (hcoming : p.reader.coming ≠ []) :
    weightOf w (p.arrive n) < weightOf w p := by
  have hpos := List.length_pos_iff.2 hcoming
  obtain ⟨k, hk⟩ : ∃ k, p.reader.coming.length = min n p.reader.coming.length + k :=
    Nat.exists_eq_add_of_le (Nat.min_le_right _ _)
  have hdrop : (p.reader.coming.drop n).length = k := by rw [List.length_drop]; omega
  simp only [weightOf, Pipe.arrive, Reader.arrive, List.length_append, List.length_take, hdrop]
  rw [hk]
  have hmin : 0 < min n (min n p.reader.coming.length + k) := by omega
  have hsame : min n (min n p.reader.coming.length + k) = min n p.reader.coming.length := by omega
  rw [hsame] at hmin ⊢
  simp only [Nat.mul_add, Nat.add_mul, Nat.one_mul]
  omega

/-- A poll takes at least as much weight as the frame it gives. -/
theorem weightOf_poll (wire : Wire) :
    weightOf w (p.poll wire).1 + w * Pipe.frameSize (p.poll wire).2 ≤ weightOf w p := by
  obtain ⟨hcoming, _, hlost, harrived, hbytes, _⟩ := p.poll_bytes wire
  have hmul := Nat.mul_le_mul_left w hbytes
  simp only [weightOf, hcoming, hlost]
  simp only [Nat.mul_add, Nat.add_mul, Nat.one_mul] at hmul ⊢
  omega

theorem weightOf_poll_pending {wire : Wire} (hpoll : (p.poll wire).2 = none)
    (harrived : p.reader.arrived ≠ []) : weightOf w (p.poll wire).1 < weightOf w p := by
  obtain ⟨hcoming, _, hlost, _, hbytes, hempty⟩ := p.poll_bytes wire
  have hpos := List.length_pos_iff.2 harrived
  have hmul := Nat.mul_le_mul_left w hbytes
  simp only [weightOf, hcoming, hlost]
  rw [hempty hpoll] at hmul ⊢
  simp only [Nat.mul_add, Nat.add_mul, Nat.one_mul, List.length_nil] at hmul ⊢
  omega

end Pipes

theorem length_encode (frame : Frame) : (encode frame).length = frame.payload.length + 5 := by
  simp [encode, toLeBytes]

theorem length_exitFrame (code : Int32) : (encode (exitFrame code)).length = 9 := by
  simp [length_encode, exitFrame, toLeBytes]

def RunExec.weight : RunExec → Nat
  | .idle => 400
  | .streaming stdoutDone stderrDone =>
    200 + (!stdoutDone).toNat + (!stderrDone).toNat
  | .waiting => 100
  | .returned | .crashed => 0

def RelayExec.weight : RelayExec → Nat
  | .connecting => 100
  | .relaying => 1
  | .unreachable | .returned => 0

/-- What the child has written and nobody has read. -/
def Child.backlog (child : Child) : Nat :=
  (child.output .stdout).unread.length + (child.output .stderr).unread.length

def Pipeline.weight (s : Pipeline) : Nat :=
  s.edge.weight + 43 * s.child.elim 0 Child.backlog + weightOf 5 s.up + s.relay.weight +
    weightOf 2 s.down + s.client.result.isNone.toNat

def Event.ofChild : Event → Bool
  | .childWrites _ _ | .childCloses _ | .childExits _ => true
  | _ => false

/-- What an event may add: what the child writes, and the texts of errors. -/
def Event.cost (r : Request) : Event → Nat
  | .childWrites _ bytes => 43 * bytes.length
  | .spawnFails error _ _ => 7 * (spawnFailed r error).payload.length
  | .unreachable error _ _ => 4 * (setupFailed r error).payload.length
  | _ => 0

theorem backlog_take (child : Child) (channel : Channel) (n : Nat) :
    (child.take channel ((child.output channel).unread.take n).length).backlog +
      ((child.output channel).unread.take n).length = child.backlog := by
  have hle := List.length_take_le' n (child.output channel).unread
  cases channel <;> simp [Child.backlog, Child.take] at hle ⊢ <;> omega

theorem backlog_write (child : Child) (channel : Channel) (bytes : List UInt8) :
    (child.write channel bytes).backlog = child.backlog + bytes.length := by
  cases channel <;> simp [Child.backlog, Child.write] <;> omega

theorem backlog_close (child : Child) (channel : Channel) :
    (child.close channel).backlog = child.backlog := by
  cases channel <;> simp [Child.backlog, Child.close]

variable {edge : RunExec}

theorem RunExec.weight_of_reads (h : edge.reads channel = true) :
    200 < edge.weight ∧ (edge.ended channel).weight < edge.weight := by
  cases edge with
  | streaming stdoutDone stderrDone =>
    cases channel
    all_goals
      simp [RunExec.reads] at h
      subst h
      simp [RunExec.weight, RunExec.ended] <;> omega
  | idle | waiting | returned | crashed => cases channel <;> simp [RunExec.reads] at h

theorem RunExec.weight_pos (h : ¬ (edge = .returned ∨ edge = .crashed)) :
    0 < edge.weight := by
  cases edge with
  | returned | crashed => simp at h
  | idle | streaming | waiting => simp only [RunExec.weight]; omega

namespace Pipeline

theorem weight_terminate (h : 0 < s.edge.weight) : s.terminate.weight < s.weight := by
  have hchild : (s.child.map Child.terminate).elim 0 Child.backlog = s.child.elim 0 Child.backlog := by
    cases s.child <;> rfl
  have hreturned : RunExec.returned.weight = 0 := rfl
  simp only [weight, terminate, hchild, weightOf_close, hreturned]
  omega

theorem weight_hangUp (h : 0 < s.relay.weight) : s.hangUp.weight < s.weight := by
  have hreturned : RelayExec.returned.weight = 0 := rfl
  simp only [weight, hangUp, weightOf_close, hreturned]
  omega

/-- The Edge and its stream change, and nothing else. -/
theorem weight_edge {spawned : Option Child} {up : Pipe}
    (h : edge.weight + 43 * spawned.elim 0 Child.backlog + weightOf 5 up < s.edge.weight + 43 * s.child.elim 0 Child.backlog + weightOf 5 s.up) :
    { s with edge := edge, child := spawned, up := up }.weight < s.weight := by
  simp only [weight]
  omega

/-- The arm of an output: a byte that is read makes at most six bytes of a frame. -/
theorem weight_forward (hchild : s.child = some child) (hreads : s.edge.reads channel = true) (n : Nat)
    (hsome : (child.output channel).unread.take n ≠ []) (cut : Option Nat) :
    (s.forward child channel ((child.output channel).unread.take n) cut).weight < s.weight := by
  have hpos := List.length_pos_iff.2 hsome
  have hwrite := weightOf_writeFrame 5 s.up ⟨channel.tag, (child.output channel).unread.take n⟩ cut
  have htake := backlog_take child channel n
  simp only [length_encode] at hwrite
  have hnext : { s with
      child := some (child.take channel ((child.output channel).unread.take n).length)
      up := (s.up.writeFrame ⟨channel.tag, (child.output channel).unread.take n⟩ cut).1 }.weight <
      s.weight := by
    refine weight_edge ?_
    simp only [hchild, Option.elim_some]
    omega
  unfold forward
  simp only
  split
  · exact hnext
  · refine (weight_terminate ?_).trans hnext
    exact Nat.lt_of_le_of_lt (Nat.zero_le _) (RunExec.weight_of_reads hreads).1

/-- The arm of `read_frame`: what the daemon writes it has read. -/
theorem weight_relayed {up : Pipe} {answer : Except String (Option Frame)} (cut : Option Nat)
    (hrelay : s.relay = .relaying)
    (hup : weightOf 5 up + 5 * Pipe.frameSize (some answer) ≤ weightOf 5 s.up) :
    ({ s with up := up }.relayed cut answer).weight < s.weight := by
  have hhangUp : ∀ down, weightOf 2 down + weightOf 5 up ≤ weightOf 2 s.down + weightOf 5 s.up →
      { s with up := up, down := down }.hangUp.weight < s.weight := by
    intro down hdown
    have hreturned : RelayExec.returned.weight = 0 := rfl
    have hrelaying : RelayExec.relaying.weight = 1 := rfl
    simp only [weight, hangUp, weightOf_close, hreturned, hrelay, hrelaying]
    omega
  cases answer with
  | error error => exact hhangUp s.down (by omega)
  | ok frame =>
    cases frame with
    | none => exact hhangUp s.down (by omega)
    | some frame =>
      have hwrite := weightOf_writeFrame 2 s.down frame cut
      have hsize : 0 < (encode frame).length := by simp [length_encode]
      simp only [Pipe.frameSize] at hup
      simp only [relayed]
      split
      · simp only [weight]
        omega
      · exact hhangUp _ (by omega)

/-- The daemon and its stream change, and nothing else. -/
theorem weight_relay {relay : RelayExec} {down : Pipe} {n : Nat}
    (h : relay.weight + weightOf 2 down < s.relay.weight + weightOf 2 s.down + n) :
    { s with relay := relay, down := down }.weight < s.weight + n := by
  simp only [weight]
  omega

/-- The child changes, and nothing else. -/
theorem weight_child {child' : Child} {n : Nat} (hchild : s.child = some child)
    (h : child'.backlog = child.backlog + n) :
    { s with child := some child' }.weight = s.weight + 43 * n := by
  simp only [weight, hchild, Option.elim_some, h]
  omega

theorem weight_client (answer : Except String (Option Frame)) (hclient : s.client.result = none)
    {down : Pipe} (hdown : weightOf 2 down + 2 * Pipe.frameSize (some answer) ≤ weightOf 2 s.down) :
    { s with down := down, client := s.client.handle answer }.weight < s.weight := by
  have hle : (s.client.handle answer).result.isNone.toNat ≤ 1 := Bool.toNat_le _
  simp only [weight, hclient, Option.isNone_none, Bool.toNat_true]
  cases answer with
  | error error => simp [ClientExec.handle]; omega
  | ok frame =>
    cases frame with
    | none => simp [ClientExec.handle]; omega
    | some frame =>
      have hsize : 0 < (encode frame).length := by simp [length_encode]
      simp only [Pipe.frameSize] at hdown
      omega

/-- Every step that is not the child's takes something from the weight. -/
theorem weight_step (h : s.Step r e t) :
    t.weight + (if !e.ofChild then 1 else 0) ≤ s.weight + e.cost r := by
  cases h with
  | reach hrelay =>
    refine weight_relay (n := 0) ?_
    rw [hrelay]
    exact Nat.add_lt_add_right (by decide) _
  | unreachable error cut₁ cut₂ hrelay =>
    have hwrite := weightOf_writeBoth 2 s.down (setupFailed r error) (exitFrame 1) cut₁ cut₂
    rw [length_exitFrame, length_encode] at hwrite
    refine weight_relay ?_
    simp only [hrelay, RelayExec.weight, weightOf_close, Event.cost]
    omega
  | spawn hedge hsent =>
    refine weight_edge ?_
    simp only [hedge, RunExec.weight, Option.elim_some, Child.backlog, Child.spawned,
      List.length_nil, Bool.not_false, Bool.toNat_true]
    omega
  | spawnFails error cut₁ cut₂ hedge hsent =>
    have hwrite := weightOf_writeBoth 5 s.up (spawnFailed r error) (exitFrame (-1)) cut₁ cut₂
    rw [length_exitFrame, length_encode] at hwrite
    simp only [weight, hedge, RunExec.weight, weightOf_close, Event.cost, Event.ofChild,
      Bool.not_false, if_true]
    omega
  | output child channel count cut hchild hreads hsome =>
    exact weight_forward hchild hreads _ hsome cut
  | outputEnds child channel hchild hreads hempty hclosed =>
    refine weight_edge ?_
    have hended := (RunExec.weight_of_reads hreads).2
    omega
  | cancelled hreads =>
    refine weight_terminate ?_
    rcases hreads with hreads | hreads
    · exact (Nat.zero_le _).trans_lt (RunExec.weight_of_reads hreads).1
    · exact (Nat.zero_le _).trans_lt (RunExec.weight_of_reads hreads).1
  | drained hedge =>
    refine weight_edge ?_
    simp only [hedge, RunExec.weight]
    omega
  | waited child status cut hchild hstatus hedge =>
    have hwrite := weightOf_writeFrame 5 s.up (exitFrame (status.getD (-1))) cut
    rw [length_exitFrame] at hwrite
    refine weight_edge ?_
    simp only [hedge, RunExec.weight, weightOf_close]
    omega
  | upArrives n hpos hcoming =>
    refine weight_edge ?_
    have harrive := weightOf_arrive 5 s.up hpos hcoming
    omega
  | relayPending cut hrelay hpoll harrived =>
    refine weight_edge ?_
    have htaken := weightOf_poll_pending 5 s.up hpoll harrived
    omega
  | relay cut answer hrelay hpoll =>
    refine weight_relayed cut hrelay ?_
    rw [← hpoll]
    exact weightOf_poll 5 s.up .iroh
  | clientLeft hrelay => exact weight_hangUp (by rw [hrelay]; decide)
  | downArrives n hpos hcoming =>
    refine weight_relay (n := 0) ?_
    have harrive := weightOf_arrive 2 s.down hpos hcoming
    omega
  | clientPending hclient hpoll harrived =>
    refine weight_relay (n := 0) ?_
    have htaken := weightOf_poll_pending 2 s.down hpoll harrived
    omega
  | client answer hclient hpoll =>
    refine weight_client answer hclient ?_
    rw [← hpoll]
    exact weightOf_poll 2 s.down .io
  | dropped hedge hsent =>
    refine weight_edge ?_
    simp only [hedge, RunExec.weight, weightOf_close]
    omega
  | outputFails channel hreads =>
    exact weight_terminate ((Nat.zero_le _).trans_lt (RunExec.weight_of_reads hreads).1)
  | waitFails hedge => exact weight_terminate (by rw [hedge]; decide)
  | edgeDies hedge =>
    refine weight_edge ?_
    have hpos := RunExec.weight_pos hedge
    have hlose := weightOf_lose_le 5 s.up
    have hcrashed : RunExec.crashed.weight = 0 := rfl
    omega
  | upLost hlost =>
    refine weight_edge ?_
    have hlose := weightOf_lose 5 s.up hlost
    omega
  | relayDies hrelay =>
    refine weight_hangUp ?_
    rcases hrelay with hrelay | hrelay <;> rw [hrelay] <;> decide
  | downLost hlost =>
    refine weight_relay (n := 0) ?_
    have hlose := weightOf_lose 2 s.down hlost
    omega
  | clientDies hclient =>
    simp [weight, hclient, Event.ofChild, Event.cost]
  | childWrites child channel bytes hchild =>
    exact (weight_child hchild (backlog_write child channel bytes)).le
  | childCloses child channel hchild =>
    exact (weight_child (n := 0) hchild (backlog_close child channel)).le
  | childExits child code hchild => exact (weight_child (n := 0) hchild rfl).le

end Pipeline

/-- **A command ends unless its child goes on.** However the steps of the processes and of the streams
    interleave and whatever fails, a run has at most 503 steps that are not the child's, and 43 for each
    byte that the child writes and a few for each byte of an error that is reported. -/
theorem exec_runs_are_bounded {events : List Event}
    (h : runAll (Pipeline.perform r) .start events = some s) :
    events.countP (fun e => !e.ofChild) ≤ 503 + (events.map (Event.cost r)).sum := by
  have hcount : s.weight + events.countP (fun e => !e.ofChild) ≤
      Pipeline.start.weight + (events.map (Event.cost r)).sum :=
    count_of_runAll (I := fun _ => True)
      (fun a b e _ hperform => ⟨trivial, Pipeline.weight_step (.of_perform (r := r) hperform)⟩) trivial h
  have hstart : Pipeline.start.weight = 503 := rfl
  omega

/-- The run of a command that writes two bytes. -/
theorem sampleRun_is_bounded : ∃ s, runAll (Pipeline.perform sampleRequest) .start sampleRun = some s ∧
    sampleRun.countP (fun e => !e.ofChild) ≤
      503 + (sampleRun.map (Event.cost sampleRequest)).sum := by
  obtain ⟨s, hrun, _⟩ := exists_sample
  exact ⟨s, hrun, exec_runs_are_bounded hrun⟩

/-! ## When nothing more can happen -/

/-- What is left behind by processes that have returned. -/
structure Pipeline.Left (s : Pipeline) : Prop where
  relay : s.relay = .returned ∨ s.relay = .unreachable → s.down.reader.closes = true
  returned : s.edge = .returned → s.up.reader.closes = true ∧
    ∀ child, s.child = some child → child.status.isSome = true
  crashed : s.edge = .crashed → s.up.lost = true
  spawned : s.edge = .idle → s.child = none

theorem RunExec.not_over_of_reads (h : edge.reads channel = true) :
    edge ≠ .idle ∧ edge ≠ .returned ∧ edge ≠ .crashed := by
  cases edge with
  | streaming => simp
  | idle | waiting | returned | crashed => cases channel <;> cases h

theorem RunExec.ended_of_reads (h : edge.reads channel = true) :
    ∃ stdoutDone stderrDone, edge.ended channel = .streaming stdoutDone stderrDone := by
  cases edge with
  | streaming stdoutDone stderrDone => cases channel <;> exact ⟨_, _, rfl⟩
  | idle | waiting | returned | crashed => cases channel <;> cases h

namespace Pipeline.Left

theorem start : Pipeline.start.Left where
  relay := by rintro (h | h) <;> cases h
  returned := by rintro ⟨⟩
  crashed := by rintro ⟨⟩
  spawned _ := rfl

theorem terminate (h : s.Left) : s.terminate.Left where
  relay := h.relay
  returned _ := by
    refine ⟨rfl, ?_⟩
    intro child hchild
    obtain ⟨before, _, rfl⟩ := Option.map_eq_some_iff.1 hchild
    rfl
  crashed := by rintro ⟨⟩
  spawned := by rintro ⟨⟩

theorem hangUp (h : s.Left) : s.hangUp.Left := { h with relay := fun _ => rfl }

/-- The child changes by itself. -/
theorem childMoves (h : s.Left) (hchild : s.child = some child) {child' : Child}
    (hstatus : child.status.isSome = true → child'.status.isSome = true) :
    { s with child := some child' }.Left where
  __ := h
  returned hedge := by
    refine ⟨(h.returned hedge).1, ?_⟩
    rintro _ ⟨⟩
    exact hstatus ((h.returned hedge).2 child hchild)
  spawned hedge := by cases hchild.symm.trans (h.spawned hedge)

theorem forward (h : s.Left) (hreads : s.edge.reads channel = true) (bytes : List UInt8)
    (cut : Option Nat) : (s.forward child channel bytes cut).Left := by
  obtain ⟨hidle, hreturned, hcrashed⟩ := RunExec.not_over_of_reads hreads
  have hnext : { s with
      child := some (child.take channel bytes.length)
      up := (s.up.writeFrame ⟨channel.tag, bytes⟩ cut).1 }.Left :=
    { relay := h.relay
      returned := fun hedge => absurd hedge hreturned
      crashed := fun hedge => absurd hedge hcrashed
      spawned := fun hedge => absurd hedge hidle }
  unfold Pipeline.forward
  simp only
  split
  · exact hnext
  · exact hnext.terminate

/-- The Edge's stream moves, without being opened again. -/
theorem upMoves (h : s.Left) {up : Pipe} (hcloses : s.up.reader.closes = true → up.reader.closes = true)
    (hlost : s.up.lost = true → up.lost = true) : { s with up := up }.Left :=
  { h with
    returned := fun hedge => ⟨hcloses (h.returned hedge).1, (h.returned hedge).2⟩
    crashed := fun hedge => hlost (h.crashed hedge) }

theorem relayed (h : s.Left) (hrelay : s.relay = .relaying) (cut : Option Nat)
    (answer : Except String (Option Frame)) : (s.relayed cut answer).Left := by
  have hnext : ∀ down, { s with down := down }.Left := by
    intro down
    refine { h with relay := ?_ }
    rintro (hover | hover) <;> cases hrelay.symm.trans hover
  cases answer with
  | error error => exact h.hangUp
  | ok frame =>
    cases frame with
    | none => exact h.hangUp
    | some frame =>
      simp only [Pipeline.relayed]
      split
      · exact hnext _
      · exact (hnext _).hangUp

theorem step (h : s.Left) (hstep : s.Step r e t) : t.Left := by
  cases hstep with
  | reach hrelay => exact { h with relay := by rintro (hover | hover) <;> cases hover }
  | unreachable error cut₁ cut₂ hrelay => exact { h with relay := fun _ => rfl }
  | spawn hedge hsent =>
    exact { relay := h.relay, returned := by rintro ⟨⟩, crashed := by rintro ⟨⟩,
            spawned := by rintro ⟨⟩ }
  | spawnFails error cut₁ cut₂ hedge hsent | dropped hedge hsent =>
    have hnone := h.spawned hedge
    exact { relay := h.relay, returned := fun _ => ⟨rfl, by simp [hnone]⟩, crashed := by rintro ⟨⟩,
            spawned := by rintro ⟨⟩ }
  | output child channel count cut hchild hreads hsome => exact h.forward hreads _ cut
  | outputEnds child channel hchild hreads hempty hclosed =>
    obtain ⟨a, b, hended⟩ := RunExec.ended_of_reads hreads
    rw [hended]
    exact { relay := h.relay, returned := by rintro ⟨⟩, crashed := by rintro ⟨⟩,
            spawned := by rintro ⟨⟩ }
  | cancelled | outputFails | waitFails => exact h.terminate
  | drained hedge =>
    exact { relay := h.relay, returned := by rintro ⟨⟩, crashed := by rintro ⟨⟩,
            spawned := by rintro ⟨⟩ }
  | waited child status cut hchild hstatus hedge =>
    refine { relay := h.relay, returned := fun _ => ⟨rfl, ?_⟩, crashed := by rintro ⟨⟩,
             spawned := by rintro ⟨⟩ }
    intro other hother
    cases hchild.symm.trans hother
    rw [hstatus]
    rfl
  | upArrives n => exact h.upMoves id id
  | relayPending cut hrelay hpoll =>
    obtain ⟨_, hcloses, hlost, _⟩ := s.up.poll_bytes .iroh
    exact h.upMoves (hcloses.trans ·) (hlost.trans ·)
  | relay cut answer hrelay hpoll =>
    obtain ⟨_, hcloses, hlost, _⟩ := s.up.poll_bytes .iroh
    exact (h.upMoves (hcloses.trans ·) (hlost.trans ·)).relayed hrelay cut answer
  | clientLeft | relayDies => exact h.hangUp
  | downArrives n | downLost => exact { h with }
  | clientPending hclient hpoll | client answer hclient hpoll =>
    obtain ⟨_, hcloses, _⟩ := s.down.poll_bytes .io
    exact { h with relay := fun hover => hcloses.trans (h.relay hover) }
  | edgeDies hedge =>
    exact { relay := h.relay, returned := by rintro ⟨⟩, crashed := fun _ => rfl,
            spawned := by rintro ⟨⟩ }
  | upLost => exact h.upMoves id (fun _ => rfl)
  | clientDies => exact { h with }
  | childWrites child channel bytes hchild | childCloses child channel hchild =>
    exact h.childMoves hchild id
  | childExits child code hchild => exact h.childMoves hchild (fun _ => rfl)

end Pipeline.Left

theorem left_of_reachable (h : (pipeline r).Reachable s) : s.Left := by
  refine h.invariant (P := Pipeline.Left) ?_ ?_
  · rintro _ rfl
    exact .start
  · rintro s t _ hleft ⟨e, hperform⟩
    exact hleft.step (.of_perform hperform)

/-- An event that is neither a failure nor the child's. -/
def Event.internal : Event → Bool
  | .reach | .spawn | .outputEnds _ | .cancelled | .drained | .upArrives _ | .clientLeft |
    .downArrives _ | .client | .output _ _ none | .waited none | .relay none => true
  | _ => false

/-- Nothing more happens unless the child does something or something fails. -/
def Pipeline.Quiet (r : Request) (s : Pipeline) : Prop :=
  ∀ e : Event, e.internal = true → s.perform r e = none

/-- The Edge is in a `read` of an output that is open and empty, or in `wait` for a child that has not
    exited. -/
def Pipeline.WaitsForChild (s : Pipeline) : Prop :=
  ∃ child, s.child = some child ∧
    ((∃ channel, s.edge.reads channel = true ∧ (child.output channel).unread = [] ∧
      (child.output channel).closed = false) ∨ s.edge = .waiting ∧ child.status = none)

/-- A reader that waits, with nothing on the way, waits for a writer. -/
theorem open_of_waiting {p : Pipe} {wire : Wire} (hcoming : p.reader.coming = [])
    (harrived : p.reader.arrived = []) (hpoll : (p.poll wire).2 = none) :
    p.lost = false ∧ p.reader.closes = false := by
  unfold Pipe.poll at hpoll
  split at hpoll
  · cases hpoll
  · next hlost =>
    refine ⟨by simpa using hlost, ?_⟩
    by_contra hcloses
    have hend : p.reader.closes = true ∧ p.reader.coming = [] := ⟨by simpa using hcloses, hcoming⟩
    simp [Reader.poll, harrived, Framing.poll, hend] at hpoll

namespace Pipeline.Quiet

theorem not_connecting (h : s.Quiet r) : s.relay ≠ .connecting := by
  simpa [Pipeline.perform] using h .reach rfl

/-- A daemon that relays waits for the Edge. -/
theorem up (h : s.Quiet r) (hrelay : s.relay = .relaying) :
    s.up.lost = false ∧ s.up.reader.closes = false := by
  have hcoming : s.up.reader.coming = [] := by
    simpa [Pipeline.perform] using h (.upArrives 1) rfl
  have hpoll := h (.relay none) rfl
  simp only [Pipeline.perform, hrelay, if_true] at hpoll
  split at hpoll
  · next hnone => exact open_of_waiting hcoming (by simpa using hpoll) hnone
  · cases hpoll

/-- A Client without a result waits for the daemon. -/
theorem down (h : s.Quiet r) (hclient : s.client.result = none) :
    s.down.lost = false ∧ s.down.reader.closes = false := by
  have hcoming : s.down.reader.coming = [] := by
    simpa [Pipeline.perform] using h (.downArrives 1) rfl
  have hpoll := h .client rfl
  simp only [Pipeline.perform, hclient, Option.isNone_none, if_true] at hpoll
  split at hpoll
  · next hnone => exact open_of_waiting hcoming (by simpa using hpoll) hnone
  · cases hpoll

/-- The loop of `run_exec` waits for an output. -/
theorem reading (h : s.Quiet r) (hchild : s.child = some child)
    (hreads : s.edge.reads channel = true) :
    (child.output channel).unread = [] ∧ (child.output channel).closed = false := by
  have hempty : (child.output channel).unread = [] := by
    have hread := h (.output channel 1 none) rfl
    simpa [Pipeline.perform, hchild, hreads, chunk] using hread
  have hend := h (.outputEnds channel) rfl
  exact ⟨hempty, by simpa [Pipeline.perform, hchild, hreads, hempty] using hend⟩

/-- The loop is not at its end. -/
theorem streaming (h : s.Quiet r) {stdoutDone stderrDone : Bool}
    (hedge : s.edge = .streaming stdoutDone stderrDone) :
    s.edge.reads .stdout = true ∨ s.edge.reads .stderr = true := by
  have hdrained : s.edge ≠ .streaming true true := by
    simpa [Pipeline.perform] using h .drained rfl
  rw [hedge] at hdrained ⊢
  cases stdoutDone <;> cases stderrDone <;> simp_all [RunExec.reads]

theorem waiting (h : s.Quiet r) (hchild : s.child = some child) (hedge : s.edge = .waiting) :
    child.status = none := by
  have hwaited := h (.waited none) rfl
  refine Option.eq_none_iff_forall_ne_some.2 ?_
  simpa [Pipeline.perform, hchild, hedge] using hwaited

theorem not_idle (h : s.Quiet r) (hsent : s.relay.Sent) : s.edge ≠ .idle := by
  intro hedge
  have hspawn := h .spawn rfl
  rw [Pipeline.perform, if_pos ⟨hedge, hsent⟩] at hspawn
  cases hspawn

end Pipeline.Quiet

/-- A child in the loop or in `wait`. -/
theorem Produced.exists_child {spawned : Option Child} {sent : List Frame}
    (h : Produced r edge spawned sent) (hidle : edge ≠ .idle)
    (hover : edge ≠ .returned ∧ edge ≠ .crashed) : ∃ child, spawned = some child := by
  cases h with
  | idle => exact absurd rfl hidle
  | streaming child | waiting child | stopped _ child | finished _ child => exact ⟨child, rfl⟩
  | refused _ _ _ hstage => rcases hstage with rfl | rfl <;> simp at hover

/-- **A command waits for nothing but its child.** When no process of the pipeline can do anything more,
    the Client has its result, or the Edge waits for an open output of the child or for its exit. Once the
    Client has its result or is gone, the child has exited or been killed, unless the Edge has died or the
    child has closed both of its outputs. -/
theorem exec_waits_only_for_the_child (hr : (pipeline r).Reachable s) (hq : s.Quiet r) :
    (s.client.result.isSome = true ∨ s.WaitsForChild) ∧
    (s.client.result.isSome = true → ∀ child, s.child = some child →
      child.status.isSome = true ∨ s.edge = .crashed ∨
        s.edge = .waiting ∧ ∀ channel, (child.output channel).closed = true) := by
  obtain ⟨sent, relayed, handed, handled, hsound⟩ := sound_of_reachable hr
  have hleft := left_of_reachable hr
  constructor
  · cases hclient : s.client.result with
    | some result => exact .inl rfl
    | none =>
      obtain ⟨_, hdown⟩ := hq.down hclient
      -- the daemon has not hung up, so the Edge has not either
      have hrelay : s.relay = .relaying := by
        cases hrelay : s.relay with
        | relaying => rfl
        | connecting => exact absurd hrelay hq.not_connecting
        | returned => simp [hleft.relay (.inl hrelay)] at hdown
        | unreachable => simp [hleft.relay (.inr hrelay)] at hdown
      obtain ⟨hlost, hopen⟩ := hq.up hrelay
      have hidle := hq.not_idle (.inl hrelay)
      have hreturned : s.edge ≠ .returned := by
        intro hedge
        simp [(hleft.returned hedge).1] at hopen
      have hcrashed : s.edge ≠ .crashed := by
        intro hedge
        simp [hleft.crashed hedge] at hlost
      obtain ⟨child, hchild⟩ := hsound.produced.exists_child hidle ⟨hreturned, hcrashed⟩
      refine .inr ⟨child, hchild, ?_⟩
      cases hedge : s.edge with
      | idle => exact absurd hedge hidle
      | returned => exact absurd hedge hreturned
      | crashed => exact absurd hedge hcrashed
      | waiting => exact .inr ⟨rfl, hq.waiting hchild hedge⟩
      | streaming stdoutDone stderrDone =>
        rw [← hedge]
        rcases hq.streaming hedge with hreads | hreads
        · exact .inl ⟨_, hreads, hq.reading hchild hreads⟩
        · exact .inl ⟨_, hreads, hq.reading hchild hreads⟩
  · intro hclient child hchild
    have hsent : s.relay.Sent := by
      by_contra hunsent
      cases hchild.symm.trans (hsound.unsent hunsent)
    -- a daemon that relays would notice that the Client has gone
    have hrelay : s.relay = .returned := by
      rcases hsent with hrelay | hrelay
      · have hnotice := hq .clientLeft rfl
        simp [Pipeline.perform, hrelay, hclient] at hnotice
      · exact hrelay
    cases hedge : s.edge with
    | idle => cases hchild.symm.trans (hleft.spawned hedge)
    | returned => exact .inl ((hleft.returned hedge).2 child hchild)
    | crashed => exact .inr (.inl rfl)
    | waiting =>
      refine .inr (.inr ⟨rfl, ?_⟩)
      have hproduced := hsound.produced
      rw [hedge, hchild] at hproduced
      cases hproduced with
      | waiting _ _ _ hended => exact fun channel => (hended channel).1
      | stopped _ _ _ hstage | finished _ _ _ _ hstage => simp at hstage
    | streaming stdoutDone stderrDone =>
      have hcancel := hq .cancelled rfl
      rw [Pipeline.perform, if_pos ⟨hq.streaming hedge, .inl hrelay⟩] at hcancel
      cases hcancel

theorem quiet_of_over (hedge : s.edge = .returned) (hrelay : s.relay = .returned)
    (hclient : s.client.result.isSome = true) (hup : s.up.reader.coming = [])
    (hdown : s.down.reader.coming = []) : s.Quiet r := by
  intro e he
  obtain ⟨result, hresult⟩ := Option.isSome_iff_exists.1 hclient
  cases e <;> simp_all [Pipeline.perform, Event.internal, RunExec.reads]

/-- The end of the command: it has exited, and nothing more happens. -/
theorem sampleRun_waits_for_nothing : ∃ s child, (pipeline sampleRequest).Reachable s ∧
    s.Quiet sampleRequest ∧ s.child = some child ∧ s.client.result.isSome = true ∧
    (child.status.isSome = true ∨ s.edge = .crashed ∨
      s.edge = .waiting ∧ ∀ channel, (child.output channel).closed = true) := by
  obtain ⟨s, hrun, hr, child, hchild, hsample⟩ := exists_sample
  have hclient : s.client.result.isSome = true := by simp [hsample.result]
  have hquiet : s.Quiet sampleRequest :=
    quiet_of_over hsample.edge hsample.relay hclient hsample.up hsample.down
  exact ⟨s, child, hr, hquiet, hchild, hclient,
    (exec_waits_only_for_the_child hr hquiet).2 hclient child hchild⟩

end AgentScale.Exec
