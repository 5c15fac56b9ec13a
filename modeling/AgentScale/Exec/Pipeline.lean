import AgentScale.Library.Bytes
import AgentScale.Library.Transition
import AgentScale.Transport.Pipe

set_option autoImplicit false

/-! # Running a command on an Edge

`agent-scale exec` from end to end. The child writes to two pipes; the Edge's `run_exec` makes frames of
what it reads there and adds the exit code; the daemon's `relay_exec` forwards the frames; the Client's
`exec` prints them. All of them, and the bytes on the two streams between them, move in any order. A
write can fail at any time, a connection can be lost and a process can die. -/

namespace AgentScale.Exec

open Bytes Transition Transport

/-- What the texts of the errors name. -/
structure Request where
  edge : String
  command : String

/-! ## The child -/

inductive Channel where
  | stdout
  | stderr
deriving DecidableEq

def Channel.tag : Channel → FrameTag
  | .stdout => .stdout
  | .stderr => .stderr

/-- One output of the child. -/
structure Output where
  /-- All that has been written to it. -/
  written : List UInt8
  /-- What is in the pipe. -/
  unread : List UInt8
  /-- No process has the writing end open. -/
  closed : Bool

structure Child where
  output : Channel → Output
  /-- The exit status, without a code after a signal. -/
  status : Option (Option Int32)
  killed : Bool

def Child.spawned : Child := ⟨fun _ => ⟨[], [], false⟩, none, false⟩

def Child.setOutput (child : Child) (channel : Channel) (output : Output) : Child :=
  { child with output := Function.update child.output channel output }

/-- Bytes have been read from an output. -/
def Child.take (child : Child) (channel : Channel) (n : Nat) : Child :=
  let output := child.output channel
  child.setOutput channel { output with unread := output.unread.drop n }

/-- Bytes are written to an output, by the child or by a process that has inherited it. -/
def Child.write (child : Child) (channel : Channel) (bytes : List UInt8) : Child :=
  let output := child.output channel
  child.setOutput channel
    { output with written := output.written ++ bytes, unread := output.unread ++ bytes }

def Child.close (child : Child) (channel : Channel) : Child :=
  child.setOutput channel { child.output channel with closed := true }

def Child.terminate (child : Child) : Child :=
  { child with killed := true, status := some (child.status.getD none) }

/-! ## Exit codes -/

def exitFrame (code : Int32) : Frame := ⟨.exit, toLeBytes code.toUInt32.toNat⟩

/-- `i32::from_le_bytes`, of four bytes. -/
def decodeExit : List UInt8 → Except String Int32
  | [a, b, c, d] => .ok (UInt32.ofNat (fromLeBytes a b c d)).toInt32
  | _ => .error "malformed EXIT frame: expected four bytes"

/-! ## The processes -/

inductive RunExec where
  /-- START has not been handled. -/
  | idle
  | streaming (stdoutDone stderrDone : Bool)
  /-- In `child.wait()`. -/
  | waiting
  | returned
  /-- The Edge has died. -/
  | crashed
deriving DecidableEq

/-- The branch of an output is enabled. -/
def RunExec.reads : RunExec → Channel → Bool
  | .streaming stdoutDone _, .stdout => !stdoutDone
  | .streaming _ stderrDone, .stderr => !stderrDone
  | _, _ => false

/-- `stdout_done = true` or `stderr_done = true`. -/
def RunExec.ended : RunExec → Channel → RunExec
  | .streaming _ stderrDone, .stdout => .streaming true stderrDone
  | .streaming stdoutDone _, .stderr => .streaming stdoutDone true
  | stage, _ => stage

inductive RelayExec where
  /-- In `setup`. -/
  | connecting
  /-- `setup` has failed, and the Client has been told so. -/
  | unreachable
  | relaying
  | returned
deriving DecidableEq

structure ClientExec where
  printed : Channel → List UInt8
  result : Option (Except String Int32)

def ClientExec.print (c : ClientExec) (channel : Channel) (bytes : List UInt8) : ClientExec :=
  { c with printed := Function.update c.printed channel (c.printed channel ++ bytes) }

/-- An iteration of the loop of `exec`. -/
def ClientExec.handle (c : ClientExec) : Except String (Option Frame) → ClientExec
  | .ok (some ⟨.stdout, payload⟩) => c.print .stdout payload
  | .ok (some ⟨.stderr, payload⟩) => c.print .stderr payload
  | .ok (some ⟨.exit, payload⟩) => { c with result := some (decodeExit payload) }
  | .ok (some frame) =>
    { c with result := some (.error ("unexpected exec frame tag " ++ frame.tag.display)) }
  | .ok none =>
    { c with result := some (.error
        "edge closed the request without an exit status (authorization may have changed)") }
  | .error error => { c with result := some (.error error) }

structure Pipeline where
  child : Option Child
  edge : RunExec
  /-- From the Edge to the daemon. -/
  up : Pipe
  relay : RelayExec
  /-- From the daemon to the Client. -/
  down : Pipe
  client : ClientExec

/-- The Client has sent its request to the daemon. -/
def Pipeline.start : Pipeline := ⟨none, .idle, .opened, .connecting, .opened, ⟨fun _ => [], none⟩⟩

/-! ## Steps -/

def chunk : Nat := 16 * 1024

inductive Event where
  /-- `setup` succeeds. -/
  | reach
  | unreachable (error : String) (cut₁ cut₂ : Option Nat)
  | spawn
  | spawnFails (error : String) (cut₁ cut₂ : Option Nat)
  /-- `read` of an output returns some bytes. -/
  | output (channel : Channel) (count : Nat) (cut : Option Nat)
  /-- `read` of an output returns `Ok(0)`. -/
  | outputEnds (channel : Channel)
  /-- `recv.read_chunk` returns. -/
  | cancelled
  /-- The `else` branch. -/
  | drained
  /-- `child.wait()` returns. -/
  | waited (cut : Option Nat)
  | upArrives (n : Nat)
  /-- The daemon polls `read_frame`. -/
  | relay (cut : Option Nat)
  /-- `cr.read` returns `Ok(0)` or an error. -/
  | clientLeft
  | downArrives (n : Nat)
  /-- The Client polls `read_frame`. -/
  | client
  /-- The request does not get to `run_exec`: the session has been closed, or START is lost. -/
  | dropped
  | outputFails (channel : Channel)
  | waitFails
  | edgeDies
  | upLost
  | relayDies
  | downLost
  /-- The Client is killed, or cannot print. -/
  | clientDies
  | childWrites (channel : Channel) (bytes : List UInt8)
  | childCloses (channel : Channel)
  | childExits (code : Option Int32)

variable (r : Request)

def spawnFailed (error : String) : Frame :=
  ⟨.stderr, utf8 ("failed to spawn `" ++ r.command ++ "`: " ++ error)⟩

def setupFailed (error : String) : Frame :=
  ⟨.stderr, utf8 ("agent-scale: edge '" ++ r.edge ++ "' unreachable: " ++ error ++ "\n")⟩

namespace Pipeline

variable (s : Pipeline)

/-- `run_exec` terminates the child and returns, which drops the stream. -/
def terminate : Pipeline :=
  { s with child := s.child.map Child.terminate, edge := .returned, up := s.up.close }

/-- `relay_exec` returns, which drops both streams. -/
def hangUp : Pipeline := { s with relay := .returned, down := s.down.close }

/-- The arm of an output: one frame with the bytes. -/
def forward (child : Child) (channel : Channel) (bytes : List UInt8) (cut : Option Nat) : Pipeline :=
  let write := s.up.writeFrame ⟨channel.tag, bytes⟩ cut
  let next := { s with child := some (child.take channel bytes.length), up := write.1 }
  if write.2 then next else next.terminate

/-- The arm of `read_frame` in `relay_exec`. -/
def relayed (cut : Option Nat) : Except String (Option Frame) → Pipeline
  | .ok (some frame) =>
    let write := s.down.writeFrame frame cut
    let next := { s with down := write.1 }
    if write.2 = true ∧ frame.tag ≠ .exit then next else next.hangUp
  | _ => s.hangUp

def perform : Event → Option Pipeline
  | .reach => if s.relay = .connecting then some { s with relay := .relaying } else none
  | .unreachable error cut₁ cut₂ =>
    if s.relay = .connecting then
      some { s with
        relay := .unreachable
        down := (s.down.writeBoth (setupFailed r error) (exitFrame 1) cut₁ cut₂).close }
    else none
  | .spawn =>
    if s.edge = .idle ∧ (s.relay = .relaying ∨ s.relay = .returned) then
      some { s with child := some .spawned, edge := .streaming false false }
    else none
  | .spawnFails error cut₁ cut₂ =>
    if s.edge = .idle ∧ (s.relay = .relaying ∨ s.relay = .returned) then
      some { s with
        edge := .returned
        up := (s.up.writeBoth (spawnFailed r error) (exitFrame (-1)) cut₁ cut₂).close }
    else none
  | .output channel count cut =>
    s.child.bind (fun child =>
      let bytes := (child.output channel).unread.take (min count chunk)
      if s.edge.reads channel = true ∧ bytes ≠ [] then some (s.forward child channel bytes cut)
      else none)
  | .outputEnds channel =>
    s.child.bind (fun child =>
      if s.edge.reads channel = true ∧ (child.output channel).unread = [] ∧
          (child.output channel).closed = true then
        some { s with edge := s.edge.ended channel }
      else none)
  | .cancelled =>
    if (s.edge.reads .stdout = true ∨ s.edge.reads .stderr = true) ∧
        (s.relay = .returned ∨ s.up.lost = true) then some s.terminate
    else none
  | .drained => if s.edge = .streaming true true then some { s with edge := .waiting } else none
  | .waited cut =>
    s.child.bind (fun child => child.status.bind (fun status =>
      if s.edge = .waiting then
        some { s with
          edge := .returned
          up := (s.up.writeFrame (exitFrame (status.getD (-1))) cut).1.close }
      else none))
  | .upArrives n =>
    if 0 < n ∧ s.up.reader.coming ≠ [] then some { s with up := s.up.arrive n } else none
  | .relay cut =>
    if s.relay = .relaying then
      match (s.up.poll .iroh).2 with
      | none =>
        if s.up.reader.arrived = [] then none else some { s with up := (s.up.poll .iroh).1 }
      | some result => some ({ s with up := (s.up.poll .iroh).1 }.relayed cut result)
    else none
  | .clientLeft =>
    if s.relay = .relaying ∧ s.client.result.isSome = true then some s.hangUp else none
  | .downArrives n =>
    if 0 < n ∧ s.down.reader.coming ≠ [] then some { s with down := s.down.arrive n } else none
  | .client =>
    if s.client.result.isNone = true then
      match (s.down.poll .io).2 with
      | none =>
        if s.down.reader.arrived = [] then none else some { s with down := (s.down.poll .io).1 }
      | some result =>
        some { s with down := (s.down.poll .io).1, client := s.client.handle result }
    else none
  | .dropped =>
    if s.edge = .idle ∧ (s.relay = .relaying ∨ s.relay = .returned) then
      some { s with edge := .returned, up := s.up.close }
    else none
  | .outputFails channel => if s.edge.reads channel = true then some s.terminate else none
  | .waitFails => if s.edge = .waiting then some s.terminate else none
  | .edgeDies =>
    if s.edge = .returned ∨ s.edge = .crashed then none
    else some { s with edge := .crashed, up := s.up.lose }
  | .upLost => if s.up.lost = true then none else some { s with up := s.up.lose }
  | .relayDies =>
    if s.relay = .connecting ∨ s.relay = .relaying then some s.hangUp else none
  | .downLost => if s.down.lost = true then none else some { s with down := s.down.lose }
  | .clientDies =>
    if s.client.result.isNone = true then
      some { s with client := { s.client with result := some (.error "") } }
    else none
  | .childWrites channel bytes =>
    s.child.bind (fun child =>
      if (child.output channel).closed = true then none
      else some { s with child := some (child.write channel bytes) })
  | .childCloses channel => s.child.map (fun child => { s with child := some (child.close channel) })
  | .childExits code =>
    s.child.bind (fun child =>
      if child.status.isSome = true then none
      else some { s with child := some { child with status := some code } })

end Pipeline

/-- The pipeline of one command. -/
def pipeline : System Pipeline where
  init s := s = .start
  step s t := ∃ e, s.perform r e = some t

/-! ## What a step can do -/

/-- The request has been sent to the Edge. -/
def RelayExec.Sent (relay : RelayExec) : Prop := relay = .relaying ∨ relay = .returned

namespace Pipeline

/-- The steps of the pipeline, with what makes each of them possible. -/
inductive Step : Pipeline → Event → Pipeline → Prop
  | reach (s : Pipeline) (hrelay : s.relay = .connecting) :
      Step s .reach { s with relay := .relaying }
  | unreachable (s : Pipeline) (error : String) (cut₁ cut₂ : Option Nat)
      (hrelay : s.relay = .connecting) :
      Step s (.unreachable error cut₁ cut₂) { s with
        relay := .unreachable
        down := (s.down.writeBoth (setupFailed r error) (exitFrame 1) cut₁ cut₂).close }
  | spawn (s : Pipeline) (hedge : s.edge = .idle) (hsent : s.relay.Sent) :
      Step s .spawn { s with child := some .spawned, edge := .streaming false false }
  | spawnFails (s : Pipeline) (error : String) (cut₁ cut₂ : Option Nat) (hedge : s.edge = .idle)
      (hsent : s.relay.Sent) :
      Step s (.spawnFails error cut₁ cut₂) { s with
        edge := .returned
        up := (s.up.writeBoth (spawnFailed r error) (exitFrame (-1)) cut₁ cut₂).close }
  | output (s : Pipeline) (child : Child) (channel : Channel) (count : Nat) (cut : Option Nat)
      (hchild : s.child = some child) (hreads : s.edge.reads channel = true)
      (hsome : (child.output channel).unread.take (min count chunk) ≠ []) :
      Step s (.output channel count cut)
        (s.forward child channel ((child.output channel).unread.take (min count chunk)) cut)
  | outputEnds (s : Pipeline) (child : Child) (channel : Channel) (hchild : s.child = some child)
      (hreads : s.edge.reads channel = true) (hempty : (child.output channel).unread = [])
      (hclosed : (child.output channel).closed = true) :
      Step s (.outputEnds channel) { s with edge := s.edge.ended channel }
  | cancelled (s : Pipeline) (hreads : s.edge.reads .stdout = true ∨ s.edge.reads .stderr = true)
      (hgone : s.relay = .returned ∨ s.up.lost = true) : Step s .cancelled s.terminate
  | drained (s : Pipeline) (hedge : s.edge = .streaming true true) :
      Step s .drained { s with edge := .waiting }
  | waited (s : Pipeline) (child : Child) (status : Option Int32) (cut : Option Nat)
      (hchild : s.child = some child) (hstatus : child.status = some status)
      (hedge : s.edge = .waiting) :
      Step s (.waited cut) { s with
        edge := .returned
        up := (s.up.writeFrame (exitFrame (status.getD (-1))) cut).1.close }
  | upArrives (s : Pipeline) (n : Nat) (hpos : 0 < n) (hcoming : s.up.reader.coming ≠ []) :
      Step s (.upArrives n) { s with up := s.up.arrive n }
  | relayPending (s : Pipeline) (cut : Option Nat) (hrelay : s.relay = .relaying)
      (hpoll : (s.up.poll .iroh).2 = none) (harrived : s.up.reader.arrived ≠ []) :
      Step s (.relay cut) { s with up := (s.up.poll .iroh).1 }
  | relay (s : Pipeline) (cut : Option Nat) (result : Except String (Option Frame))
      (hrelay : s.relay = .relaying) (hpoll : (s.up.poll .iroh).2 = some result) :
      Step s (.relay cut) ({ s with up := (s.up.poll .iroh).1 }.relayed cut result)
  | clientLeft (s : Pipeline) (hrelay : s.relay = .relaying)
      (hresult : s.client.result.isSome = true) : Step s .clientLeft s.hangUp
  | downArrives (s : Pipeline) (n : Nat) (hpos : 0 < n) (hcoming : s.down.reader.coming ≠ []) :
      Step s (.downArrives n) { s with down := s.down.arrive n }
  | clientPending (s : Pipeline) (hclient : s.client.result = none)
      (hpoll : (s.down.poll .io).2 = none) (harrived : s.down.reader.arrived ≠ []) :
      Step s .client { s with down := (s.down.poll .io).1 }
  | client (s : Pipeline) (result : Except String (Option Frame)) (hclient : s.client.result = none)
      (hpoll : (s.down.poll .io).2 = some result) :
      Step s .client { s with down := (s.down.poll .io).1, client := s.client.handle result }
  | dropped (s : Pipeline) (hedge : s.edge = .idle) (hsent : s.relay.Sent) :
      Step s .dropped { s with edge := .returned, up := s.up.close }
  | outputFails (s : Pipeline) (channel : Channel) (hreads : s.edge.reads channel = true) :
      Step s (.outputFails channel) s.terminate
  | waitFails (s : Pipeline) (hedge : s.edge = .waiting) : Step s .waitFails s.terminate
  | edgeDies (s : Pipeline) (hedge : ¬ (s.edge = .returned ∨ s.edge = .crashed)) :
      Step s .edgeDies { s with edge := .crashed, up := s.up.lose }
  | upLost (s : Pipeline) (hlost : s.up.lost ≠ true) : Step s .upLost { s with up := s.up.lose }
  | relayDies (s : Pipeline) (hrelay : s.relay = .connecting ∨ s.relay = .relaying) :
      Step s .relayDies s.hangUp
  | downLost (s : Pipeline) (hlost : s.down.lost ≠ true) :
      Step s .downLost { s with down := s.down.lose }
  | clientDies (s : Pipeline) (hclient : s.client.result = none) :
      Step s .clientDies { s with client := { s.client with result := some (.error "") } }
  | childWrites (s : Pipeline) (child : Child) (channel : Channel) (bytes : List UInt8)
      (hchild : s.child = some child) (hopen : (child.output channel).closed ≠ true) :
      Step s (.childWrites channel bytes) { s with child := some (child.write channel bytes) }
  | childCloses (s : Pipeline) (child : Child) (channel : Channel) (hchild : s.child = some child) :
      Step s (.childCloses channel) { s with child := some (child.close channel) }
  | childExits (s : Pipeline) (child : Child) (code : Option Int32) (hchild : s.child = some child)
      (hstatus : child.status = none) :
      Step s (.childExits code) { s with child := some { child with status := some code } }

variable {r} {s t : Pipeline} {e : Event}

theorem Step.of_perform (h : s.perform r e = some t) : Step r s e t := by
  cases e with
  | reach | unreachable | drained | relayDies | outputFails | waitFails =>
    obtain ⟨hguard, h⟩ := Option.ite_none_right_eq_some.1 h
    cases h
    constructor
    exact hguard
  | spawn | spawnFails | dropped | cancelled | upArrives | clientLeft | downArrives =>
    obtain ⟨⟨hfirst, hsecond⟩, h⟩ := Option.ite_none_right_eq_some.1 h
    cases h
    constructor
    · exact hfirst
    · exact hsecond
  | output channel count cut =>
    obtain ⟨child, hchild, h⟩ := Option.bind_eq_some_iff.1 h
    obtain ⟨⟨hreads, hsome⟩, h⟩ := Option.ite_none_right_eq_some.1 h
    cases h
    exact .output s child channel count cut hchild hreads hsome
  | outputEnds channel =>
    obtain ⟨child, hchild, h⟩ := Option.bind_eq_some_iff.1 h
    obtain ⟨⟨hreads, hempty, hclosed⟩, h⟩ := Option.ite_none_right_eq_some.1 h
    cases h
    exact .outputEnds s child channel hchild hreads hempty hclosed
  | waited cut =>
    obtain ⟨child, hchild, h⟩ := Option.bind_eq_some_iff.1 h
    obtain ⟨status, hstatus, h⟩ := Option.bind_eq_some_iff.1 h
    obtain ⟨hedge, h⟩ := Option.ite_none_right_eq_some.1 h
    cases h
    exact .waited s child status cut hchild hstatus hedge
  | relay cut =>
    obtain ⟨hrelay, h⟩ := Option.ite_none_right_eq_some.1 h
    split at h
    · next hpoll =>
      obtain ⟨harrived, h⟩ := Option.ite_none_left_eq_some.1 h
      cases h
      exact .relayPending s cut hrelay hpoll harrived
    · next result hpoll =>
      cases h
      exact .relay s cut result hrelay hpoll
  | client =>
    obtain ⟨hclient, h⟩ := Option.ite_none_right_eq_some.1 h
    split at h
    · next hpoll =>
      obtain ⟨harrived, h⟩ := Option.ite_none_left_eq_some.1 h
      cases h
      exact .clientPending s (Option.isNone_iff_eq_none.1 hclient) hpoll harrived
    · next result hpoll =>
      cases h
      exact .client s result (Option.isNone_iff_eq_none.1 hclient) hpoll
  | edgeDies | upLost | downLost =>
    obtain ⟨hguard, h⟩ := Option.ite_none_left_eq_some.1 h
    cases h
    constructor
    exact hguard
  | clientDies =>
    obtain ⟨hclient, h⟩ := Option.ite_none_right_eq_some.1 h
    cases h
    exact .clientDies s (Option.isNone_iff_eq_none.1 hclient)
  | childWrites channel bytes =>
    obtain ⟨child, hchild, h⟩ := Option.bind_eq_some_iff.1 h
    obtain ⟨hopen, h⟩ := Option.ite_none_left_eq_some.1 h
    cases h
    exact .childWrites s child channel bytes hchild hopen
  | childCloses channel =>
    obtain ⟨child, hchild, rfl⟩ := Option.map_eq_some_iff.1 h
    exact .childCloses s child channel hchild
  | childExits code =>
    obtain ⟨child, hchild, h⟩ := Option.bind_eq_some_iff.1 h
    obtain ⟨hstatus, h⟩ := Option.ite_none_left_eq_some.1 h
    cases h
    exact .childExits s child code hchild (by simpa using hstatus)

end Pipeline

end AgentScale.Exec
