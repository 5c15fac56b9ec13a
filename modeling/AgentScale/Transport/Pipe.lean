import AgentScale.Transport.ReadFrame

set_option autoImplicit false

/-! # One direction of a stream

The bytes that a writer has put on a stream with `write_frame`, on their way to a reader that calls
`read_frame`. A write may fail after a part of its bytes has left, and the connection may be lost, after
which every read fails. What the reader gets is in any case the frames in order, up to some point. -/

namespace AgentScale.Transport

open Checked Framing

structure Pipe where
  reader : Reader
  lost : Bool

namespace Pipe

def opened : Pipe := ⟨⟨[], [], [], false⟩, false⟩

/-- Bytes are written, all of them or the first `n` before the write fails. -/
def put (p : Pipe) (bytes : List UInt8) (cut : Option Nat) : Pipe :=
  { p with reader := { p.reader with coming := p.reader.coming ++ cut.elim bytes bytes.take } }

/-- `write_frame`, and whether it succeeds. -/
def writeFrame (p : Pipe) (frame : Frame) (cut : Option Nat) : Pipe × Bool :=
  match Transport.writeFrame frame with
  | .ok bytes => (p.put bytes cut, cut.isNone)
  | .error _ => (p, false)

/-- Two calls of `write_frame` whose results are ignored. A stream on which a write has failed takes no
    further bytes. -/
def writeBoth (p : Pipe) (first second : Frame) (cut₁ cut₂ : Option Nat) : Pipe :=
  if cut₁.isSome then (p.writeFrame first cut₁).1
  else ((p.writeFrame first none).1.writeFrame second cut₂).1

/-- The writer ends the stream, or drops it. -/
def close (p : Pipe) : Pipe := { p with reader := { p.reader with closes := true } }

def lose (p : Pipe) : Pipe := { p with lost := true }

def arrive (p : Pipe) (n : Nat) : Pipe := { p with reader := p.reader.arrive n }

/-- Poll `read_frame`. -/
def poll (wire : Wire) (p : Pipe) : Pipe × Option (Except String (Option Frame)) :=
  if p.lost then (p, some (.error "connection lost"))
  else ({ p with reader := (p.reader.poll wire).1 }, (p.reader.poll wire).2)

/-! ## What a pipe carries -/

/-- The reader is to get the frames `rest`, but for the bytes `missing` at the end. -/
structure Carries (p : Pipe) (rest : List Frame) (missing : List UInt8) : Prop where
  fits : ∀ frame ∈ rest, frame.payload.length ≤ maxFrame
  synced : Synced encode rest p.reader.taken p.reader.arrived (p.reader.coming ++ missing)

variable {p q : Pipe} {rest : List Frame} {missing : List UInt8} {wire : Wire}

theorem opened_carries : opened.Carries [] [] := ⟨by simp, .start (by simp)⟩

theorem Carries.close (h : p.Carries rest missing) : p.close.Carries rest missing := ⟨h.fits, h.synced⟩

theorem Carries.lose (h : p.Carries rest missing) : p.lose.Carries rest missing := ⟨h.fits, h.synced⟩

theorem Carries.arrive (h : p.Carries rest missing) (n : Nat) :
    (p.arrive n).Carries rest missing := by
  have hstream := h.synced.stream
  refine ⟨h.fits, ⟨?_, h.synced.within⟩⟩
  rw [← hstream]
  simp [Pipe.arrive, Reader.arrive, ← List.append_assoc (List.take n _)]

theorem encode_ne_nil (frame : Frame) : encode frame ≠ [] := by simp [encode]

variable {frame : Frame}

theorem Carries.put (h : p.Carries rest []) (hfits : frame.payload.length ≤ maxFrame)
    (cut : Option Nat) :
    ∃ missing, (p.put (encode frame) cut).Carries (rest ++ [frame]) missing ∧
      (cut = none → missing = []) := by
  have hstream := h.synced.stream
  -- what is missing is what the write has left out
  refine ⟨cut.elim [] (encode frame).drop, ⟨?_, ⟨?_, ?_⟩⟩, by rintro rfl; rfl⟩
  · intro f hf
    rcases List.mem_append.1 hf with hf | hf
    · exact h.fits f hf
    · rw [List.mem_singleton.1 hf]
      exact hfits
  · have hall : cut.elim (encode frame) (encode frame).take ++ cut.elim [] (encode frame).drop =
        encode frame := by
      cases cut <;> simp
    simp only [Pipe.put, List.append_assoc, hall]
    simpa [List.append_assoc] using congrArg (· ++ encode frame) hstream
  · intro first later heq
    cases rest with
    | nil =>
      obtain ⟨htaken, _⟩ := h.synced.nil_iff
      obtain rfl : frame = first := (List.cons.inj heq).1
      rw [show (p.put (encode frame) cut).reader.taken = [] from htaken]
      exact List.length_pos_iff.2 (encode_ne_nil frame)
    | cons f rest =>
      obtain rfl : f = first := (List.cons.inj heq).1
      exact h.synced.within f rest rfl

theorem writeFrame_of_fits (hfits : frame.payload.length ≤ maxFrame) (cut : Option Nat) :
    p.writeFrame frame cut = (p.put (encode frame) cut, cut.isNone) := by
  simp [writeFrame, writeFrame_eq_ok.2 ⟨hfits, rfl⟩]

theorem writeFrame_of_large (hlarge : maxFrame < frame.payload.length) (cut : Option Nat) :
    p.writeFrame frame cut = (p, false) := by
  unfold writeFrame
  split
  · next hok => exact absurd (writeFrame_eq_ok.1 hok).1 (by omega)
  · rfl

/-- The frames that `write_frame` does not refuse for their length. -/
def fitting (frames : List Frame) : List Frame := frames.filter (·.payload.length ≤ maxFrame)

theorem Carries.writeBoth (h : p.Carries rest []) (first : Frame) {second : Frame}
    (hsecond : second.payload.length ≤ maxFrame) (cut₁ cut₂ : Option Nat) :
    ∃ part missing, part <+: fitting [first, second] ∧
      (p.writeBoth first second cut₁ cut₂).Carries (rest ++ part) missing := by
  unfold Pipe.writeBoth
  by_cases hfirst : first.payload.length ≤ maxFrame
  · have hfitting : fitting [first, second] = [first] ++ [second] := by simp [fitting, hfirst, hsecond]
    split
    · obtain ⟨missing, hput, _⟩ := h.put hfirst cut₁
      rw [writeFrame_of_fits hfirst, hfitting]
      exact ⟨[first], missing, List.prefix_append _ _, hput⟩
    · obtain ⟨_, hput, hall⟩ := h.put hfirst none
      obtain rfl := hall rfl
      obtain ⟨missing, hput', _⟩ := hput.put hsecond cut₂
      rw [writeFrame_of_fits hfirst, writeFrame_of_fits hsecond, hfitting]
      exact ⟨[first] ++ [second], missing, List.prefix_rfl, by simpa using hput'⟩
  · have hfitting : fitting [first, second] = [second] := by simp [fitting, hfirst, hsecond]
    simp only [writeFrame_of_large (Nat.lt_of_not_le hfirst), writeFrame_of_fits hsecond, hfitting]
    split
    · exact ⟨[], [], List.nil_prefix, by simpa using h⟩
    · obtain ⟨missing, hput, _⟩ := h.put hsecond cut₂
      exact ⟨[second], missing, List.prefix_rfl, hput⟩

/-- What a poll of `read_frame` gives: the next frame, nothing yet, or no frame at all. -/
theorem Carries.poll (h : p.Carries rest missing) (wire : Wire) :
    (∃ frame later, rest = frame :: later ∧ (p.poll wire).2 = some (.ok (some frame)) ∧
      (p.poll wire).1.Carries later missing) ∨
    ((p.poll wire).2 = none ∧ (p.poll wire).1.Carries rest missing) ∨
    ∃ result, (p.poll wire).2 = some result ∧ ∀ frame, result ≠ .ok (some frame) := by
  by_cases hlost : p.lost = true
  · exact .inr (.inr ⟨.error "connection lost", by simp [Pipe.poll, hlost], by simp⟩)
  have hall : ∀ frame ∈ rest, Recognises (stage maxFrame) encode frame :=
    fun frame hframe => recognises (h.fits frame hframe)
  simp only [Pipe.poll, hlost, Bool.false_eq_true, if_false]
  by_cases hready : ∃ first later, rest = first :: later ∧
      (encode first).length ≤ p.reader.taken.length + p.reader.arrived.length
  · obtain ⟨first, later, rfl, hlen⟩ := hready
    obtain ⟨left, hpoll, hsynced⟩ := h.synced.poll_ready hall hlen
    refine .inl ⟨first, later, rfl, ?_⟩
    simp only [Reader.poll, hpoll]
    exact ⟨rfl, fun f hf => h.fits f (List.mem_cons_of_mem _ hf), hsynced⟩
  · have hshort : ∀ first later, rest = first :: later →
        p.reader.taken.length + p.reader.arrived.length < (encode first).length := by
      intro first later heq
      exact Nat.lt_of_not_le (fun hle => hready ⟨first, later, heq, hle⟩)
    obtain ⟨hpoll, hsynced⟩ := h.synced.poll_pending hall hshort
    simp only [Reader.poll, hpoll]
    split
    · refine .inr (.inr ⟨_, rfl, ?_⟩)
      intro frame hframe
      unfold Wire.atEnd at hframe
      split at hframe
      · cases hframe
      · split at hframe
        · cases hframe
        · cases wire <;> cases hframe
    · exact .inr (.inl ⟨rfl, h.fits, hsynced⟩)

theorem Carries.poll_pending (h : p.Carries rest missing) (hpoll : (p.poll wire).2 = none) :
    (p.poll wire).1.Carries rest missing := by
  rcases h.poll wire with ⟨_, _, _, hframe, _⟩ | ⟨_, hcarries⟩ | ⟨_, hresult, _⟩
  · cases hpoll.symm.trans hframe
  · exact hcarries
  · cases hpoll.symm.trans hresult

/-! ## How much is on the way -/

/-- The bytes of the frame a poll has given. -/
def frameSize : Option (Except String (Option Frame)) → Nat
  | some (.ok (some frame)) => (encode frame).length
  | _ => 0

theorem length_of_stage {bytes : List UInt8} {n : Nat} (h : stage n bytes = .done frame) :
    bytes.length = (encode frame).length := by
  unfold stage at h
  split at h
  · split at h
    · cases h
    · split at h
      · cases h
      · split at h
        · cases h
        · obtain rfl := Stage.done.inj h
          simp [encode, toLeBytes]
  · cases h

/-- A poll takes what it gives from what has arrived. -/
theorem poll_bytes (wire : Wire) (p : Pipe) :
    (p.poll wire).1.reader.coming = p.reader.coming ∧
      (p.poll wire).1.reader.closes = p.reader.closes ∧ (p.poll wire).1.lost = p.lost ∧
      (p.poll wire).1.reader.arrived.length ≤ p.reader.arrived.length ∧
      frameSize (p.poll wire).2 + (p.poll wire).1.reader.taken.length +
        (p.poll wire).1.reader.arrived.length ≤ p.reader.taken.length + p.reader.arrived.length ∧
      ((p.poll wire).2 = none → (p.poll wire).1.reader.arrived = []) := by
  by_cases hlost : p.lost = true
  · simp [Pipe.poll, hlost, frameSize]
  simp only [Pipe.poll, hlost, Bool.false_eq_true, if_false, Reader.poll]
  cases hpoll : Framing.poll (stage maxFrame) p.reader.taken p.reader.arrived with
  | ready result left =>
    obtain ⟨used, _, harrived, hdone⟩ := Framing.poll_eq_ready hpoll
    have hlen : p.reader.arrived.length = used.length + left.length := by simp [harrived]
    refine ⟨rfl, rfl, trivial, by simp [hlen], ?_, by simp⟩
    cases result with
    | error error => simp [frameSize, Except.map, hlen]; omega
    | ok frame =>
      have hsize := length_of_stage (hdone frame rfl)
      rw [List.length_append] at hsize
      simp only [frameSize, Except.map, List.length_nil]
      omega
  | pending taken =>
    obtain rfl := Framing.poll_eq_pending hpoll
    simp only
    split
    · refine ⟨rfl, rfl, trivial, by simp, ?_, by simp⟩
      have hnone : frameSize (some (wire.atEnd (p.reader.taken ++ p.reader.arrived))) = 0 := by
        unfold Wire.atEnd
        split_ifs <;> cases wire <;> rfl
      simp [hnone]
    · exact ⟨rfl, rfl, trivial, by simp, by simp [frameSize], by simp⟩

end Pipe

end AgentScale.Transport
