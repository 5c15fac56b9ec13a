import AgentScale.Library.Checked
import AgentScale.Library.Framing

set_option autoImplicit false

/-! # Frames

The frame format of `scale_transport`: a tag, the length of the payload in four bytes, least
significant first, and the payload. `iroh_wire` reads and writes it on iroh streams, `io_wire` on the
local socket between client and daemon.

`read_frame` is a future that takes bytes from the stream over several awaits: one for the tag, four
for the rest of the header, then the payload. What it has taken belongs to the future, so a future that
is dropped loses it. -/

namespace AgentScale.Transport

open Checked Framing

inductive FrameTag where
  | start
  | stdout
  | stderr
  | exit
  | result
  | data
deriving DecidableEq

/-- `tag as u8`. -/
def FrameTag.toByte : FrameTag → UInt8
  | .start => 0
  | .stdout => 1
  | .stderr => 2
  | .exit => 3
  | .result => 4
  | .data => 5

def FrameTag.tryFrom (value : UInt8) : Except String FrameTag :=
  match value.toNat with
  | 0 => .ok .start
  | 1 => .ok .stdout
  | 2 => .ok .stderr
  | 3 => .ok .exit
  | 4 => .ok .result
  | 5 => .ok .data
  | n => .error ("unknown frame tag " ++ toString n)

def FrameTag.display (tag : FrameTag) : String := toString tag.toByte.toNat

structure Frame where
  tag : FrameTag
  payload : List UInt8
deriving DecidableEq

def maxFrame : Nat := 16 * 1024 * 1024

def toLeBytes (n : Nat) : List UInt8 :=
  [UInt8.ofNat (n % 256), UInt8.ofNat (n / 256 % 256), UInt8.ofNat (n / 65536 % 256),
    UInt8.ofNat (n / 16777216 % 256)]

def fromLeBytes (a b c d : UInt8) : Nat :=
  a.toNat + 256 * b.toNat + 65536 * c.toNat + 16777216 * d.toNat

/-- `header`. `u32::try_from` cannot fail after the first check. -/
def header (tag : FrameTag) (len : Nat) : Except String (List UInt8) := do
  ensure (len ≤ maxFrame) ("frame too large: " ++ toString len)
  return tag.toByte :: toLeBytes len

def splitHeader (t a b c d : UInt8) : Except String (FrameTag × Nat) := do
  let tag ← FrameTag.tryFrom t
  let len := fromLeBytes a b c d
  ensure (len ≤ maxFrame) ("frame too large: " ++ toString len)
  return (tag, len)

/-- The bytes `write_frame` writes, in either module. -/
def writeFrame (frame : Frame) : Except String (List UInt8) := do
  let header ← header frame.tag frame.payload.length
  return header ++ frame.payload

/-- The two modules that implement the format. -/
inductive Wire where
  | iroh
  | io

/-- What `read_frame_with_limit` makes of the bytes it has taken. -/
def stage (maxPayload : Nat) : List UInt8 → Stage Frame String
  | t :: a :: b :: c :: d :: payload =>
    match splitHeader t a b c d with
    | .error error => .bad error
    | .ok (tag, n) =>
      if maxPayload < n then .bad ("frame too large for this request: " ++ toString n)
      else if payload.length < n then .more
      else .done ⟨tag, payload⟩
  | _ => .more

/-- What `read_frame` returns when the stream ends after the bytes it has taken. -/
def Wire.atEnd (wire : Wire) (taken : List UInt8) : Except String (Option Frame) :=
  if taken = [] then .ok none
  else if taken.length < 5 then .error "read frame header"
  else
    match wire with
    | .iroh => .error "read payload"
    | .io => .error "read frame payload"

/-- The receiving side of a stream, and the `read_frame` future on it. -/
structure Reader where
  /-- Written by the peer and not yet arrived. -/
  coming : List UInt8
  arrived : List UInt8
  /-- Taken by a `read_frame` that has not finished. -/
  taken : List UInt8
  /-- The peer ends the stream after what is coming. -/
  closes : Bool
deriving DecidableEq

/-- Poll `read_frame`. -/
def Reader.poll (wire : Wire) (r : Reader) : Reader × Option (Except String (Option Frame)) :=
  match Framing.poll (stage maxFrame) r.taken r.arrived with
  | .ready result rest => ({ r with arrived := rest, taken := [] }, some (result.map some))
  | .pending taken =>
    if r.closes = true ∧ r.coming = [] then
      ({ r with arrived := [], taken := [] }, some (wire.atEnd taken))
    else ({ r with arrived := [], taken := taken }, none)

/-- The future is dropped. -/
def Reader.drop (r : Reader) : Reader := { r with taken := [] }

/-- Bytes arrive. -/
def Reader.arrive (r : Reader) (n : Nat) : Reader :=
  { r with arrived := r.arrived ++ r.coming.take n, coming := r.coming.drop n }

/-- The stream of a peer that writes frames with `write_frame`, and then ends it or not. -/
def Reader.opened (frames : List Frame) (closes : Bool) : Except String Reader := do
  let pieces ← frames.mapM writeFrame
  return ⟨pieces.flatten, [], [], closes⟩

/-! ## The format -/

theorem tryFrom_toByte (tag : FrameTag) : FrameTag.tryFrom tag.toByte = .ok tag := by
  cases tag <;> rfl

theorem fromLeBytes_toLeBytes {n : Nat} (h : n < 2 ^ 32) :
    fromLeBytes (UInt8.ofNat (n % 256)) (UInt8.ofNat (n / 256 % 256))
      (UInt8.ofNat (n / 65536 % 256)) (UInt8.ofNat (n / 16777216 % 256)) = n := by
  simp only [fromLeBytes, UInt8.toNat_ofNat']
  omega

theorem lt_of_le_maxFrame {n : Nat} (h : n ≤ maxFrame) : n < 2 ^ 32 :=
  h.trans_lt (by decide)

def encode (frame : Frame) : List UInt8 :=
  frame.tag.toByte :: toLeBytes frame.payload.length ++ frame.payload

theorem writeFrame_eq_ok {frame : Frame} {bytes : List UInt8} :
    writeFrame frame = .ok bytes ↔ frame.payload.length ≤ maxFrame ∧ bytes = encode frame := by
  constructor
  · intro h
    obtain ⟨hdr, hhdr, h⟩ := of_bind h
    obtain ⟨_, hlen, hhdr⟩ := of_bind hhdr
    rw [pure_eq_ok] at h hhdr
    exact ⟨ensure_eq_ok.1 hlen, by rw [← h, ← hhdr]; rfl⟩
  · rintro ⟨hlen, rfl⟩
    exact bind_ok (bind_ok (ensure_of hlen) rfl) rfl

theorem splitHeader_header {frame : Frame} (h : frame.payload.length ≤ maxFrame) :
    splitHeader frame.tag.toByte (UInt8.ofNat (frame.payload.length % 256))
      (UInt8.ofNat (frame.payload.length / 256 % 256))
      (UInt8.ofNat (frame.payload.length / 65536 % 256))
      (UInt8.ofNat (frame.payload.length / 16777216 % 256)) =
      .ok (frame.tag, frame.payload.length) := by
  refine bind_ok (tryFrom_toByte _) ?_
  simp only [fromLeBytes_toLeBytes (lt_of_le_maxFrame h)]
  exact bind_ok (ensure_of h) rfl

/-- Every frame that can be written is recognised. -/
theorem recognises {frame : Frame} (h : frame.payload.length ≤ maxFrame) :
    Recognises (stage maxFrame) encode frame := by
  refine ⟨by simp [encode], ?_, ?_⟩
  · simp only [encode, toLeBytes, List.cons_append, List.nil_append, stage, splitHeader_header h]
    rw [if_neg (by omega), if_neg (by omega)]
  · intro p hpart hne
    match p with
    | [] => rfl
    | [_] => rfl
    | [_, _] => rfl
    | [_, _, _] => rfl
    | [_, _, _, _] => rfl
    | t :: a :: b :: c :: d :: payload =>
      simp only [encode, toLeBytes, List.cons_append, List.nil_append,
        List.cons_prefix_cons] at hpart
      obtain ⟨rfl, rfl, rfl, rfl, rfl, hpayload⟩ := hpart
      have hshort : payload.length < frame.payload.length := by
        refine lt_of_le_of_ne hpayload.length_le (fun hlen => hne ?_)
        simp [encode, toLeBytes, hpayload.eq_of_length hlen]
      simp only [stage, splitHeader_header h]
      rw [if_neg (by omega), if_pos hshort]

/-- Frames that have been written are recognised, and the stream is their encodings. -/
theorem writeFrames_eq_ok {frames : List Frame} {pieces : List (List UInt8)}
    (h : frames.mapM writeFrame = .ok pieces) :
    (∀ frame ∈ frames, Recognises (stage maxFrame) encode frame) ∧
      pieces.flatten = frames.flatMap encode := by
  induction frames generalizing pieces with
  | nil =>
    obtain rfl : [] = pieces := pure_eq_ok.1 h
    exact ⟨by simp, rfl⟩
  | cons first later ih =>
    obtain ⟨piece, rest, hpiece, hrest, rfl⟩ := mapM_cons_eq_ok.1 h
    obtain ⟨hlen, rfl⟩ := writeFrame_eq_ok.1 hpiece
    obtain ⟨hrec, hflat⟩ := ih hrest
    refine ⟨List.forall_mem_cons.2 ⟨recognises hlen, hrec⟩, ?_⟩
    rw [List.flatten_cons, List.flatMap_cons, hflat]

theorem opened_eq_ok {frames : List Frame} {closes : Bool} {r : Reader}
    (h : Reader.opened frames closes = .ok r) :
    (∀ frame ∈ frames, Recognises (stage maxFrame) encode frame) ∧ r.closes = closes ∧
      Synced encode frames r.taken r.arrived r.coming := by
  obtain ⟨pieces, hpieces, h⟩ := of_bind h
  cases h
  obtain ⟨hrec, hflat⟩ := writeFrames_eq_ok hpieces
  refine ⟨hrec, rfl, ?_⟩
  rw [hflat]
  exact .start (fun frame hframe => (hrec frame hframe).nonempty)

end AgentScale.Transport
