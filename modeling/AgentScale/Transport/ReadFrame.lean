import AgentScale.Transport.Frame

set_option autoImplicit false

/-! # The two implementations of the format

`iroh_wire` and `io_wire` each have their own `write_frame` and `read_frame`. Here they run to their end
on a stream whose bytes are all there: a call takes what it needs from the front and leaves the rest. -/

namespace AgentScale.Transport

open Checked Framing

/-! ## Writing -/

/-- `iroh_wire::write_frame`, with what has been written so far. -/
def irohWriteFrame (written : List UInt8) (frame : Frame) : Except String (List UInt8) := do
  let header ← header frame.tag frame.payload.length
  let written := written ++ header
  return written ++ frame.payload

/-- `io_wire::write_frame`. What it writes it also flushes. -/
def ioWriteFrame (written : List UInt8) (frame : Frame) : Except String (List UInt8) := do
  let header ← header frame.tag frame.payload.length
  let written := written ++ header
  return written ++ frame.payload

def Wire.writeFrame : Wire → List UInt8 → Frame → Except String (List UInt8)
  | .iroh => irohWriteFrame
  | .io => ioWriteFrame

/-! ## Reading -/

/-- The result of a read and what it leaves of the stream. -/
abbrev Read (α : Type) := Except String α × List UInt8

/-- `read_exact`. A stream that ends too early has been taken to its end. -/
def readExact (n : Nat) (error : String) (stream : List UInt8) : Read (List UInt8) :=
  if n ≤ stream.length then (.ok (stream.take n), stream.drop n) else (.error error, [])

/-- `read_exact` of the four bytes after the tag. -/
def readLength (error : String) : List UInt8 → Read (UInt8 × UInt8 × UInt8 × UInt8)
  | a :: b :: c :: d :: stream => (.ok (a, b, c, d), stream)
  | _ => (.error error, [])

def irohReadFrameWithLimit (maxPayload : Nat) : List UInt8 → Read (Option Frame)
  -- `read_chunk(1)` finds the end
  | [] => (.ok none, [])
  | first :: stream =>
    match readLength "read frame header" stream with
    | (.error error, stream) => (.error error, stream)
    | (.ok (a, b, c, d), stream) =>
      match splitHeader first a b c d with
      | .error error => (.error error, stream)
      | .ok (tag, n) =>
        if n ≤ maxPayload then
          match readExact n "read payload" stream with
          | (.error error, stream) => (.error error, stream)
          | (.ok buf, stream) => (.ok (some ⟨tag, buf⟩), stream)
        else (.error ("frame too large for this request: " ++ toString n), stream)

def irohReadFrame : List UInt8 → Read (Option Frame) := irohReadFrameWithLimit maxFrame

def ioReadFrame : List UInt8 → Read (Option Frame)
  -- `read` returns no byte
  | [] => (.ok none, [])
  | first :: stream =>
    match readLength "read frame header" stream with
    | (.error error, stream) => (.error error, stream)
    | (.ok (a, b, c, d), stream) =>
      match splitHeader first a b c d with
      | .error error => (.error error, stream)
      | .ok (tag, n) =>
        match readExact n "read frame payload" stream with
        | (.error error, stream) => (.error error, stream)
        | (.ok buf, stream) => (.ok (some ⟨tag, buf⟩), stream)

def Wire.readFrame : Wire → List UInt8 → Read (Option Frame)
  | .iroh => irohReadFrame
  | .io => ioReadFrame

/-- The results of successive calls of `read_frame`, and what they leave. -/
def Wire.readFrames (wire : Wire) : Nat → List UInt8 → List (Except String (Option Frame)) × List UInt8
  | 0, stream => ([], stream)
  | n + 1, stream =>
    let call := wire.readFrame stream
    let later := wire.readFrames n call.2
    (call.1 :: later.1, later.2)

/-- What a result is, without the text of an error. -/
def kind {α : Type} (result : Except String α) : Except Unit α := result.mapError (fun _ => ())

/-! ## What a call returns -/

variable {tag : FrameTag}

theorem toByte_of_tryFrom {t : UInt8} (h : FrameTag.tryFrom t = .ok tag) :
    tag.toByte = t := by
  unfold FrameTag.tryFrom at h
  refine UInt8.toNat.inj ?_
  split at h <;> first
    | (cases h
       next heq => rw [heq]
                   rfl)
    | cases h

theorem toLeBytes_fromLeBytes (a b c d : UInt8) : toLeBytes (fromLeBytes a b c d) = [a, b, c, d] := by
  have ha := a.toNat_lt
  have hb := b.toNat_lt
  have hc := c.toNat_lt
  have hd := d.toNat_lt
  have hdigits : fromLeBytes a b c d % 256 = a.toNat ∧ fromLeBytes a b c d / 256 % 256 = b.toNat ∧
      fromLeBytes a b c d / 65536 % 256 = c.toNat ∧
      fromLeBytes a b c d / 16777216 % 256 = d.toNat := by
    unfold fromLeBytes
    omega
  simp [toLeBytes, hdigits]

theorem splitHeader_eq_ok {t a b c d : UInt8} {n : Nat} :
    splitHeader t a b c d = .ok (tag, n) ↔
      tag.toByte = t ∧ toLeBytes n = [a, b, c, d] ∧ n ≤ maxFrame := by
  unfold splitHeader
  constructor
  · intro h
    obtain ⟨tag', htag, h⟩ := of_bind h
    obtain ⟨_, hlen, h⟩ := of_bind h
    cases h
    exact ⟨toByte_of_tryFrom htag, toLeBytes_fromLeBytes a b c d, ensure_eq_ok.1 hlen⟩
  · rintro ⟨rfl, hbytes, hlen⟩
    have hn : fromLeBytes a b c d = n := by
      rw [← fromLeBytes_toLeBytes (lt_of_le_maxFrame hlen)]
      simp only [toLeBytes, List.cons.injEq] at hbytes
      obtain ⟨ha, hb, hc, hd, _⟩ := hbytes
      rw [ha, hb, hc, hd]
    refine bind_ok (tryFrom_toByte tag) ?_
    rw [hn]
    exact bind_ok (ensure_of hlen) rfl

/-- The two readers as one: they differ in the text for a payload that is cut short. -/
def readFrameWith (cut : String) : List UInt8 → Read (Option Frame)
  | t :: a :: b :: c :: d :: stream =>
    match splitHeader t a b c d with
    | .error error => (.error error, stream)
    | .ok (tag, n) =>
      if n ≤ stream.length then (.ok (some ⟨tag, stream.take n⟩), stream.drop n)
      else (.error cut, [])
  | [] => (.ok none, [])
  | _ => (.error "read frame header", [])

/-- The text for a payload that is cut short. -/
def Wire.cut : Wire → String
  | .iroh => "read payload"
  | .io => "read frame payload"

theorem irohReadFrame_eq (stream : List UInt8) :
    irohReadFrame stream = readFrameWith "read payload" stream := by
  unfold irohReadFrame irohReadFrameWithLimit
  rcases stream with _ | ⟨t, _ | ⟨a, _ | ⟨b, _ | ⟨c, _ | ⟨d, stream⟩⟩⟩⟩⟩ <;> try rfl
  simp only [readLength, readFrameWith]
  cases hsplit : splitHeader t a b c d with
  | error error => rfl
  | ok header =>
    obtain ⟨tag, n⟩ := header
    -- `split_header` has checked the length already
    have hlen := (splitHeader_eq_ok.1 hsplit).2.2
    by_cases hn : n ≤ stream.length
    · simp [readExact, hlen, hn]
    · simp [readExact, hlen, hn]

theorem ioReadFrame_eq (stream : List UInt8) :
    ioReadFrame stream = readFrameWith "read frame payload" stream := by
  unfold ioReadFrame
  rcases stream with _ | ⟨t, _ | ⟨a, _ | ⟨b, _ | ⟨c, _ | ⟨d, stream⟩⟩⟩⟩⟩ <;> try rfl
  simp only [readLength, readFrameWith]
  cases hsplit : splitHeader t a b c d with
  | error error => rfl
  | ok header =>
    obtain ⟨tag, n⟩ := header
    by_cases hn : n ≤ stream.length
    · simp [readExact, hn]
    · simp [readExact, hn]

theorem Wire.readFrame_eq (wire : Wire) (stream : List UInt8) :
    wire.readFrame stream = readFrameWith wire.cut stream := by
  cases wire with
  | iroh => exact irohReadFrame_eq stream
  | io => exact ioReadFrame_eq stream

/-- A call leaves the same and has the same kind of result in either module. -/
theorem Wire.readFrame_agree (wire wire' : Wire) (stream : List UInt8) :
    (wire.readFrame stream).2 = (wire'.readFrame stream).2 ∧
      kind (wire.readFrame stream).1 = kind (wire'.readFrame stream).1 := by
  simp only [Wire.readFrame_eq]
  rcases stream with _ | ⟨t, _ | ⟨a, _ | ⟨b, _ | ⟨c, _ | ⟨d, stream⟩⟩⟩⟩⟩ <;> try exact ⟨rfl, rfl⟩
  simp only [readFrameWith]
  cases hsplit : splitHeader t a b c d with
  | error error => exact ⟨rfl, rfl⟩
  | ok header =>
    by_cases hn : header.2 ≤ stream.length
    · simp [hn]
    · simp [hn, kind, Except.mapError]

theorem Wire.readFrame_nil (wire : Wire) : wire.readFrame [] = (.ok none, []) := by
  rw [Wire.readFrame_eq]
  rfl

variable {frame : Frame}

/-- A frame at the front is taken, and no more. -/
theorem Wire.readFrame_encode (wire : Wire) (h : frame.payload.length ≤ maxFrame)
    (stream : List UInt8) :
    wire.readFrame (encode frame ++ stream) = (.ok (some frame), stream) := by
  rw [Wire.readFrame_eq]
  simp only [encode, toLeBytes, List.cons_append, List.nil_append, readFrameWith, splitHeader_header h]
  rw [if_pos (by simp)]
  simp

variable {stream : List UInt8}

/-- `Ok(None)` is the end of the stream. -/
theorem Wire.readFrame_none {wire : Wire} (h : (wire.readFrame stream).1 = .ok none) :
    stream = [] := by
  rw [Wire.readFrame_eq] at h
  rcases stream with _ | ⟨t, _ | ⟨a, _ | ⟨b, _ | ⟨c, _ | ⟨d, stream⟩⟩⟩⟩⟩
  · rfl
  · simp [readFrameWith] at h
  · simp [readFrameWith] at h
  · simp [readFrameWith] at h
  · simp [readFrameWith] at h
  · simp only [readFrameWith] at h
    split at h
    · simp at h
    · split at h <;> simp at h

/-- A frame that is returned was at the front. -/
theorem Wire.readFrame_some {wire : Wire} (h : (wire.readFrame stream).1 = .ok (some frame)) :
    frame.payload.length ≤ maxFrame ∧ stream = encode frame ++ (wire.readFrame stream).2 := by
  rw [Wire.readFrame_eq] at h ⊢
  rcases stream with _ | ⟨t, _ | ⟨a, _ | ⟨b, _ | ⟨c, _ | ⟨d, stream⟩⟩⟩⟩⟩
  · simp [readFrameWith] at h
  · simp [readFrameWith] at h
  · simp [readFrameWith] at h
  · simp [readFrameWith] at h
  · simp [readFrameWith] at h
  · simp only [readFrameWith] at h ⊢
    cases hsplit : splitHeader t a b c d with
    | error error => simp [hsplit] at h
    | ok header =>
      obtain ⟨tag, n⟩ := header
      obtain ⟨htag, hbytes, hlen⟩ := splitHeader_eq_ok.1 hsplit
      simp only [hsplit] at h ⊢
      by_cases hn : n ≤ stream.length
      · simp only [if_pos hn] at h ⊢
        cases Except.ok.inj h
        have htake : (stream.take n).length = n := by simp [hn]
        refine ⟨by simpa [htake] using hlen, ?_⟩
        simp only [encode, htake, hbytes, htag]
        simp
      · simp [hn] at h

/-! ## Successive calls -/

theorem Wire.readFrames_agree (wire wire' : Wire) (n : Nat) (stream : List UInt8) :
    (wire.readFrames n stream).2 = (wire'.readFrames n stream).2 ∧
      (wire.readFrames n stream).1.map kind = (wire'.readFrames n stream).1.map kind := by
  induction n generalizing stream with
  | zero => exact ⟨rfl, rfl⟩
  | succ n ih =>
    obtain ⟨hrest, hkind⟩ := wire.readFrame_agree wire' stream
    obtain ⟨hlater, hkinds⟩ := ih (wire'.readFrame stream).2
    simp only [Wire.readFrames, List.map_cons, hrest, hkind, hlater, hkinds, and_self]

variable {frames : List Frame}

/-- The frames of a stream of frames are returned one after another. -/
theorem Wire.readFrames_encode (wire : Wire) (h : ∀ frame ∈ frames, frame.payload.length ≤ maxFrame) :
    wire.readFrames (frames.length + 1) (frames.flatMap encode) =
      (frames.map (fun frame => .ok (some frame)) ++ [.ok none], []) := by
  induction frames with
  | nil => simp [Wire.readFrames, Wire.readFrame_nil]
  | cons first later ih =>
    obtain ⟨hfirst, hlater⟩ := List.forall_mem_cons.1 h
    rw [List.length_cons, Wire.readFrames, List.flatMap_cons, wire.readFrame_encode hfirst]
    simp [ih hlater]

/-- Frames and then `Ok(None)` are returned for nothing but the encodings of these frames. -/
theorem Wire.encode_of_readFrames {wire : Wire}
    (h : (wire.readFrames (frames.length + 1) stream).1 = frames.map (fun frame => .ok (some frame)) ++ [.ok none]) :
    (∀ frame ∈ frames, frame.payload.length ≤ maxFrame) ∧ stream = frames.flatMap encode := by
  induction frames generalizing stream with
  | nil =>
    have hnone : (wire.readFrame stream).1 = .ok none := by simpa [Wire.readFrames] using h
    exact ⟨by simp, Wire.readFrame_none hnone⟩
  | cons first later ih =>
    rw [List.length_cons, Wire.readFrames, List.map_cons, List.cons_append, List.cons.injEq] at h
    obtain ⟨hlen, hstream⟩ := Wire.readFrame_some h.1
    obtain ⟨hlens, hrest⟩ := ih h.2
    refine ⟨List.forall_mem_cons.2 ⟨hlen, hlens⟩, ?_⟩
    rw [List.flatMap_cons, ← hrest]
    exact hstream

/-! ## Calls that are polled -/

theorem poll_payload {t a b c d : UInt8} {n : Nat} (hsplit : splitHeader t a b c d = .ok (tag, n))
    (payload arrived : List UInt8) (hlt : payload.length < n) :
    Framing.poll (stage maxFrame) (t :: a :: b :: c :: d :: payload) arrived =
      if n ≤ payload.length + arrived.length then
        .ready (.ok ⟨tag, payload ++ arrived.take (n - payload.length)⟩)
          (arrived.drop (n - payload.length))
      else .pending (t :: a :: b :: c :: d :: (payload ++ arrived)) := by
  have hlen := (splitHeader_eq_ok.1 hsplit).2.2
  induction arrived generalizing payload with
  | nil =>
    rw [if_neg (by simpa using hlt), List.append_nil]
    rfl
  | cons e arrived ih =>
    have hstage : stage maxFrame (t :: a :: b :: c :: d :: payload ++ [e]) =
        if payload.length + 1 < n then .more else .done ⟨tag, payload ++ [e]⟩ := by
      simp only [List.cons_append, stage, hsplit]
      rw [if_neg (by omega)]
      simp
    rw [Framing.poll, hstage]
    by_cases hmore : payload.length + 1 < n
    · rw [if_pos hmore]
      simp only [List.cons_append]
      rw [ih (payload ++ [e]) (by simpa using hmore)]
      have hstep : n - payload.length = n - (payload.length + 1) + 1 := by omega
      simp only [List.length_append, List.length_cons, List.length_nil, List.append_assoc,
        List.cons_append, List.nil_append, hstep, List.take_succ_cons, List.drop_succ_cons]
      rw [show payload.length + (0 + 1) + arrived.length = payload.length + (arrived.length + 1) by
        omega]
    · obtain rfl : n = payload.length + 1 := by omega
      rw [if_neg hmore, if_pos (by simp)]
      simp

/-- Polling `read_frame` when all bytes of the stream are there is the call. -/
theorem Reader.poll_arrived (wire : Wire) (stream : List UInt8) :
    Reader.poll wire ⟨[], stream, [], true⟩ =
      (⟨[], (wire.readFrame stream).2, [], true⟩, some (wire.readFrame stream).1) := by
  rw [Wire.readFrame_eq]
  rcases stream with _ | ⟨t, _ | ⟨a, _ | ⟨b, _ | ⟨c, _ | ⟨d, stream⟩⟩⟩⟩⟩ <;> try rfl
  -- four bytes are no header yet
  simp only [Reader.poll, Framing.poll, List.nil_append, List.cons_append, stage, readFrameWith]
  cases hsplit : splitHeader t a b c d with
  | error error => simp [Except.map]
  | ok header =>
    obtain ⟨tag, n⟩ := header
    have hlen := (splitHeader_eq_ok.1 hsplit).2.2
    by_cases hzero : n = 0
    · subst hzero
      simp [Except.map]
    · have hpositive : ([] : List UInt8).length < n := Nat.pos_of_ne_zero hzero
      simp only [if_neg (Nat.not_lt.2 hlen), if_pos hpositive, poll_payload hsplit [] stream hpositive]
      by_cases hn : n ≤ stream.length
      · simp [hn, Except.map]
      · cases wire with
        | iroh => simp [hn, Wire.atEnd, Wire.cut]
        | io => simp [hn, Wire.atEnd, Wire.cut]

/-! ## One format -/

def Wire.writeFrames (wire : Wire) (frames : List Frame) : Except String (List UInt8) :=
  foldAll wire.writeFrame [] frames

theorem Wire.writeFrame_eq (wire : Wire) (written : List UInt8) (frame : Frame) :
    wire.writeFrame written frame = (Transport.writeFrame frame).map (fun piece => written ++ piece) := by
  cases wire with
  | iroh =>
    cases hheader : header frame.tag frame.payload.length <;>
      simp [Wire.writeFrame, irohWriteFrame, Transport.writeFrame, hheader, Except.map, pure,
        Except.pure]
  | io =>
    cases hheader : header frame.tag frame.payload.length <;>
      simp [Wire.writeFrame, ioWriteFrame, Transport.writeFrame, hheader, Except.map, pure,
        Except.pure]

theorem Wire.writeFrame_ok (wire : Wire) (written : List UInt8)
    (h : frame.payload.length ≤ maxFrame) :
    wire.writeFrame written frame = .ok (written ++ encode frame) := by
  rw [Wire.writeFrame_eq, writeFrame_eq_ok.2 ⟨h, rfl⟩]
  rfl

/-- Frames that are not too long are written as their encodings. -/
theorem Wire.writeFrames_ok (wire : Wire) (written : List UInt8)
    (h : ∀ frame ∈ frames, frame.payload.length ≤ maxFrame) :
    foldAll wire.writeFrame written frames = .ok (written ++ frames.flatMap encode) := by
  induction frames generalizing written with
  | nil => simp [foldAll]
  | cons first later ih =>
    obtain ⟨hfirst, hlater⟩ := List.forall_mem_cons.1 h
    rw [foldAll, wire.writeFrame_ok written hfirst, ok_bind, ih _ hlater, List.flatMap_cons,
      List.append_assoc]

/-- The streams that do not start with a frame, and are not at their end either. -/
inductive Broken : List UInt8 → Prop
  | header (stream : List UInt8) (nonempty : stream ≠ []) (short : stream.length < 5) : Broken stream
  | tag (t a b c d : UInt8) (stream : List UInt8) (unknown : ∀ tag : FrameTag, tag.toByte ≠ t) :
      Broken (t :: a :: b :: c :: d :: stream)
  | length (t a b c d : UInt8) (stream : List UInt8) (long : maxFrame < fromLeBytes a b c d) :
      Broken (t :: a :: b :: c :: d :: stream)
  | payload (t a b c d : UInt8) (stream : List UInt8) (short : stream.length < fromLeBytes a b c d) :
      Broken (t :: a :: b :: c :: d :: stream)

/-- A stream that starts with a frame is not broken. -/
theorem not_broken_encode (h : frame.payload.length ≤ maxFrame) (rest : List UInt8) :
    ¬ Broken (encode frame ++ rest) := by
  have hn := fromLeBytes_toLeBytes (lt_of_le_maxFrame h)
  intro hbroken
  generalize hstream : encode frame ++ rest = stream at hbroken
  simp only [encode, toLeBytes, List.cons_append, List.nil_append] at hstream
  cases hbroken with
  | header _ _ hshort =>
    rw [← hstream] at hshort
    simp at hshort
    omega
  | tag t a b c d stream hunknown =>
    exact hunknown frame.tag (List.cons.inj hstream).1
  | length t a b c d stream hlong =>
    simp only [List.cons.injEq] at hstream
    obtain ⟨-, rfl, rfl, rfl, rfl, -⟩ := hstream
    omega
  | payload t a b c d stream hshort =>
    simp only [List.cons.injEq] at hstream
    obtain ⟨-, rfl, rfl, rfl, rfl, rfl⟩ := hstream
    rw [hn, List.length_append] at hshort
    omega

/-- `read_frame` fails on broken streams, and on no others. -/
theorem Wire.readFrame_error_iff (wire : Wire) (stream : List UInt8) :
    (∃ error, (wire.readFrame stream).1 = .error error) ↔ Broken stream := by
  constructor
  · rintro ⟨error, h⟩
    rw [Wire.readFrame_eq] at h
    by_cases hshort : stream.length < 5
    · refine .header stream ?_ hshort
      rintro rfl
      simp [readFrameWith] at h
    obtain ⟨t, a, b, c, d, rest, rfl⟩ : ∃ t a b c d rest, stream = t :: a :: b :: c :: d :: rest := by
      rcases stream with _ | ⟨t, _ | ⟨a, _ | ⟨b, _ | ⟨c, _ | ⟨d, rest⟩⟩⟩⟩⟩ <;> simp at hshort ⊢
    by_cases htag : ∃ tag : FrameTag, tag.toByte = t
    · obtain ⟨tag, rfl⟩ := htag
      by_cases hlong : maxFrame < fromLeBytes a b c d
      · exact .length _ a b c d rest hlong
      · have hsplit : splitHeader tag.toByte a b c d = .ok (tag, fromLeBytes a b c d) :=
          splitHeader_eq_ok.2 ⟨rfl, toLeBytes_fromLeBytes a b c d, by omega⟩
        refine .payload _ a b c d rest (Nat.lt_of_not_le (fun hn => ?_))
        simp [readFrameWith, hsplit, hn] at h
    · exact .tag t a b c d rest (fun tag heq => htag ⟨tag, heq⟩)
  · intro hbroken
    cases h : (wire.readFrame stream).1 with
    | error error => exact ⟨error, rfl⟩
    | ok result =>
      cases result with
      | none =>
        obtain rfl := Wire.readFrame_none h
        cases hbroken with
        | header _ hnonempty _ => exact absurd rfl hnonempty
      | some frame =>
        obtain ⟨hlen, hstream⟩ := Wire.readFrame_some h
        rw [hstream] at hbroken
        exact absurd hbroken (not_broken_encode hlen _)

/-- **The two transports implement one format.** Whatever list of frames one module writes, the other
    reads back, and then `Ok(None)`. On every byte string, successive calls in either module have the same
    kinds of results and leave the same. After frames, `Ok(None)` is returned at the end of their
    encodings only; an end anywhere else, an unknown tag and a length above `MAX_FRAME` are errors. A call
    that is polled when all bytes have arrived returns and leaves the same. -/
theorem transports_implement_one_format :
    (∀ (writer reader : Wire) (frames : List Frame),
      (∀ frame ∈ frames, frame.payload.length ≤ maxFrame) →
      ∃ stream, writer.writeFrames frames = .ok stream ∧
        reader.readFrames (frames.length + 1) stream =
          (frames.map (fun frame => .ok (some frame)) ++ [.ok none], [])) ∧
    (∀ (n : Nat) (stream : List UInt8),
      (Wire.iroh.readFrames n stream).2 = (Wire.io.readFrames n stream).2 ∧
        (Wire.iroh.readFrames n stream).1.map kind = (Wire.io.readFrames n stream).1.map kind) ∧
    (∀ (wire : Wire) (frames : List Frame) (stream : List UInt8),
      (wire.readFrames (frames.length + 1) stream).1 =
        frames.map (fun frame => .ok (some frame)) ++ [.ok none] →
      stream = frames.flatMap encode) ∧
    ∀ (wire : Wire) (stream : List UInt8),
      ((wire.readFrame stream).1 = .ok none ↔ stream = []) ∧
        ((∃ error, (wire.readFrame stream).1 = .error error) ↔ Broken stream) ∧
        Reader.poll wire ⟨[], stream, [], true⟩ =
          (⟨[], (wire.readFrame stream).2, [], true⟩, some (wire.readFrame stream).1) := by
  refine ⟨fun writer reader frames h => ?_, Wire.readFrames_agree .iroh .io,
    fun wire frames stream h => ?_,
    fun wire stream => ⟨⟨Wire.readFrame_none, ?_⟩, wire.readFrame_error_iff stream,
      Reader.poll_arrived wire stream⟩⟩
  · exact ⟨frames.flatMap encode, writer.writeFrames_ok [] h, reader.readFrames_encode h⟩
  · exact (Wire.encode_of_readFrames h).2
  · rintro rfl
    rw [Wire.readFrame_nil]

/-- What the daemon writes on a stream to the Edge is read there. -/
theorem two_frames_are_read_back :
    ∃ stream, Wire.io.writeFrames [⟨.start, [1, 2]⟩, ⟨.data, []⟩] = .ok stream ∧
      Wire.iroh.readFrames 3 stream =
        ([.ok (some ⟨.start, [1, 2]⟩), .ok (some ⟨.data, []⟩), .ok none], []) :=
  transports_implement_one_format.1 .io .iroh [⟨.start, [1, 2]⟩, ⟨.data, []⟩] (by decide)

end AgentScale.Transport
