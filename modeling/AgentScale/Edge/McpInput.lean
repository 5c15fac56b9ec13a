import AgentScale.Library.Lines
import AgentScale.Transport.ReadFrame

set_option autoImplicit false

/-! # Messages from the MCP client

`read_message` of the HTTP bridge: it takes newline-delimited messages from `T_DATA` frames, with a buffer
that is kept from call to call. A newline is `10`, a carriage return `13`. -/

namespace AgentScale.Edge

open Checked Transport Lines

def maxMessageBytes : Nat := 16 * 1024 * 1024

/-- Remove one trailing carriage return. -/
def stripCr (line : List UInt8) : List UInt8 :=
  if line.getLast? = some 13 then line.dropLast else line

def messageTooLong : String := "MCP message exceeds " ++ toString maxMessageBytes ++ " bytes"

/-- A frame that has been read is no longer on the stream. -/
theorem length_of_readFrame {wire : Wire} {recv rest : List UInt8} {frame : Frame}
    (h : wire.readFrame recv = (.ok (some frame), rest)) : rest.length < recv.length := by
  have hsome : (wire.readFrame recv).1 = .ok (some frame) := by rw [h]
  have hrecv := (Wire.readFrame_some hsome).2
  rw [h] at hrecv
  rw [hrecv, encode, List.length_append, List.length_append, List.length_cons]
  dsimp only
  omega

variable {buf : List UInt8}

theorem length_of_line (h : 10 ∈ buf) :
    (buf.dropWhile (· ≠ 10)).tail.length < buf.length := by
  have hle := (List.dropWhile_sublist (fun b : UInt8 => b ≠ 10) (l := buf)).length_le
  have hpositive := List.length_pos_of_mem h
  rw [List.length_tail]
  omega

/-- `read_message`: the result, what is left on the stream, and the buffer. -/
def readMessage (recv buf : List UInt8) :
    Except String (Option (List UInt8)) × List UInt8 × List UInt8 :=
  if 10 ∈ buf then
    let line := stripCr (buf.takeWhile (· ≠ 10))
    let rest := (buf.dropWhile (· ≠ 10)).tail
    if line = [] then readMessage recv rest else (.ok (some line), recv, rest)
  else
    match _hread : Wire.iroh.readFrame recv with
    | (.error error, recv) => (.error error, recv, buf)
    | (.ok (some ⟨.data, chunk⟩), recv) =>
      if U64.saturatingAdd buf.length chunk.length ≤ maxMessageBytes then
        readMessage recv (buf ++ chunk)
      else (.error messageTooLong, recv, buf)
    | (.ok _, recv) => if buf = [] then (.ok none, recv, []) else (.ok (some buf), recv, [])
termination_by (recv.length, buf.length)
decreasing_by
  · exact Prod.Lex.right _ (length_of_line (by assumption))
  · exact Prod.Lex.left _ _ (length_of_readFrame _hread)

/-- The results of successive calls of `read_message`. -/
def readMessages : Nat → List UInt8 → List UInt8 → List (Except String (Option (List UInt8)))
  | 0, _, _ => []
  | n + 1, recv, buf =>
    let call := readMessage recv buf
    call.1 :: readMessages n call.2.1 call.2.2

/-! ## What a call does -/

/-- The buffer holds the end of a line. -/
theorem readMessage_line (recv : List UInt8) {line : List UInt8} (h : 10 ∉ line) (rest : List UInt8) :
    readMessage recv (line ++ 10 :: rest) =
      if stripCr line = [] then readMessage recv rest else (.ok (some (stripCr line)), recv, rest) := by
  have hpos : ∀ b ∈ line, decide (b ≠ 10) = true := by
    intro b hb
    exact decide_eq_true (fun heq => h (heq ▸ hb))
  rw [readMessage, if_pos (by simp)]
  simp only [List.takeWhile_append_of_pos hpos, List.dropWhile_append_of_pos hpos]
  simp

/-- The buffer holds no whole line, and a frame comes. -/
theorem readMessage_frame (h : 10 ∉ buf) {chunk : List UInt8} (hchunk : chunk.length ≤ maxFrame)
    (recv : List UInt8) :
    readMessage (encode ⟨.data, chunk⟩ ++ recv) buf =
      if buf.length + chunk.length ≤ maxMessageBytes then readMessage recv (buf ++ chunk)
      else (.error messageTooLong, recv, buf) := by
  have hframe : (⟨.data, chunk⟩ : Frame).payload.length ≤ maxFrame := hchunk
  have hread := Wire.iroh.readFrame_encode hframe recv
  have hlimit : U64.saturatingAdd buf.length chunk.length ≤ maxMessageBytes ↔
      buf.length + chunk.length ≤ maxMessageBytes := by
    simp only [U64.saturatingAdd, U64.maxValue, maxMessageBytes]
    omega
  rw [readMessage, if_neg h]
  split
  · next error rest heq =>
    rw [hread] at heq
    cases heq
  · next chunk' rest heq =>
    rw [hread] at heq
    cases heq
    simp only [hlimit]
  · next result rest hother heq =>
    rw [hread] at heq
    cases heq
    exact absurd rfl (hother chunk)

/-- The buffer holds no whole line, and nothing comes. -/
theorem readMessage_end (h : 10 ∉ buf) :
    readMessage [] buf = if buf = [] then (.ok none, [], []) else (.ok (some buf), [], []) := by
  have hread := Wire.iroh.readFrame_nil
  rw [readMessage, if_neg h]
  split
  · next error rest heq =>
    rw [hread] at heq
    cases heq
  · next chunk rest heq =>
    rw [hread] at heq
    cases heq
  · next result rest hother heq =>
    rw [hread] at heq
    cases heq
    rfl

/-! ## Messages -/

/-- What `read_message` is to return for a stream: its lines without their carriage returns, and what
    comes after the last of them, without what is empty. -/
def messages (stream : List UInt8) : List (List UInt8) :=
  ((complete 10 stream).map stripCr ++ [unterminated 10 stream]).filter (· ≠ [])

theorem messages_last {l : List UInt8} (h : 10 ∉ l) : messages l = if l = [] then [] else [l] := by
  simp only [messages, complete_of_not_mem h, unterminated_of_not_mem h]
  by_cases hl : l = []
  · simp [hl]
  · simp [hl]

theorem messages_line {line : List UInt8} (h : 10 ∉ line) (rest : List UInt8) :
    messages (line ++ 10 :: rest) =
      if stripCr line = [] then messages rest else stripCr line :: messages rest := by
  by_cases hl : stripCr line = []
  · simp [messages, complete_append_cons h, hl]
  · simp [messages, complete_append_cons h, hl]

/-- The bytes of `T_DATA` frames. -/
def dataFrames (chunks : List (List UInt8)) : List UInt8 :=
  chunks.flatMap (fun chunk => encode ⟨.data, chunk⟩)

/-- With these bytes since the last newline, every frame that comes is within the limit when it is
    appended to the bytes since the newline before it. -/
def Fits (since : List UInt8) : List (List UInt8) → Prop
  | [] => True
  | chunk :: chunks =>
    since.length + chunk.length ≤ maxMessageBytes ∧ Fits (unterminated 10 (since ++ chunk)) chunks

/-- One call with these frames on the stream: it returns the next message, or `None` when there is none;
    or it fails, and then some frame is not within the limit. -/
inductive Called (chunks : List (List UInt8)) (buf : List UInt8) : Prop
  | failed (error : String) (rest : List UInt8 × List UInt8)
      (call : readMessage (dataFrames chunks) buf = (.error error, rest))
      (unfit : ¬ Fits (unterminated 10 buf) chunks)
  | returned (chunks' : List (List UInt8)) (buf' : List UInt8)
      (call : readMessage (dataFrames chunks) buf =
        (.ok (messages (buf ++ chunks.flatten)).head?, dataFrames chunks', buf'))
      (frames : ∀ chunk ∈ chunks', chunk.length ≤ maxFrame)
      (later : messages (buf' ++ chunks'.flatten) = (messages (buf ++ chunks.flatten)).tail)
      (ended : messages (buf ++ chunks.flatten) = [] → chunks' = [])
      (fits : Fits (unterminated 10 buf') chunks' ↔ Fits (unterminated 10 buf) chunks)

variable {chunks : List (List UInt8)}

/-- A line at the front of the buffer is returned, or skipped if it is empty. -/
theorem Called.line (hchunks : ∀ chunk ∈ chunks, chunk.length ≤ maxFrame) {line rest : List UInt8}
    (hline : 10 ∉ line) (h : Called chunks rest) :
    Called chunks (line ++ 10 :: rest) := by
  have hmessages : messages (line ++ 10 :: rest ++ chunks.flatten) =
      if stripCr line = [] then messages (rest ++ chunks.flatten)
      else stripCr line :: messages (rest ++ chunks.flatten) := by
    rw [List.append_assoc, List.cons_append, messages_line hline]
  have hcall := readMessage_line (dataFrames chunks) hline rest
  by_cases hempty : stripCr line = []
  · rw [if_pos hempty] at hmessages hcall
    cases h with
    | failed error after call unfit =>
      exact .failed error after (hcall.trans call) (by rwa [unterminated_append_cons])
    | returned chunks' buf' call frames later ended fits =>
      rw [← hmessages] at call later ended
      exact .returned chunks' buf' (hcall.trans call) frames later ended
        (by rwa [unterminated_append_cons])
  · rw [if_neg hempty] at hmessages hcall
    refine .returned chunks rest ?_ hchunks ?_ ?_ ?_
    · rw [hcall, hmessages, List.head?_cons]
    · rw [hmessages, List.tail_cons]
    · rw [hmessages]
      intro hnil
      cases hnil
    · rw [unterminated_append_cons]

/-- Without a whole line in the buffer, the next frame is read. -/
theorem Called.frame {chunk : List UInt8} (hchunk : chunk.length ≤ maxFrame) (hbuf : 10 ∉ buf)
    (h : Called chunks (buf ++ chunk)) : Called (chunk :: chunks) buf := by
  have hcall := readMessage_frame hbuf hchunk (dataFrames chunks)
  have hframes : encode ⟨.data, chunk⟩ ++ dataFrames chunks = dataFrames (chunk :: chunks) := by
    simp [dataFrames]
  have hstream : buf ++ (chunk :: chunks).flatten = buf ++ chunk ++ chunks.flatten := by simp
  rw [hframes] at hcall
  by_cases hlimit : buf.length + chunk.length ≤ maxMessageBytes
  · have hfits : Fits (unterminated 10 (buf ++ chunk)) chunks ↔
        Fits (unterminated 10 buf) (chunk :: chunks) := by
      simp [Fits, unterminated_of_not_mem hbuf, hlimit]
    rw [if_pos hlimit] at hcall
    cases h with
    | failed error after call unfit => exact .failed error after (hcall.trans call) (by rwa [← hfits])
    | returned chunks' buf' call frames later ended fits =>
      rw [← hstream] at call later ended
      exact .returned chunks' buf' (hcall.trans call) frames later ended (fits.trans hfits)
  · -- the limit is tested against the whole frame, wherever its first newline is
    rw [if_neg hlimit] at hcall
    refine .failed _ _ hcall ?_
    simp [Fits, unterminated_of_not_mem hbuf, hlimit]

/-- At the end of the stream, what is left is a message, if there is anything. -/
theorem Called.last (hbuf : 10 ∉ buf) : Called [] buf := by
  have hmessages : messages (buf ++ [].flatten) = if buf = [] then [] else [buf] := by
    rw [List.flatten_nil, List.append_nil, messages_last hbuf]
  refine .returned [] [] ?_ (by simp) ?_ (fun _ => rfl) (by simp [Fits])
  · rw [hmessages, dataFrames, List.flatMap_nil, readMessage_end hbuf]
    by_cases hempty : buf = []
    · simp [hempty]
    · simp [hempty]
  · rw [hmessages]
    by_cases hempty : buf = []
    · simp [hempty, messages_last]
    · simp [hempty, messages_last]

theorem called (hchunks : ∀ chunk ∈ chunks, chunk.length ≤ maxFrame) (buf : List UInt8) :
    Called chunks buf := by
  -- on the frames, and for each of them on the lines that are in the buffer already
  induction chunks generalizing buf with
  | nil =>
    induction buf using Lines.induct (a := (10 : UInt8)) with
    | last buf hbuf => exact .last hbuf
    | line line rest hline ih => exact ih.line hchunks hline
  | cons chunk chunks ih =>
    obtain ⟨hchunk, hlater⟩ := List.forall_mem_cons.1 hchunks
    induction buf using Lines.induct (a := (10 : UInt8)) with
    | last buf hbuf => exact .frame hchunk hbuf (ih hlater (buf ++ chunk))
    | line line rest hline ih => exact ih.line hchunks hline

/-! ## Successive calls -/

/-- The messages are returned one after another, and then `None`, exactly if all frames are within the
    limit. -/
theorem readMessages_iff (hchunks : ∀ chunk ∈ chunks, chunk.length ≤ maxFrame) (buf : List UInt8) :
    readMessages ((messages (buf ++ chunks.flatten)).length + 1) (dataFrames chunks) buf =
        (messages (buf ++ chunks.flatten)).map (fun message => .ok (some message)) ++ [.ok none] ↔
      Fits (unterminated 10 buf) chunks := by
  -- on the messages that are still to come: each call takes the first of them
  induction hmessages : messages (buf ++ chunks.flatten) generalizing chunks buf with
  | nil =>
    cases called hchunks buf with
    | failed error after call unfit => simp [readMessages, call, unfit]
    | returned chunks' buf' call frames later ended fits =>
      obtain rfl := ended hmessages
      rw [← fits]
      simp [readMessages, call, hmessages, Fits]
  | cons first others ih =>
    cases called hchunks buf with
    | failed error after call unfit => simp [readMessages, call, unfit]
    | returned chunks' buf' call frames later ended fits =>
      rw [hmessages, List.tail_cons] at later
      rw [← fits, ← ih frames buf' later]
      simp [readMessages, call, hmessages]

/-- All frames are within the limit, in terms of the stream. -/
theorem fits_iff (stream : List UInt8) :
    Fits (unterminated 10 stream) chunks ↔ ∀ before chunk after, chunks = before ++ chunk :: after →
      (unterminated 10 (stream ++ before.flatten)).length + chunk.length ≤ maxMessageBytes := by
  induction chunks generalizing stream with
  | nil => simp [Fits]
  | cons first chunks ih =>
    rw [Fits, unterminated_append, ih (stream ++ first)]
    constructor
    · rintro ⟨hfirst, hlater⟩ before chunk after heq
      cases before with
      | nil =>
        obtain ⟨rfl, rfl⟩ := List.cons.inj heq
        simpa using hfirst
      | cons b before =>
        obtain ⟨rfl, hrest⟩ := List.cons.inj heq
        simpa using hlater before chunk after hrest
    · intro h
      refine ⟨by simpa using h [] first chunks rfl, fun before chunk after heq => ?_⟩
      simpa using h (first :: before) chunk after (by rw [heq, List.cons_append])

/-- **MCP input is split into messages independently of framing** exactly if no frame exceeds
    `MAX_MESSAGE_BYTES` together with the bytes since the last newline before it: then successive calls
    return the messages of the stream in order, and then `None`. -/
theorem messages_are_independent_of_framing (chunks : List (List UInt8))
    (hchunks : ∀ chunk ∈ chunks, chunk.length ≤ maxFrame) :
    readMessages ((messages chunks.flatten).length + 1) (dataFrames chunks) [] =
        (messages chunks.flatten).map (fun message => .ok (some message)) ++ [.ok none] ↔
      ∀ before chunk after, chunks = before ++ chunk :: after →
        (unterminated 10 before.flatten).length + chunk.length ≤ maxMessageBytes := by
  exact (readMessages_iff hchunks []).trans (fits_iff [])

/-- Two messages over three frames, with a carriage return and its newline in different frames. -/
theorem split_line_end_is_read :
    readMessages 3 (dataFrames [[97, 13], [10, 98], [99]]) [] =
      [.ok (some [97]), .ok (some [98, 99]), .ok none] :=
  (messages_are_independent_of_framing [[97, 13], [10, 98], [99]] (by decide)).2
    ((fits_iff []).1 ⟨by decide, by decide, by decide, trivial⟩)

/-! ## One stream in two framings -/

theorem unterminated_newlines (l : List UInt8) (n : Nat) :
    unterminated 10 (l ++ List.replicate (n + 1) 10) = [] := by
  rw [List.replicate_succ', ← List.append_assoc, unterminated_append_cons]
  rfl

theorem segments_newlines (n : Nat) :
    ∀ segment ∈ (List.replicate n (10 : UInt8)).splitOn 10, segment = [] := by
  induction n with
  | zero => simp
  | succ n ih => simpa [List.replicate_succ, List.splitOn_cons_eq_if_modifyHead] using ih

/-- A message of one byte and many newlines. If the first frame ends after the message, the second
    one is too long; if it ends later, both are read. -/
theorem messages_depend_on_framing : ∃ chunks chunks' : List (List UInt8),
    chunks.flatten = chunks'.flatten ∧
      (∀ chunk ∈ chunks, chunk.length ≤ maxFrame) ∧ (∀ chunk ∈ chunks', chunk.length ≤ maxFrame) ∧
      (∀ segment ∈ chunks.flatten.splitOn 10, segment.length ≤ maxMessageBytes) ∧
      (readMessage (dataFrames chunks) []).1 = .error messageTooLong ∧
      readMessages ((messages chunks'.flatten).length + 1) (dataFrames chunks') [] =
        (messages chunks'.flatten).map (fun message => .ok (some message)) ++ [.ok none] := by
  obtain ⟨n, hn, hframe⟩ : ∃ n, maxMessageBytes = n + 1 ∧ maxFrame = n + 1 := ⟨16777215, rfl, rfl⟩
  have hstream : [97] ++ List.replicate (n + 1) (10 : UInt8) = [97] ++ List.replicate n 10 ++ [10] := by
    rw [List.replicate_succ', List.append_assoc]
  have hframes : ∀ chunk ∈ [[97] ++ List.replicate n (10 : UInt8), [10]], chunk.length ≤ maxFrame := by
    simp [hframe]
  refine ⟨[[97], List.replicate (n + 1) 10], [[97] ++ List.replicate n 10, [10]], ?_, ?_, hframes, ?_, ?_,
    ?_⟩
  · simpa using hstream
  · simp [hframe]
  · intro segment hsegment
    have hsplit : ([97] ++ 10 :: List.replicate n (10 : UInt8)).splitOn 10 =
        [97] :: (List.replicate n (10 : UInt8)).splitOn 10 :=
      List.splitOn_append_cons_self_of_not_mem (by decide) _
    rw [show [[97], List.replicate (n + 1) (10 : UInt8)].flatten = [97] ++ 10 :: List.replicate n 10 by
      simp [List.replicate_succ], hsplit] at hsegment
    rcases List.mem_cons.1 hsegment with rfl | hlater
    · decide
    · simp [segments_newlines n segment hlater]
  · -- the buffer holds one byte when the second frame comes
    have hfirst := @readMessage_frame [] (by simp) [97] (by decide)
      (dataFrames [List.replicate (n + 1) 10])
    have hsecond := @readMessage_frame [97] (by decide) (List.replicate (n + 1) 10)
      (by simp [hframe]) (dataFrames [])
    rw [if_pos (by decide)] at hfirst
    rw [if_neg (by simp [hn])] at hsecond
    simp only [dataFrames, List.flatMap_cons, List.flatMap_nil, List.append_nil, List.nil_append]
      at hfirst hsecond ⊢
    rw [hfirst, hsecond]
  · refine (readMessages_iff hframes []).2 ⟨by simp [hn], ?_, trivial⟩
    cases n with
    | zero => simp [maxMessageBytes] at hn
    | succ n =>
      rw [unterminated_append]
      have hnone := unterminated_newlines [97] n
      simp only [List.nil_append, hnone]
      simp [maxMessageBytes]

end AgentScale.Edge
