import AgentScale.Edge.McpInput
import AgentScale.Library.Bytes
import AgentScale.Library.Lists
import Mathlib.Data.List.Forall2
import Mathlib.Data.List.TakeWhile

set_option autoImplicit false

/-! # Messages from an MCP server over HTTP

The output of the HTTP bridge. `streamable` forwards the response to each POST, a body or an event stream,
and next to it a task forwards the events of a GET; `legacy_sse` forwards the events of a GET only. All of
them push lines into one channel, which is written as frames to the MCP client. What reaches the bridge
from the server (responses, chunks, events and their errors) is input here. -/

namespace AgentScale.Edge

open Checked Transport Bytes

/-! ## The output channel -/

/-- `OutputSender::send`: what it puts into the channel. -/
def send (tag : FrameTag) (data : List UInt8) : Except String (List Frame) := do
  ensure (data.length ≤ maxMessageBytes) messageTooLong
  return [⟨tag, data⟩]

def pushLine (data : String) : Except String (List Frame) :=
  if data = "" then .ok [] else send .data (utf8 data ++ [10])

def pushError (error : String) : Except String (List Frame) := send .stderr (utf8 (error ++ "\n"))

/-- `let _ = tx.push_error(..).await`. -/
def tryPushError (error : String) : List Frame := (pushError error).toOption.getD []

/-! ## What the server sends -/

/-- A server-sent event. -/
structure Event where
  event : String
  data : String

/-- The response to a POST, by its content type. -/
inductive PostResponse where
  | failed (error : String)
  | events (items : List (Except String Event))
  | body (chunks : List (Except String (List UInt8)))

/-- The response to the GET of an event stream. -/
inductive GetResponse where
  | failed (error : String)
  | rejected
  | events (items : List (Except String Event))

/-! ## Forwarding -/

/-- What a task has put into the channel, and how it ended. -/
structure Forwarded where
  frames : List Frame
  result : Except String Unit

/-- A push that may fail. -/
def Forwarded.push : Except String (List Frame) → Forwarded
  | .ok frames => ⟨frames, .ok ()⟩
  | .error error => ⟨[], .error error⟩

/-- Go on unless there was an error. -/
def Forwarded.andThen (first later : Forwarded) : Forwarded :=
  match first.result with
  | .ok () => ⟨first.frames ++ later.frames, later.result⟩
  | .error error => ⟨first.frames, .error error⟩

/-- The loop of `streamable` over the events of a response. -/
def postEvents : List (Except String Event) → Forwarded
  | [] => ⟨[], .ok ()⟩
  | .ok ev :: items => (Forwarded.push (pushLine ev.data)).andThen (postEvents items)
  | .error e :: _ => ⟨tryPushError ("MCP SSE error: " ++ e), .ok ()⟩

def readBoundedBody (body : List UInt8) : List (Except String (List UInt8)) → Except String (List UInt8)
  | [] => .ok body
  | .error _ :: _ => .error "read MCP response body"
  | .ok chunk :: chunks =>
    if U64.saturatingAdd body.length chunk.length ≤ maxMessageBytes then
      readBoundedBody (body ++ chunk) chunks
    else .error ("MCP response exceeds " ++ toString maxMessageBytes ++ " bytes")

/-- `String::from_utf8_lossy`. `replaced` is the text it makes of bytes that are not UTF-8. -/
def fromUtf8Lossy (replaced : List UInt8 → String) (bytes : List UInt8) : String :=
  (fromUtf8 bytes).getD (replaced bytes)

/-- The body of a response. -/
def postBody (replaced : List UInt8 → String) (chunks : List (Except String (List UInt8))) : Forwarded :=
  match readBoundedBody [] chunks with
  | .ok body => if body = [] then ⟨[], .ok ()⟩ else .push (pushLine (fromUtf8Lossy replaced body))
  | .error e => ⟨tryPushError ("MCP response body error: " ++ e), .ok ()⟩

def streamable (replaced : List UInt8 → String) : List PostResponse → Forwarded
  | [] => ⟨[], .ok ()⟩
  | .failed e :: _ => ⟨tryPushError ("MCP POST failed: " ++ e), .ok ()⟩
  | .events items :: responses => (postEvents items).andThen (streamable replaced responses)
  | .body chunks :: responses => (postBody replaced chunks).andThen (streamable replaced responses)

/-- The loop of `spawn_get_sse`: an error ends it, but not the bridge. -/
def getEvents : List (Except String Event) → List Frame
  | [] => []
  | .ok ev :: items =>
    match pushLine ev.data with
    | .ok frames => frames ++ getEvents items
    | .error _ => []
  | .error e :: _ => tryPushError ("MCP GET-SSE error: " ++ e)

def getSse : GetResponse → List Frame
  | .failed e => tryPushError ("MCP GET-SSE failed: " ++ e)
  | .rejected => []
  | .events items => getEvents items

/-- The reader task of `legacy_sse`. The event that names the POST endpoint is not forwarded. -/
def legacySse : List (Except String Event) → List Frame
  | [] => []
  | .ok ev :: items =>
    if ev.event = "endpoint" then legacySse items
    else
      match pushLine ev.data with
      | .ok frames => frames ++ legacySse items
      | .error _ => []
  | .error _ :: _ => []

/-! ## The bridge -/

/-- The tasks that push into the channel. -/
inductive Source where
  | post
  | get
deriving DecidableEq

/-- A value for each of them. -/
def bySource {α : Type} (post get : α) : Source → α
  | .post => post
  | .get => get

/-- A bridge with what it has received from the server. -/
inductive Bridge where
  | streamable (responses : List PostResponse) (get : GetResponse)
  | legacySse (items : List (Except String Event))

/-- What each of its tasks pushes. -/
def Bridge.pushes (replaced : List UInt8 → String) : Bridge → Source → List Frame
  | .streamable responses _, .post => (Edge.streamable replaced responses).frames
  | .streamable _ get, .get => getSse get
  | .legacySse _, .post => []
  | .legacySse items, .get => Edge.legacySse items

/-- The pushes of a bridge in some order in which its tasks may have made them. The task of the GET is
    aborted when the loop over the POSTs has returned: it has then made the first `n` of its pushes. -/
def Bridge.Channel (replaced : List UInt8 → String) (b : Bridge) (n : Nat)
    (channel : List (Source × Frame)) : Prop :=
  ∀ source, (channel.filter (fun p => p.1 = source)).map Prod.snd =
    bySource (b.pushes replaced .post) ((b.pushes replaced .get).take n) source

def dataOutput (channel : List (Source × Frame)) : List UInt8 :=
  ((channel.map Prod.snd).filter (fun frame => frame.tag = .data)).flatMap Frame.payload

/-! ## Messages -/

/-- The messages in a response. -/
inductive PostResponse.Delivers : PostResponse → List String → Prop
  | events (events : List Event) : Delivers (.events (events.map .ok)) (events.map Event.data)
  | body (chunks : List (List UInt8)) (text : String) (whole : chunks.flatten = utf8 text) :
      Delivers (.body (chunks.map .ok)) [text]

inductive GetResponse.Delivers : GetResponse → List String → Prop
  | rejected : Delivers .rejected []
  | events (events : List Event) : Delivers (.events (events.map .ok)) (events.map Event.data)

/-- The messages that the server has delivered by each of the ways. -/
inductive Bridge.Delivers : Bridge → (Source → List String) → Prop
  | streamable (responses : List PostResponse) (posted : List (List String)) (get : GetResponse)
      (got : List String) (posts : List.Forall₂ PostResponse.Delivers responses posted)
      (gets : get.Delivers got) :
      Delivers (.streamable responses get) (bySource posted.flatten got)
  | legacySse (events : List Event) :
      Delivers (.legacySse (events.map .ok))
        (bySource [] ((events.filter (fun ev => ev.event ≠ "endpoint")).map Event.data))

/-- White space in JSON. -/
def isBlank (b : UInt8) : Bool := b = 32 || b = 9 || b = 10 || b = 13

/-- A parser of JSON texts: white space around a value is ignored, there is no value in nothing, and
    nothing but white space may come on the lines after a value. -/
structure JsonParser (Value : Type) where
  parse : List UInt8 → Option Value
  parse_space : ∀ before text after : List UInt8, (∀ b ∈ before ++ after, isBlank b = true) →
    parse (before ++ text ++ after) = parse text
  parse_nil : parse [] = none
  parse_after : ∀ text after : List UInt8, (parse text).isSome → (∃ b ∈ after, isBlank b = false) →
    parse (text ++ 10 :: after) = none

/-- The output consists of one line that is not empty for each message, in the order of each source, and
    the line parses to the same value. -/
def OneLineEach {Value : Type} (parser : JsonParser Value) (messages : Source → List String)
    (output : List UInt8) : Prop :=
  ∃ lines : List (Source × List UInt8), Lines.nonempty 10 output = lines.map Prod.snd ∧
    ∀ source, List.Forall₂ (fun message line => parser.parse line = parser.parse (utf8 message))
      (messages source) ((lines.filter (fun p => p.1 = source)).map Prod.snd)

/-! ## The pushes are the lines of the messages -/

/-- The frame in which a message is pushed. -/
def lineFrame (text : String) : Frame := ⟨.data, utf8 text ++ [10]⟩

/-- With its newline the text is within the limit of `send`. -/
def fits (text : String) : Bool := (utf8 text).length < maxMessageBytes

theorem pushLine_eq {text : String} (h : text ≠ "") :
    pushLine text = if fits text then .ok [lineFrame text] else .error messageTooLong := by
  have hiff : fits text = true ↔ (utf8 text ++ [10]).length ≤ maxMessageBytes := by
    rw [fits, decide_eq_true_eq, List.length_append]
    exact Nat.lt_iff_add_one_le
  rw [Edge.pushLine, if_neg h, send]
  by_cases hfits : (utf8 text ++ [10]).length ≤ maxMessageBytes
  · rw [ensure_of hfits, if_pos (hiff.2 hfits)]
    rfl
  · rw [ensure, if_neg hfits, if_neg (mt hiff.1 hfits)]
    rfl

/-- Push texts one after another, up to an error. -/
def forwarded : List String → Forwarded
  | [] => ⟨[], .ok ()⟩
  | text :: texts => (Forwarded.push (pushLine text)).andThen (forwarded texts)

/-- Every text is pushed up to the first one that does not fit. -/
theorem forwarded_frames {texts : List String} (h : "" ∉ texts) :
    (forwarded texts).frames = (texts.takeWhile fits).map lineFrame := by
  induction texts with
  | nil => rfl
  | cons text texts ih =>
    rw [List.mem_cons, not_or] at h
    rw [forwarded, pushLine_eq (Ne.symm h.1)]
    cases hfits : fits text <;> simp [Forwarded.push, Forwarded.andThen, hfits, ih h.2]

theorem Forwarded.andThen_assoc (a b c : Forwarded) :
    (a.andThen b).andThen c = a.andThen (b.andThen c) := by
  obtain ⟨frames, result⟩ := a
  obtain ⟨frames', result'⟩ := b
  cases result <;> cases result' <;> simp [Forwarded.andThen]

theorem forwarded_append (texts later : List String) :
    forwarded (texts ++ later) = (forwarded texts).andThen (forwarded later) := by
  induction texts with
  | nil => rfl
  | cons text texts ih => rw [List.cons_append, forwarded, ih, forwarded, Forwarded.andThen_assoc]

theorem postEvents_eq (events : List Event) :
    postEvents (events.map .ok) = forwarded (events.map Event.data) := by
  induction events with
  | nil => rfl
  | cons ev events ih => rw [List.map_cons, postEvents, ih, List.map_cons, forwarded]

theorem getEvents_eq (events : List Event) :
    getEvents (events.map .ok) = (forwarded (events.map Event.data)).frames := by
  induction events with
  | nil => rfl
  | cons ev events ih =>
    rw [List.map_cons, getEvents, ih, List.map_cons, forwarded]
    cases pushLine ev.data <;> rfl

theorem legacySse_eq (events : List Event) : legacySse (events.map .ok) =
    (forwarded ((events.filter (fun ev => ev.event ≠ "endpoint")).map Event.data)).frames := by
  induction events with
  | nil => rfl
  | cons ev events ih =>
    rw [List.map_cons, legacySse]
    by_cases hendpoint : ev.event = "endpoint"
    · simp [hendpoint, ih]
    · rw [if_neg hendpoint, ih]
      cases hpush : pushLine ev.data <;>
        simp [hendpoint, hpush, forwarded, Forwarded.push, Forwarded.andThen]

/-- A body that is within the limit is read as a whole. -/
theorem readBoundedBody_eq {chunks : List (List UInt8)} (body : List UInt8)
    (h : (body ++ chunks.flatten).length ≤ maxMessageBytes) :
    readBoundedBody body (chunks.map .ok) = .ok (body ++ chunks.flatten) := by
  induction chunks generalizing body with
  | nil => simp [readBoundedBody]
  | cons chunk chunks ih =>
    rw [List.flatten_cons, ← List.append_assoc] at h ⊢
    have hlimit : U64.saturatingAdd body.length chunk.length ≤ maxMessageBytes := by
      simp only [List.length_append, U64.saturatingAdd] at h ⊢
      omega
    rw [List.map_cons, readBoundedBody, if_pos hlimit, ih _ h]

variable (replaced : List UInt8 → String)

theorem postBody_eq {chunks : List (List UInt8)} {text : String} (hwhole : chunks.flatten = utf8 text)
    (hne : text ≠ "") (hlimit : (utf8 text).length ≤ maxMessageBytes) :
    postBody replaced (chunks.map .ok) = forwarded [text] := by
  have hread := @readBoundedBody_eq chunks [] (by rwa [List.nil_append, hwhole])
  have htext : fromUtf8 (utf8 text) = some text := fromUtf8_eq_some.2 rfl
  have hbytes : utf8 text ≠ [] := fun hempty => hne (utf8_inj.1 (hempty.trans rfl))
  rw [List.nil_append, hwhole] at hread
  simp only [postBody, hread, if_neg hbytes, fromUtf8Lossy, htext, Option.getD_some, forwarded]
  cases pushLine text <;> simp [Forwarded.push, Forwarded.andThen]

/-- The texts of messages: they are not empty and within the limit. -/
def Bounded (texts : List String) : Prop :=
  ∀ text ∈ texts, text ≠ "" ∧ (utf8 text).length ≤ maxMessageBytes

theorem streamable_eq {responses : List PostResponse} {posted : List (List String)}
    (hposts : List.Forall₂ PostResponse.Delivers responses posted) (h : Bounded posted.flatten) :
    streamable replaced responses = forwarded posted.flatten := by
  induction hposts with
  | nil => rfl
  | cons hpost hposts ih =>
    rw [List.flatten_cons, Bounded, List.forall_mem_append] at h
    rw [List.flatten_cons, forwarded_append, ← ih h.2]
    cases hpost with
    | events events => rw [streamable, postEvents_eq]
    | body chunks text hwhole =>
      obtain ⟨hne, hlimit⟩ := h.1 text (by simp)
      rw [streamable, postBody_eq replaced hwhole hne hlimit]

variable {messages : Source → List String}

/-- The pushes of each task are the lines of the messages that it has received, up to one that does not
    fit. -/
theorem Bridge.Delivers.pushes_eq {b : Bridge} (hmessages : b.Delivers messages)
    (h : ∀ source, Bounded (messages source)) (source : Source) :
    b.pushes replaced source = ((messages source).takeWhile fits).map lineFrame := by
  rw [← forwarded_frames (fun hempty => (h source "" hempty).1 rfl)]
  cases hmessages with
  | streamable responses posted get got posts gets =>
    cases source with
    | post => exact congrArg Forwarded.frames (streamable_eq replaced posts (h .post))
    | get =>
      cases gets with
      | rejected => rfl
      | events events => exact getEvents_eq events
  | legacySse events =>
    cases source with
    | post => rfl
    | get => exact legacySse_eq events

/-- The messages of which the lines have been pushed. -/
def pushed (messages : Source → List String) (n : Nat) : Source → List String :=
  bySource ((messages .post).takeWhile fits) (((messages .get).takeWhile fits).take n)

theorem pushed_initial (messages : Source → List String) (n : Nat) (source : Source) :
    pushed messages n source <+: messages source := by
  cases source with
  | post => exact List.takeWhile_prefix _
  | get => exact (List.take_prefix _ _).trans (List.takeWhile_prefix _)

/-- All of them have, if they fit and the task of the GET has not been aborted before. -/
theorem pushed_eq_iff (messages : Source → List String) (n : Nat) :
    (∀ source, pushed messages n source = messages source) ↔
      (∀ source, ∀ text ∈ messages source, (utf8 text).length < maxMessageBytes) ∧
        (messages .get).length ≤ n := by
  have hfits : ∀ source, (messages source).takeWhile fits = messages source ↔
      ∀ text ∈ messages source, (utf8 text).length < maxMessageBytes := by
    simp [List.takeWhile_eq_self_iff, fits]
  constructor
  · intro h
    have hget : ((messages .get).takeWhile fits).take n = messages .get := h .get
    have hwhole := (List.takeWhile_prefix fits (l := messages .get)).eq_of_length_le (by
      rw [← congrArg List.length hget]
      exact (List.length_take_le' _ _))
    refine ⟨fun source => ?_, ?_⟩
    · cases source with
      | post => exact (hfits .post).1 (h .post)
      | get => exact (hfits .get).1 hwhole
    · rw [hwhole] at hget
      rw [← hget]
      exact List.length_take_le _ _
  · rintro ⟨hall, hn⟩ source
    cases source with
    | post => exact (hfits .post).2 (hall .post)
    | get =>
      have hget := (hfits .get).2 (hall .get)
      exact (congrArg (List.take n) hget).trans (List.take_of_length_le hn)

/-! ## The lines of the output -/

def frameText (frame : Frame) : String := (fromUtf8 frame.payload.dropLast).getD ""

theorem frameText_lineFrame (text : String) : frameText (lineFrame text) = text := by
  simp [frameText, lineFrame, fromUtf8_eq_some.2 rfl]

/-- The channel holds the lines of the messages that have been pushed, each source's in its order. -/
theorem Bridge.Delivers.channel_eq {b : Bridge} (hmessages : b.Delivers messages)
    (h : ∀ source, Bounded (messages source)) {n : Nat} {channel : List (Source × Frame)}
    (hchannel : b.Channel replaced n channel) :
    ∃ tagged : List (Source × String),
      (∀ source, (tagged.filter (fun p => p.1 = source)).map Prod.snd = pushed messages n source) ∧
        dataOutput channel = tagged.flatMap (fun p => utf8 p.2 ++ [10]) := by
  have hpushes : ∀ source, (channel.filter (fun p => p.1 = source)).map Prod.snd =
      (pushed messages n source).map lineFrame := by
    intro source
    rw [hchannel source, hmessages.pushes_eq replaced h, hmessages.pushes_eq replaced h]
    cases source with
    | post => rfl
    | get => exact (List.map_take ..).symm
  have hframe : ∀ p ∈ channel, lineFrame (frameText p.2) = p.2 := by
    intro p hp
    have hmem : p.2 ∈ (pushed messages n p.1).map lineFrame := by
      rw [← hpushes p.1]
      exact List.mem_map_of_mem (List.mem_filter.2 ⟨hp, by simp⟩)
    obtain ⟨text, _, htext⟩ := List.mem_map.1 hmem
    rw [← htext, frameText_lineFrame]
  refine ⟨channel.map (fun p => (p.1, frameText p.2)), fun source => ?_, ?_⟩
  · have hsource := congrArg (List.map frameText) (hpushes source)
    rw [List.map_map, List.map_map] at hsource
    rw [List.filter_map, List.map_map]
    refine hsource.trans ?_
    rw [show frameText ∘ lineFrame = id from funext frameText_lineFrame, List.map_id]
  · clear hchannel hpushes
    induction channel with
    | nil => rfl
    | cons p channel ih =>
      obtain ⟨hp, hlater⟩ := List.forall_mem_cons.1 hframe
      have htag : p.2.tag = .data := congrArg Frame.tag hp.symm
      have hpayload : p.2.payload = utf8 (frameText p.2) ++ [10] := congrArg Frame.payload hp.symm
      have hdata : dataOutput (p :: channel) = p.2.payload ++ dataOutput channel := by
        simp [dataOutput, htag]
      rw [hdata, ih hlater, List.map_cons, List.flatMap_cons, hpayload]

theorem isBlank_of_mem_replicate {n : Nat} {b : UInt8} (h : b ∈ List.replicate n 10) :
    isBlank b = true := by
  rw [List.eq_of_mem_replicate h]
  rfl

variable {Value : Type} (parser : JsonParser Value)

/-- A line that is alone in a message is the message without newlines around it: it has the same
    value. -/
theorem JsonParser.parse_line {text line : List UInt8} (h : Lines.nonempty 10 text = [line]) :
    parser.parse line = parser.parse text := by
  obtain ⟨m, rest, rfl, hrest⟩ := Lines.eq_append_of_nonempty h
  refine (parser.parse_space _ line rest (List.forall_mem_append.2 ⟨?_, ?_⟩)).symm
  · exact fun b => isBlank_of_mem_replicate
  · obtain ⟨rfl, _⟩ | ⟨after, rfl, hnone⟩ := hrest
    · simp
    · obtain ⟨n, rfl⟩ := Lines.eq_replicate_of_nonempty hnone
      rw [← List.replicate_succ]
      exact fun b => isBlank_of_mem_replicate

/-- There is no value in white space. -/
theorem JsonParser.exists_not_blank {text : List UInt8} (h : (parser.parse text).isSome) :
    ∃ b ∈ text, isBlank b = false := by
  by_contra hnone
  have hblank : ∀ b ∈ text ++ [], isBlank b = true := by simpa using hnone
  have hparse := parser.parse_space text [] [] hblank
  rw [List.append_nil, List.append_nil, parser.parse_nil] at hparse
  rw [hparse] at h
  cases h

/-- A message of which every line is a value has one line. -/
theorem JsonParser.one_line {text : List UInt8} (h : (parser.parse text).isSome)
    (hlines : ∀ line ∈ Lines.nonempty 10 text, (parser.parse line).isSome) :
    (Lines.nonempty 10 text).length = 1 := by
  cases hline : Lines.nonempty 10 text with
  | nil =>
    obtain ⟨n, rfl⟩ := Lines.eq_replicate_of_nonempty hline
    obtain ⟨b, hb, hnot⟩ := parser.exists_not_blank h
    cases (isBlank_of_mem_replicate hb).symm.trans hnot
  | cons line later =>
    rw [hline, List.forall_mem_cons] at hlines
    obtain ⟨m, rest, rfl, ⟨_, rfl⟩ | ⟨after, rfl, hafter⟩⟩ := Lines.eq_append_of_nonempty hline
    · rfl
    · cases later with
      | nil => rfl
      | cons second later =>
        -- what comes after the first line is not blank, so that the whole has no value
        obtain ⟨b, hb, hnot⟩ := parser.exists_not_blank (hlines.2 second List.mem_cons_self)
        obtain ⟨k, more, rfl, _⟩ := Lines.eq_append_of_nonempty hafter
        have hmem : b ∈ List.replicate k 10 ++ second ++ more :=
          List.mem_append_left _ (List.mem_append_right _ hb)
        have hnone := parser.parse_after line _ hlines.1 ⟨b, hmem, hnot⟩
        have hspace := parser.parse_space (List.replicate m 10)
          (line ++ 10 :: (List.replicate k 10 ++ second ++ more)) [] (by
            rw [List.append_nil]
            exact fun b => isBlank_of_mem_replicate)
        rw [List.append_nil, ← List.append_assoc, hnone] at hspace
        rw [hspace] at h
        cases h

theorem length_by_source {α : Type} (l : List (Source × α)) :
    (l.filter (fun p => p.1 = .post)).length + (l.filter (fun p => p.1 = .get)).length = l.length :=
  Lists.length_filter_add (by decide) (fun source => by cases source <;> simp) l

/-- Every line of the output is a value. -/
theorem OneLineEach.parse_isSome {messages : Source → List String} {output : List UInt8}
    (h : OneLineEach parser messages output)
    (hvalue : ∀ source, ∀ text ∈ messages source, (parser.parse (utf8 text)).isSome) :
    ∀ line ∈ Lines.nonempty 10 output, (parser.parse line).isSome := by
  obtain ⟨lines, heq, hparse⟩ := h
  intro line hline
  rw [heq] at hline
  obtain ⟨p, hp, rfl⟩ := List.mem_map.1 hline
  obtain ⟨text, htext, hsame⟩ := Lists.exists_of_mem_right (hparse p.1) (Lists.mem_of_tag hp)
  rw [hsame]
  exact hvalue p.1 text htext

/-- Output that is one message after the other, in whatever order of the sources, has one line for each
    message exactly if no message is missing and each has one line. -/
theorem oneLineEach_iff {messages part : Source → List String}
    (hvalue : ∀ source, ∀ text ∈ messages source, (parser.parse (utf8 text)).isSome)
    (hpart : ∀ source, part source <+: messages source) {tagged : List (Source × String)}
    (hby : ∀ source, (tagged.filter (fun p => p.1 = source)).map Prod.snd = part source)
    {output : List UInt8} (hall : Lines.nonempty 10 output =
      tagged.flatMap (fun p => Lines.nonempty 10 (utf8 p.2))) :
    OneLineEach parser messages output ↔ (∀ source, part source = messages source) ∧
      ∀ source, ∀ text ∈ messages source, (Lines.nonempty 10 (utf8 text)).length = 1 := by
  have hmem : ∀ p ∈ tagged, p.2 ∈ part p.1 := fun p hp => hby p.1 ▸ Lists.mem_of_tag hp
  have hflat (hone : ∀ p ∈ tagged, (Lines.nonempty 10 (utf8 p.2)).length = 1) :
      Lines.nonempty 10 output = tagged.map (fun p => (Lines.nonempty 10 (utf8 p.2)).headD []) := by
    rw [hall, List.flatMap_congr (fun p hp => Lists.eq_singleton_headD (hone p hp) [])]
    exact List.map_eq_flatMap.symm
  constructor
  · intro h
    have hlines := h.parse_isSome parser hvalue
    have hone : ∀ p ∈ tagged, (Lines.nonempty 10 (utf8 p.2)).length = 1 := by
      intro p hp
      refine parser.one_line (hvalue p.1 p.2 ((hpart p.1).subset (hmem p hp))) (fun line hline => ?_)
      exact hlines line (hall ▸ List.mem_flatMap.2 ⟨p, hp, hline⟩)
    -- there are as many lines as messages
    obtain ⟨lines, heq, hparse⟩ := h
    have hcount := congrArg List.length ((hflat hone).symm.trans heq)
    rw [List.length_map, List.length_map, ← length_by_source tagged, ← length_by_source lines] at hcount
    have htagged : ∀ source, (tagged.filter (fun p => p.1 = source)).length = (part source).length :=
      fun source => by rw [← hby source, List.length_map]
    have hmessages : ∀ source, (lines.filter (fun p => p.1 = source)).length =
        (messages source).length := fun source => by rw [(hparse source).length_eq, List.length_map]
    rw [htagged, htagged, hmessages, hmessages] at hcount
    have hpost := (hpart .post).length_le
    have hget := (hpart .get).length_le
    have hsame : ∀ source, part source = messages source := by
      intro source
      refine (hpart source).eq_of_length ?_
      cases source <;> omega
    refine ⟨hsame, fun source text htext => ?_⟩
    rw [← hsame source, ← hby source] at htext
    obtain ⟨p, hp, rfl⟩ := List.mem_map.1 htext
    exact hone p (List.mem_filter.1 hp).1
  · rintro ⟨hsame, hone⟩
    have hone : ∀ p ∈ tagged, (Lines.nonempty 10 (utf8 p.2)).length = 1 :=
      fun p hp => hone p.1 p.2 (hsame p.1 ▸ hmem p hp)
    refine ⟨tagged.map (fun p => (p.1, (Lines.nonempty 10 (utf8 p.2)).headD [])), ?_, fun source => ?_⟩
    · rw [hflat hone, List.map_map]
      rfl
    · rw [← hsame source, ← hby source, List.filter_map, List.map_map, List.forall₂_map_left_iff,
        List.forall₂_map_right_iff]
      refine List.forall₂_same.2 (fun p hp => ?_)
      exact parser.parse_line (Lists.eq_singleton_headD (hone p (List.mem_filter.1 hp).1) [])

/-- **Each MCP message from an HTTP server becomes exactly one stdio line**, whichever tasks of the bridge
    forward the messages and in whatever order, exactly if the text of every message has one line that
    is not empty (line breaks stand at its very beginning and end only), is with a newline still within
    the limit, and the task of the GET is not aborted before it has pushed all its messages. -/
theorem each_message_becomes_one_line (b : Bridge) (messages : Source → List String)
    (hmessages : b.Delivers messages)
    (hvalue : ∀ source, ∀ text ∈ messages source, (parser.parse (utf8 text)).isSome)
    (hlimit : ∀ source, ∀ text ∈ messages source, (utf8 text).length ≤ maxMessageBytes) (n : Nat)
    (channel : List (Source × Frame)) (hchannel : b.Channel replaced n channel) :
    OneLineEach parser messages (dataOutput channel) ↔
      (∀ source, ∀ text ∈ messages source, (Lines.nonempty 10 (utf8 text)).length = 1) ∧
      (∀ source, ∀ text ∈ messages source, (utf8 text).length < maxMessageBytes) ∧
      (messages .get).length ≤ n := by
  have hbounded : ∀ source, Bounded (messages source) := by
    intro source text htext
    refine ⟨?_, hlimit source text htext⟩
    rintro rfl
    obtain ⟨b, hb, _⟩ := parser.exists_not_blank (hvalue source "" htext)
    exact absurd hb List.not_mem_nil
  obtain ⟨tagged, hby, houtput⟩ := hmessages.channel_eq replaced hbounded hchannel
  rw [← pushed_eq_iff messages n, and_comm]
  refine oneLineEach_iff parser hvalue (pushed_initial messages n) hby ?_
  rw [houtput, Lines.nonempty_flatMap]

/-- A parser for values of one character. -/
def digitParser : JsonParser UInt8 where
  parse text :=
    match text.filter (fun b => !isBlank b) with
    | [b] => some b
    | _ => none
  parse_space before text after h := by
    have hnone : ∀ part : List UInt8, (∀ b ∈ part, isBlank b = true) →
        part.filter (fun b => !isBlank b) = [] := by
      intro part hpart
      exact List.filter_eq_nil_iff.2 (fun b hb => by simp [hpart b hb])
    rw [List.forall_mem_append] at h
    simp only [List.filter_append, hnone before h.1, hnone after h.2, List.nil_append, List.append_nil]
  parse_nil := rfl
  parse_after text after h hafter := by
    obtain ⟨b, hb, hnot⟩ := hafter
    have hlater : after.filter (fun b => !isBlank b) ≠ [] := by
      exact List.ne_nil_of_mem (List.mem_filter.2 ⟨hb, by simp [hnot]⟩)
    rw [List.filter_append, List.filter_cons_of_neg (by decide)]
    split at h
    · next digit hdigit =>
      rw [hdigit]
      cases hrest : after.filter (fun b => !isBlank b) with
      | nil => exact absurd hrest hlater
      | cons second more => rfl
    · cases h

/-- A response with a newline at its end, and an event: in either order, two lines. -/
theorem body_and_event_become_two_lines :
    OneLineEach digitParser (bySource ["1\n"] ["2"])
      (dataOutput [(.get, lineFrame "2"), (.post, lineFrame "1\n")]) := by
  refine (each_message_becomes_one_line (fun _ => "") digitParser
    (.streamable [.body [.ok (utf8 "1\n")]] (.events [.ok ⟨"message", "2"⟩])) _
    (.streamable _ [["1\n"]] _ ["2"] (.cons (.body [utf8 "1\n"] _ (by simp)) .nil)
      (.events [⟨"message", "2"⟩])) ?_ ?_ 1 _ ?_).2 ⟨?_, ?_, le_rfl⟩
  · intro source text htext
    cases source <;> (obtain rfl := List.mem_singleton.1 htext; decide +kernel)
  · intro source text htext
    cases source <;> (obtain rfl := List.mem_singleton.1 htext; decide +kernel)
  · intro source
    cases source <;> decide +kernel
  · intro source text htext
    cases source <;> (obtain rfl := List.mem_singleton.1 htext; decide +kernel)
  · intro source text htext
    cases source <;> (obtain rfl := List.mem_singleton.1 htext; decide +kernel)

/-- There are as many lines as messages. -/
theorem not_oneLineEach {output : List UInt8}
    (h : (messages .post).length + (messages .get).length ≠ (Lines.nonempty 10 output).length) :
    ¬ OneLineEach parser messages output := by
  rintro ⟨lines, heq, hparse⟩
  have hpost := (hparse .post).length_eq
  have hget := (hparse .get).length_eq
  rw [List.length_map] at hpost hget
  rw [heq, List.length_map, ← length_by_source lines, hpost, hget] at h
  exact h rfl

/-- A response body or an event with a value that is printed over two lines becomes two lines, neither of
    which is the message. An event that the task of the GET holds when it is aborted is lost, and so is a
    message of the largest size that is read: its newline makes it too long. -/
theorem printed_message_becomes_two_lines :
    (∃ channel, Bridge.Channel (fun _ => "") (.streamable [.body [.ok (utf8 "[\n1]")]] .rejected) 0
        channel ∧
      Bridge.Delivers (.streamable [.body [.ok (utf8 "[\n1]")]] .rejected) (bySource ["[\n1]"] []) ∧
      Lines.nonempty 10 (dataOutput channel) = [utf8 "[", utf8 "1]"] ∧
      ∀ (Value : Type) (parser : JsonParser Value),
        ¬ OneLineEach parser (bySource ["[\n1]"] []) (dataOutput channel)) ∧
    (∃ channel, Bridge.Channel (fun _ => "") (.legacySse [.ok ⟨"message", "[\n1]"⟩]) 1 channel ∧
      Bridge.Delivers (.legacySse [.ok ⟨"message", "[\n1]"⟩]) (bySource [] ["[\n1]"]) ∧
      Lines.nonempty 10 (dataOutput channel) = [utf8 "[", utf8 "1]"] ∧
      ∀ (Value : Type) (parser : JsonParser Value),
        ¬ OneLineEach parser (bySource [] ["[\n1]"]) (dataOutput channel)) ∧
    (∃ channel, Bridge.Channel (fun _ => "") (.legacySse [.ok ⟨"message", "1"⟩]) 0 channel ∧
      Bridge.Delivers (.legacySse [.ok ⟨"message", "1"⟩]) (bySource [] ["1"]) ∧
      ∀ (Value : Type) (parser : JsonParser Value),
        ¬ OneLineEach parser (bySource [] ["1"]) (dataOutput channel)) ∧
    ∀ text, (utf8 text).length = maxMessageBytes → pushLine text = .error messageTooLong := by
  refine ⟨⟨[(.post, lineFrame "[\n1]")], fun source => ?_, ?_, ?_, fun Value parser => ?_⟩,
    ⟨[(.get, lineFrame "[\n1]")], fun source => ?_, ?_, ?_, fun Value parser => ?_⟩,
    ⟨[], fun source => ?_, ?_, fun Value parser => ?_⟩, fun text htext => ?_⟩
  · cases source <;> decide +kernel
  · exact .streamable _ [["[\n1]"]] _ [] (.cons (.body [utf8 "[\n1]"] _ (by simp)) .nil) .rejected
  · decide +kernel
  · exact not_oneLineEach parser (by decide +kernel)
  · cases source <;> decide +kernel
  · exact .legacySse [⟨"message", "[\n1]"⟩]
  · decide +kernel
  · exact not_oneLineEach parser (by decide +kernel)
  · cases source <;> rfl
  · exact .legacySse [⟨"message", "1"⟩]
  · exact not_oneLineEach parser (by decide +kernel)
  · have hne : text ≠ "" := by
      rintro rfl
      cases htext
    rw [pushLine_eq hne, if_neg (by simp [fits, htext])]

end AgentScale.Edge
