import Mathlib.Data.List.Basic
import AgentScale.Transport.FramedLoops

set_option autoImplicit false

/-! # A UDP association at the Edge

`serve_udp` sends the datagrams of a Client to their targets and returns what the network sends back. What
is due for a datagram or a packet on its own is defined here from the codec, the resolver and the sockets,
and compared with what the loop has done, in every state it can reach. -/

namespace AgentScale.Edge

open Checked Transport Bytes Framing Transition

/-! ## Datagrams and packets on their own -/

/-- There is a socket for an address, and sending to it succeeds. -/
def accepts (ipv6 : Bool) (sendTo : Address → Except String Unit) : Address → Bool
  | .v4 ip port => (sendTo (.v4 ip port)).isOk
  | .v6 ip port => ipv6 && (sendTo (.v6 ip port)).isOk

/-- Where a datagram is to be sent: to the first address of its target that accepts it. -/
def delivery (ipv6 : Bool) (network : Network) (d : ProxyDatagram) : Option (Address × List UInt8) :=
  match network.lookup d.target with
  | .resolved addrs =>
    (addrs.find? (accepts ipv6 (fun addr => network.sendTo addr d.payload))).map
      (fun addr => (addr, d.payload))
  | _ => none

def datagramFrame (d : ProxyDatagram) : Frame := ⟨.data, d.layout⟩

def returned (packet : Address × List UInt8) : Option Frame :=
  if (responseDatagram packet.1 packet.2).Representable then
    some (datagramFrame (responseDatagram packet.1 packet.2))
  else none

variable {ipv6 : Bool} {network : Nat → Network} {d : ProxyDatagram}

theorem toOption_sendToFirst (sendTo : Address → Except String Unit) (last : Option String)
    (addrs : List Address) :
    (sendToFirst ipv6 sendTo last addrs).toOption = addrs.find? (accepts ipv6 sendTo) := by
  induction addrs generalizing last with
  | nil => rfl
  | cons addr addrs ih =>
    cases addr <;> cases ipv6 <;> simp only [sendToFirst, List.find?, accepts, Bool.false_and,
      Bool.true_and, ih]
    all_goals
      cases hsend : sendTo _ with
      | ok u => rfl
      | error error => simp [Except.isOk, Except.toBool, ih]

/-- The arm of a datagram does what is due. -/
theorem toOption_deliver (ipv6 : Bool) (network : Network) (hd : d.Representable) :
    (deliver ipv6 network d.layout).toOption = delivery ipv6 network d := by
  have hdecoded : decoded d.layout = .ok d := by simp [decoded, decode_layout hd]
  unfold deliver delivery
  rw [hdecoded, ok_bind, sendUdp]
  cases network.lookup d.target with
  | timedOut => rfl
  | failed error => rfl
  | resolved addrs =>
    dsimp only
    rw [← toOption_sendToFirst _ none]
    cases sendToFirst ipv6 (fun addr => network.sendTo addr d.payload) none addrs <;> rfl

/-! ## What a run has taken -/

/-- The datagram of a frame that has been read. -/
def datagramOf : Completed Unit UdpReceived → Option ProxyDatagram
  | .read _ (.ok (some ⟨.data, payload⟩)) => (decoded payload).toOption
  | _ => none

/-- The packet that a socket has returned. -/
def packetOf : Completed Unit UdpReceived → Option (Address × List UInt8)
  | .other (.ipv4 source payload) => some (source, payload)
  | .other (.ipv6 source payload) => some (source, payload)
  | .read _ _ => none

/-- The datagrams that have been taken, each with its ordinal. -/
def takenDatagrams (completed : List (Completed Unit UdpReceived)) : List (ProxyDatagram × Nat) :=
  (completed.filterMap datagramOf).zipIdx

def takenPackets (completed : List (Completed Unit UdpReceived)) : List (Address × List UInt8) :=
  completed.filterMap packetOf

/-- The datagrams and packets that have been taken have had what is due to them, and an arm has returned
    an error exactly if nothing was due to one of them. -/
structure Served (ipv6 : Bool) (network : Nat → Network) (completed : List (Completed Unit UdpReceived))
    (state : ServeUdp) (ended : Option (Except String Unit)) : Prop where
  sent : state.sent = (takenDatagrams completed).filterMap (fun d => delivery ipv6 (network d.2) d.1)
  toClient : state.toClient = (takenPackets completed).filterMap returned
  ended : (∃ error, ended = some (.error error)) ↔
    (∃ d ∈ takenDatagrams completed, delivery ipv6 (network d.2) d.1 = none) ∨
      ∃ packet ∈ takenPackets completed, returned packet = none

variable {completed : List (Completed Unit UdpReceived)} {state state' : ServeUdp}
  {ended : Option (Except String Unit)} {c : Completed Unit UdpReceived}

/-- As long as no arm has returned an error, every datagram taken has been sent. -/
theorem Served.length_sent (h : Served ipv6 network completed state none) :
    state.sent.length = (completed.filterMap datagramOf).length := by
  have hdue : ∀ d ∈ takenDatagrams completed, (delivery ipv6 (network d.2) d.1).isSome = true := by
    intro d hd
    rw [Option.isSome_iff_ne_none]
    intro hnone
    obtain ⟨error, herror⟩ := h.ended.2 (.inl ⟨d, hd, hnone⟩)
    cases herror
  rw [h.sent, List.length_filterMap_eq_countP, List.countP_eq_length.2 hdue, takenDatagrams,
    List.length_zipIdx]

/-- One more branch has completed: what is due to it comes at the end. -/
theorem Served.extend (h : Served ipv6 network completed state none)
    (hsent : state'.sent = state.sent ++
      ((datagramOf c).bind (delivery ipv6 (network state.sent.length))).toList)
    (hclient : state'.toClient = state.toClient ++ ((packetOf c).bind returned).toList)
    (hended : (∃ error, ended = some (.error error)) ↔
      (∃ d, datagramOf c = some d ∧ delivery ipv6 (network state.sent.length) d = none) ∨
        ∃ packet, packetOf c = some packet ∧ returned packet = none) :
    Served ipv6 network (completed ++ [c]) state' ended := by
  have hlength := h.length_sent
  have hdatagrams : takenDatagrams (completed ++ [c]) =
      takenDatagrams completed ++ ((datagramOf c).map (fun d => (d, state.sent.length))).toList := by
    cases hc : datagramOf c <;> simp [takenDatagrams, hc, List.zipIdx_append, hlength]
  have hpackets : takenPackets (completed ++ [c]) = takenPackets completed ++ (packetOf c).toList := by
    cases hc : packetOf c <;> simp [takenPackets, hc]
  have hnever : ¬ ∃ error : String, (none : Option (Except String Unit)) = some (.error error) := by simp
  have hbefore := (not_congr h.ended).1 hnever
  rw [not_or] at hbefore
  refine ⟨?_, ?_, ?_⟩
  · rw [hsent, h.sent, hdatagrams, List.filterMap_append]
    congr 1
    cases datagramOf c with
    | none => rfl
    | some d => cases hd : delivery ipv6 (network state.sent.length) d <;> simp [hd, ← h.sent]
  · rw [hclient, h.toClient, hpackets, List.filterMap_append]
    congr 1
    cases packetOf c with
    | none => rfl
    | some packet => cases hp : returned packet <;> simp [hp]
  · rw [hended, hdatagrams, hpackets]
    simp only [List.mem_append, or_and_right, exists_or, hbefore.1, hbefore.2, false_or]
    cases datagramOf c <;> cases packetOf c <;> simp

/-- The local variables and the result after an arm. -/
def afterArm (state : ServeUdp) : Verdict ServeUdp → ServeUdp × Option (Except String Unit)
  | .next state => (state, none)
  | .stop result => (state, some result)

/-- The arm of a datagram. -/
theorem Served.read (h : Served ipv6 network completed state none) (hd : d.Representable) :
    Served ipv6 network (completed ++ [.read () (.ok (some (datagramFrame d)))])
      (afterArm state (state.handle ipv6 network (some (datagramFrame d)))).1
      (afterArm state (state.handle ipv6 network (some (datagramFrame d)))).2 := by
  have hdatagram : datagramOf (.read () (.ok (some (datagramFrame d)))) = some d := by
    simp [datagramOf, datagramFrame, decoded, decode_layout hd, Except.toOption]
  have hdue := toOption_deliver ipv6 (network state.sent.length) hd
  cases hdeliver : deliver ipv6 (network state.sent.length) d.layout with
  | ok sent =>
    have hhandle : state.handle ipv6 network (some (datagramFrame d)) =
        .next { state with sent := state.sent ++ [sent] } := by
      simp [datagramFrame, ServeUdp.handle, hdeliver]
    rw [hdeliver] at hdue
    refine h.extend ?_ ?_ ?_ <;> simp [hhandle, afterArm, hdatagram, packetOf, ← hdue, Except.toOption]
  | error error =>
    have hhandle : state.handle ipv6 network (some (datagramFrame d)) = .stop (.error error) := by
      simp [datagramFrame, ServeUdp.handle, hdeliver]
    rw [hdeliver] at hdue
    refine h.extend ?_ ?_ ?_ <;> simp [hhandle, afterArm, hdatagram, packetOf, ← hdue, Except.toOption]

/-- The arm of a packet, from either socket. -/
theorem Served.respond (h : Served ipv6 network completed state none) {o : UdpReceived}
    {source : Address} {payload : List UInt8} (ho : packetOf (.other o) = some (source, payload)) :
    Served ipv6 network (completed ++ [.other o]) (afterArm state (state.respond source payload)).1
      (afterArm state (state.respond source payload)).2 := by
  unfold ServeUdp.respond
  cases hencode : encodeProxyDatagram (responseDatagram source payload) with
  | ok bytes =>
    obtain ⟨hrep, rfl⟩ := encodeProxyDatagram_eq_ok.1 hencode
    have hreturned : returned (source, payload) = some (datagramFrame (responseDatagram source payload)) :=
      if_pos hrep
    refine h.extend ?_ ?_ ?_ <;> simp [afterArm, datagramOf, ho, hreturned, datagramFrame]
  | error error =>
    have hreturned : returned (source, payload) = none := by
      refine if_neg (fun hrep => ?_)
      cases hencode.symm.trans (encodeProxyDatagram_eq_ok.2 ⟨hrep, rfl⟩)
    refine h.extend ?_ ?_ ?_ <;> simp [afterArm, datagramOf, ho, hreturned]

/-- The arm of the end of the stream. -/
theorem Served.finish (h : Served ipv6 network completed state none) :
    Served ipv6 network (completed ++ [.read () (.ok none)]) state (some (.ok ())) := by
  refine h.extend ?_ ?_ ?_ <;> simp [datagramOf, packetOf]

/-- What a reader has returned, if well-formed datagrams are all that the peer writes. -/
def FromClient : Completed Unit UdpReceived → Prop
  | .read _ result => result = .ok none ∨
      ∃ d : ProxyDatagram, d.Representable ∧ result = .ok (some (datagramFrame d))
  | .other _ => True

/-- Every arm does what is due. -/
theorem Served.arm (h : Served ipv6 network completed state none) (hc : FromClient c)
    {verdict : Verdict ServeUdp} (harm : (serveUdp ipv6 network).arm state c = some verdict) :
    Served ipv6 network (completed ++ [c]) (afterArm state verdict).1 (afterArm state verdict).2 := by
  cases c with
  | read i result =>
    cases harm
    obtain rfl | ⟨d, hd, rfl⟩ := hc
    · exact h.finish
    · exact h.read hd
  | other o =>
    cases o with
    | ipv4 source payload =>
      cases harm
      exact h.respond rfl
    | ipv6 source payload =>
      obtain ⟨_, hsome⟩ := Option.ite_none_right_eq_some.1 harm
      cases hsome
      exact h.respond rfl

theorem Served.of_leads (h : (serveUdp ipv6 network).Leads completed state ended)
    (hall : ∀ c ∈ completed, FromClient c) : Served ipv6 network completed state ended := by
  induction h with
  | start => exact ⟨rfl, rfl, by simp [takenDatagrams, takenPackets]⟩
  | next c _ harm ih =>
    rw [List.forall_mem_append, List.forall_mem_singleton] at hall
    exact (ih hall.1).arm hall.2 harm
  | stop c _ harm ih =>
    rw [List.forall_mem_append, List.forall_mem_singleton] at hall
    exact (ih hall.1).arm hall.2 harm

/-! ## Runs -/

/-- `serve_udp` with a Client that writes these datagrams, as long as a packet completes its branch between
    two frames only. -/
def serving (ipv6 : Bool) (network : Nat → Network) (datagrams : List ProxyDatagram) (closes : Bool) :
    System (Running Unit ServeUdp UdpReceived) :=
  selectWhere (serveUdp ipv6 network) BetweenFrames (fun _ => datagrams.map datagramFrame) (fun _ => closes)

variable {datagrams : List ProxyDatagram} {closes : Bool} {s : Running Unit ServeUdp UdpReceived}

/-- The datagrams taken are the first ones that the Client has written. -/
theorem taken_of_inSync (hwf : ∀ d ∈ datagrams, d.Representable)
    (h : InSync .iroh (datagrams.map datagramFrame) (s.readers ()) (s.results ())) :
    s.completed.filterMap datagramOf <+: datagrams ∧ ∀ c ∈ s.completed, FromClient c := by
  obtain ⟨handled, remaining, ends, hsent, hresults, _⟩ := h
  obtain ⟨taken, later, rfl, rfl, _⟩ := List.map_eq_append_iff.1 hsent
  rw [List.forall_mem_append] at hwf
  constructor
  · have hsame : s.completed.filterMap datagramOf =
        (s.results ()).filterMap (fun result => datagramOf (.read () result)) := by
      rw [Running.results, List.filterMap_filterMap]
      congr 1
      funext c
      cases c <;> simp [Completed.result, datagramOf]
    have hdecoded : ∀ d ∈ taken, datagramOf (.read () (.ok (some (datagramFrame d)))) = some d :=
      fun d hd => by simp [datagramOf, datagramFrame, decoded, decode_layout (hwf.1 d hd), Except.toOption]
    have hframes := (List.filterMap_congr hdecoded).trans List.filterMap_some
    have hend : (List.replicate ends (.ok none)).filterMap (fun r => datagramOf (.read () r)) = [] := by
      simp [datagramOf]
    rw [hsame, hresults, List.filterMap_append, List.map_map, List.filterMap_map, hend, List.append_nil]
    exact ⟨later, congrArg (· ++ later) hframes⟩
  · intro c hc
    cases c with
    | other o => trivial
    | read i result =>
      have hmem : result ∈ s.results () := List.mem_filterMap.2 ⟨_, hc, by simp [Completed.result]⟩
      rw [hresults, List.mem_append, List.map_map] at hmem
      rcases hmem with hframe | hend
      · obtain ⟨d, hd, rfl⟩ := List.mem_map.1 hframe
        exact .inr ⟨d, hwf.1 d hd, rfl⟩
      · exact .inl (List.eq_of_mem_replicate hend)

/-- **One undeliverable datagram does not end a UDP association** exactly as long as there is none: in
    every state the loop has taken the first datagrams of the Client, with the others still to be read;
    every datagram taken that can be delivered has been sent once, in the order of arrival, every packet
    taken that can be represented has been returned, and an arm has ended the loop with an error exactly
    if a datagram taken could not be delivered or a packet taken not be represented. -/
theorem failed_datagram_has_no_effect (ipv6 : Bool) (network : Nat → Network)
    (datagrams : List ProxyDatagram) (closes : Bool) (hwf : ∀ d ∈ datagrams, d.Representable)
    (s : Running Unit ServeUdp UdpReceived)
    (hs : (serving ipv6 network datagrams closes).Reachable s) :
    InSync .iroh (datagrams.map datagramFrame) (s.readers ()) (s.results ()) ∧
    s.completed.filterMap datagramOf <+: datagrams ∧
    s.state.sent = (takenDatagrams s.completed).filterMap (fun d => delivery ipv6 (network d.2) d.1) ∧
    s.state.toClient = (takenPackets s.completed).filterMap returned ∧
    ((∃ error, s.stopped = some (.error error) ∧
        (serveUdp ipv6 network).Leads s.completed s.state (some (.error error))) ↔
      (∃ d ∈ takenDatagrams s.completed, delivery ipv6 (network d.2) d.1 = none) ∨
        ∃ packet ∈ takenPackets s.completed, returned packet = none) := by
  have hsync := inSync_of_reachable hs ()
  obtain ⟨htaken, hall⟩ := taken_of_inSync hwf hsync
  obtain ⟨ended, hleads, hended⟩ := accounted_of_reachable hs
  have hserved := Served.of_leads hleads hall
  refine ⟨hsync, htaken, hserved.sent, hserved.toClient, ?_, ?_⟩
  · rintro ⟨error, _, herror⟩
    exact (Served.of_leads herror hall).ended.1 ⟨error, rfl⟩
  · intro hfails
    obtain ⟨error, rfl⟩ := hserved.ended.2 hfails
    rcases hended with hnone | hstopped
    · cases hnone
    · exact ⟨error, hstopped.symm, hleads⟩

def queryFor (host : String) : ProxyDatagram := ⟨⟨host, 53⟩, [7]⟩

/-- A resolver that knows one host, and sockets that send everything. -/
def knowsOne : Network where
  lookup target :=
    if target.host = "known" then .resolved [.v4 "192.0.2.1" target.port] else .failed "not found"
  sendTo _ _ := .ok ()

/-- An association at its start, with these datagrams on the way. -/
def servingStart (datagrams : List ProxyDatagram) (closes : Bool) : Running Unit ServeUdp UdpReceived where
  state := ⟨[], []⟩
  readers _ := ⟨datagrams.flatMap (fun d => encode (datagramFrame d)), [], [], closes⟩
  completed := []
  stopped := none

theorem servingStart_init (datagrams : List ProxyDatagram) (closes : Bool)
    (h : Reader.opened (datagrams.map datagramFrame) closes =
      .ok ((servingStart datagrams closes).readers ())) :
    (serving ipv6 network datagrams closes).init (servingStart datagrams closes) :=
  ⟨rfl, fun _ => h, rfl, rfl⟩

/-- The datagram of a host that is known is sent when it has arrived. -/
theorem known_query_is_sent : ∃ s, (serving true (fun _ => knowsOne) [queryFor "known"] false).Reachable s ∧
    s.state.sent = [(.v4 "192.0.2.1" 53, [7])] := by
  obtain ⟨s, hs, hcheck⟩ := (serveUdp true (fun _ => knowsOne)).exists_reachable
    (servingStart_init [queryFor "known"] false rfl) [.arrive 14, .poll]
    (fun s => takenDatagrams s.completed = [(queryFor "known", 0)]) (by decide +kernel)
  obtain ⟨_, _, hsent, _⟩ := failed_datagram_has_no_effect true (fun _ => knowsOne) [queryFor "known"] false
    (by decide +kernel) s hs
  rw [of_decide_eq_true hcheck] at hsent
  exact ⟨s, hs, hsent⟩

/-- A query for a host that does not resolve, and a packet from port zero, each end the association: the
    query that comes after it is never sent, and the packet never returned. -/
theorem failed_datagram_ends_association :
    (delivery true knowsOne (queryFor "known") ≠ none ∧
      ∃ s, (serving true (fun _ => knowsOne) [queryFor "unknown", queryFor "known"] false).Reachable s ∧
        s.stopped = some (.error "not found") ∧
        ∀ t, (serving true (fun _ => knowsOne) [queryFor "unknown", queryFor "known"] false).Steps s t →
          t.state.sent = []) ∧
    (returned (.v4 "192.0.2.1" 53, [8]) ≠ none ∧
      ∃ s, (serving true (fun _ => knowsOne) [] false).Reachable s ∧
        s.stopped = some (.error "proxy datagram port is zero") ∧
        ∀ t, (serving true (fun _ => knowsOne) [] false).Steps s t → t.state.toClient = []) := by
  refine ⟨⟨by decide +kernel, ?_⟩, by decide +kernel, ?_⟩
  · obtain ⟨s, hs, hcheck⟩ := (serveUdp true (fun _ => knowsOne)).exists_reachable
      (servingStart_init [queryFor "unknown", queryFor "known"] false rfl) [.arrive 30, .poll]
      (fun s => s.stopped = some (.error "not found") ∧ s.state.sent = []) (by decide +kernel)
    obtain ⟨hstopped, hsent⟩ := of_decide_eq_true hcheck
    refine ⟨s, hs, hstopped, fun t ht => ?_⟩
    rw [state_of_stopped ht (by simp [hstopped]), hsent]
  · obtain ⟨s, hs, hcheck⟩ := (serveUdp true (fun _ => knowsOne)).exists_reachable
      (servingStart_init [] false rfl) [.other (.ipv4 (.v4 "192.0.2.1" 0) [8])]
      (fun s => s.stopped = some (.error "proxy datagram port is zero") ∧ s.state.toClient = [])
      (by decide +kernel)
    obtain ⟨hstopped, hclient⟩ := of_decide_eq_true hcheck
    refine ⟨s, hs, hstopped, fun t ht => ?_⟩
    rw [state_of_stopped ht (by simp [hstopped]), hclient]

end AgentScale.Edge
