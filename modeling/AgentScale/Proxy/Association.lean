import AgentScale.Edge.UdpProxy
import AgentScale.Library.Lists

set_option autoImplicit false

/-! # A UDP association from end to end

A SOCKS client sends its packets to the daemon (`serve_socks_udp`), which sends what they ask for as
frames to the Edge (`serve_udp`), which sends it to the targets; what the targets send back takes the
same way in the other direction. Each of the two loops reads the bytes that the other one writes. Anyone
can send packets to the sockets of the daemon and of the Edge, and either loop may stop at any time. -/

namespace AgentScale.Proxy

open Checked Transport Edge Framing Transition

variable {σ τ ο π : Type}

/-- The other side has written frames to the stream that a loop reads from. -/
def fed (s : Running Unit σ ο) (frames : List Frame) : Running Unit σ ο :=
  { s with readers := fun i =>
      { s.readers i with coming := (s.readers i).coming ++ frames.flatMap encode } }

/-- The loops of the daemon and of the Edge. -/
structure Association where
  daemon : Running Unit ServeSocksUdp SocksReceived
  edge : Running Unit ServeUdp UdpReceived

/-- The daemon has taken a step: what it has written is on its way to the Edge. -/
def Association.afterDaemon (a : Association) (daemon : Running Unit ServeSocksUdp SocksReceived) :
    Association :=
  ⟨daemon, fed a.edge (daemon.state.toEdge.drop a.daemon.state.toEdge.length)⟩

/-- The Edge has taken a step. -/
def Association.afterEdge (a : Association) (edge : Running Unit ServeUdp UdpReceived) : Association :=
  ⟨fed a.daemon (edge.state.toClient.drop a.edge.state.toClient.length), edge⟩

def Association.start : Association where
  daemon := ⟨⟨none, [], []⟩, fun _ => ⟨[], [], [], false⟩, [], none⟩
  edge := ⟨⟨[], []⟩, fun _ => ⟨[], [], [], false⟩, [], none⟩

variable (socks : Socks) (clientIp : String) (ipv6 : Bool) (network : Nat → Network)

/-- A step of either loop. A branch completes between frames only. -/
inductive Association.Step (a : Association) : Association → Prop
  | daemon (daemon : Running Unit ServeSocksUdp SocksReceived)
      (hstep : Running.Step (serveSocksUdp socks clientIp) BetweenFrames a.daemon daemon) :
      Step a (a.afterDaemon daemon)
  | edge (edge : Running Unit ServeUdp UdpReceived)
      (hstep : Running.Step (serveUdp ipv6 network) BetweenFrames a.edge edge)
      (hvalid : ∀ packet ∈ takenPackets edge.completed, socks.valid packet.1 = true) :
      Step a (a.afterEdge edge)

def association : System Association where
  init a := a = .start
  step := Association.Step socks clientIp ipv6 network

variable {socks clientIp ipv6 network} {a b : Association}

/-! ## What the daemon does -/

/-- What `serve_socks_udp` makes of a completion: nothing, it sends the client what the Edge has returned,
    or it takes a packet as one of its client. -/
theorem socks_arm {s s' : ServeSocksUdp} {c : Completed Unit SocksReceived}
    (h : (serveSocksUdp socks clientIp).arm s c = some (.next s')) :
    s' = s ∨
    (∃ payload packet, c = .read () (.ok (some ⟨.data, payload⟩)) ∧ s.clientAddr ≠ none ∧
      socks.response payload = .ok packet ∧ s' = { s with toClient := s.toClient ++ [packet] }) ∨
    ∃ source packet, c = .other (.udp source packet) ∧ source.ip = clientIp ∧
      (∀ client, s.clientAddr = some client → client = source) ∧
      (∀ d ∈ socks.request packet, d.Representable) ∧
      s' = { s with clientAddr := some source,
                    toEdge := s.toEdge ++ (socks.request packet).toList.map datagramFrame } := by
  cases c with
  | read i result =>
    cases result with
    | error error => cases h
    | ok frame =>
      have hhandle : s.handle socks frame = .next s' := Option.some.inj h
      unfold ServeSocksUdp.handle at hhandle
      split at hhandle
      · next payload =>
        split at hhandle
        · cases hhandle
          exact .inl rfl
        · next hknown =>
          split at hhandle
          · next packet hresponse =>
            cases hhandle
            exact .inr (.inl ⟨payload, packet, rfl, hknown, hresponse, rfl⟩)
          · cases hhandle
      · cases hhandle
      · cases hhandle
  | other o =>
    cases o with
    | control byte =>
      cases byte <;> cases h
      exact .inl rfl
    | udp source packet =>
      replace h : s.receive socks clientIp (.udp source packet) = some (.next s') := h
      simp only [ServeSocksUdp.receive] at h
      split at h
      · cases h
        exact .inl rfl
      · next hclient =>
        push Not at hclient
        have hknown : ∀ client, s.clientAddr = some client → client = source := by
          intro client hsome
          simpa [hsome] using hclient.2
        refine .inr (.inr ⟨source, packet, rfl, hclient.1, hknown, ?_⟩)
        cases hrequest : socks.request packet with
        | none =>
          simp only [hrequest] at h
          cases h
          simp
        | some d =>
          simp only [hrequest] at h
          split at h
          · next bytes hencode =>
            cases h
            obtain ⟨hd, rfl⟩ := encodeProxyDatagram_eq_ok.1 hencode
            simpa [datagramFrame] using hd
          · cases h

/-- The datagram that a completion asks for, if it is a packet of the client. -/
def askedBy (socks : Socks) (client : Address) : Completed Unit SocksReceived → Option ProxyDatagram
  | .other (.udp source packet) => if source = client then socks.request packet else none
  | _ => none

/-- The datagrams that the packets of a client ask for. -/
def asked (socks : Socks) (client : Address) (completed : List (Completed Unit SocksReceived)) :
    List ProxyDatagram :=
  completed.filterMap (askedBy socks client)

/-- The payload of a frame that has been read. -/
def payloadOf : Completed Unit SocksReceived → Option (List UInt8)
  | .read _ (.ok (some frame)) => some frame.payload
  | _ => none

/-- The daemon sends on what its one client asks for, and returns what it has read to that client. -/
structure Forwards (socks : Socks) (clientIp : String) (completed : List (Completed Unit SocksReceived))
    (s : ServeSocksUdp) : Prop where
  unpinned : s.clientAddr = none → s.toEdge = [] ∧ s.toClient = []
  pinned : ∀ client, s.clientAddr = some client → client.ip = clientIp
  toEdge : ∃ forwarded : List ProxyDatagram, s.toEdge = forwarded.map datagramFrame ∧
    (∀ d ∈ forwarded, d.Representable) ∧
    ∀ client, s.clientAddr = some client → forwarded.Sublist (asked socks client completed)
  toClient : (s.toClient.map Except.ok).Sublist ((completed.filterMap payloadOf).map socks.response)

variable {completed : List (Completed Unit SocksReceived)} {s s' : ServeSocksUdp}
  {c : Completed Unit SocksReceived}

/-- A completion that makes no difference. -/
theorem Forwards.ignore (h : Forwards socks clientIp completed s) (c : Completed Unit SocksReceived) :
    Forwards socks clientIp (completed ++ [c]) s := by
  obtain ⟨forwarded, htoEdge, hrep, hsub⟩ := h.toEdge
  refine ⟨h.unpinned, h.pinned, ⟨forwarded, htoEdge, hrep, fun client hclient => ?_⟩, ?_⟩
  · exact (hsub client hclient).trans ((List.sublist_append_left _ _).filterMap _)
  · exact h.toClient.trans (((List.sublist_append_left _ _).filterMap _).map _)

theorem Forwards.next (h : Forwards socks clientIp completed s)
    (harm : (serveSocksUdp socks clientIp).arm s c = some (.next s')) :
    Forwards socks clientIp (completed ++ [c]) s' := by
  have hsame := h.ignore c
  obtain rfl | ⟨payload, packet, rfl, hknown, hresponse, rfl⟩ |
    ⟨source, packet, rfl, hip, hclient, hrep, rfl⟩ := socks_arm harm
  · exact hsame
  · refine ⟨fun hnone => absurd hnone hknown, h.pinned, hsame.toEdge, ?_⟩
    simpa [payloadOf, hresponse] using h.toClient.append (List.Sublist.refl [Except.ok packet])
  · obtain ⟨forwarded, htoEdge, hbefore, hsub⟩ := h.toEdge
    refine ⟨fun hnone => (by cases hnone), ?_, ?_, hsame.toClient⟩
    · rintro client ⟨⟩
      exact hip
    · refine ⟨forwarded ++ (socks.request packet).toList, by simp [htoEdge], ?_, ?_⟩
      · rw [List.forall_mem_append]
        exact ⟨hbefore, by simpa using hrep⟩
      · rintro client ⟨⟩
        -- whether the client was known or is known from now on, it is the source
        have hasked : forwarded.Sublist (asked socks source completed) := by
          cases hknown : s.clientAddr with
          | none =>
            have hnil := (h.unpinned hknown).1
            rw [htoEdge, List.map_eq_nil_iff] at hnil
            simp [hnil]
          | some client =>
            rw [← hclient client hknown]
            exact hsub client hknown
        have hnew : asked socks source [.other (.udp source packet)] = (socks.request packet).toList := by
          cases hrequest : socks.request packet <;> simp [asked, askedBy, hrequest]
        have happend : asked socks source (completed ++ [.other (.udp source packet)]) =
            asked socks source completed ++ (socks.request packet).toList := by
          rw [← hnew]
          exact List.filterMap_append ..
        rw [happend]
        exact hasked.append (List.Sublist.refl _)

theorem Forwards.of_leads {ended : Option (Except String Unit)}
    (h : (serveSocksUdp socks clientIp).Leads completed s ended) : Forwards socks clientIp completed s := by
  induction h with
  | start => exact ⟨fun _ => ⟨rfl, rfl⟩, fun _ h => (by cases h), ⟨[], rfl, by simp, by simp⟩, .slnil⟩
  | next c _ harm ih => exact ih.next harm
  | stop c _ _ ih => exact ih.ignore c

/-! ## What the Edge does -/

/-- The Edge only adds to what it has written, and writes datagrams. -/
theorem udp_arm {s s' : ServeUdp} {c : Completed Unit UdpReceived}
    (h : (serveUdp ipv6 network).arm s c = some (.next s')) :
    ∃ added : List ProxyDatagram, (∀ d ∈ added, d.Representable) ∧
      s'.toClient = s.toClient ++ added.map datagramFrame := by
  have hrespond : ∀ source payload, s.respond source payload = .next s' →
      ∃ added : List ProxyDatagram, (∀ d ∈ added, d.Representable) ∧
        s'.toClient = s.toClient ++ added.map datagramFrame := by
    intro source payload hnext
    unfold ServeUdp.respond at hnext
    split at hnext
    · next bytes hencode =>
      cases hnext
      obtain ⟨hd, rfl⟩ := encodeProxyDatagram_eq_ok.1 hencode
      exact ⟨[responseDatagram source payload], by simpa using hd, rfl⟩
    · cases hnext
  cases c with
  | read i result =>
    refine ⟨[], by simp, ?_⟩
    cases result with
    | error error => cases h
    | ok frame =>
      have hhandle : s.handle ipv6 network frame = .next s' := Option.some.inj h
      unfold ServeUdp.handle at hhandle
      split at hhandle
      · split at hhandle <;> cases hhandle
        simp
      · cases hhandle
      · cases hhandle
  | other o =>
    cases o with
    | ipv4 source payload => exact hrespond source payload (Option.some.inj h)
    | ipv6 source payload =>
      exact hrespond source payload (Option.some.inj (Option.ite_none_right_eq_some.1 h).2)

theorem toClient_of_leads {completed : List (Completed Unit UdpReceived)} {s : ServeUdp}
    {ended : Option (Except String Unit)} (h : (serveUdp ipv6 network).Leads completed s ended) :
    ∃ written : List ProxyDatagram, (∀ d ∈ written, d.Representable) ∧
      s.toClient = written.map datagramFrame := by
  induction h with
  | start => exact ⟨[], by simp, rfl⟩
  | next c _ harm ih =>
    obtain ⟨written, hwritten, hbefore⟩ := ih
    obtain ⟨added, hadded, hafter⟩ := udp_arm harm
    exact ⟨written ++ added, List.forall_mem_append.2 ⟨hwritten, hadded⟩, by simp [hafter, hbefore]⟩
  | stop c _ _ ih => exact ih

/-- What the client is sent for a frame that the Edge has made of a packet. -/
theorem response_of_packet {packet : Address × List UInt8} {frame : Frame}
    (hvalid : socks.valid packet.1 = true) (h : returned packet = some frame) :
    socks.response frame.payload =
      (socks.newUdpHeader packet.1).map (fun header => header ++ packet.2) := by
  obtain ⟨hd, hframe⟩ := Option.ite_none_right_eq_some.1 h
  cases hframe
  have haddr : socks.parseAddr (responseDatagram packet.1 packet.2).target.host
      (responseDatagram packet.1 packet.2).target.port = some packet.1 :=
    socks.parseAddr_print packet.1 hvalid
  unfold Socks.response decoded datagramFrame
  rw [decode_layout hd]
  simp only [haddr, okOr, ok_bind]
  cases socks.newUdpHeader packet.1 <;> rfl

/-! ## Both together -/

/-- One side takes a step, and what it writes is fed to the other side: both readers stay in sync. -/
theorem linked {L : Loop Unit σ ο} {s t : Running Unit σ ο} {other : Running Unit τ π}
    {incoming : List Frame} {before after : List Frame} (hstep : Running.Step L BetweenFrames s t)
    (hall : ∀ frame ∈ incoming, Recognises (stage maxFrame) encode frame)
    (hreads : Progress incoming (s.readers ()) (s.results ())) (hgrows : before <+: after)
    (hopen : (other.readers ()).closes = false)
    (hother : Progress before (other.readers ()) (other.results ())) :
    Progress incoming (t.readers ()) (t.results ()) ∧
      Progress after ((fed other (after.drop before.length)).readers ())
        ((fed other (after.drop before.length)).results ()) := by
  refine ⟨hstep.progress (fun _ => hall) (fun _ => hreads) (), ?_⟩
  obtain ⟨new, rfl⟩ := hgrows
  rw [List.drop_left]
  exact hother.feed hopen (fun frame _ => by simp [encode])

structure Association.Sound (socks : Socks) (clientIp : String) (ipv6 : Bool) (network : Nat → Network)
    (a : Association) : Prop where
  daemon : a.daemon.Accounted (serveSocksUdp socks clientIp)
  edge : a.edge.Accounted (serveUdp ipv6 network)
  daemonReads : Progress a.edge.state.toClient (a.daemon.readers ()) (a.daemon.results ())
  edgeReads : Progress a.daemon.state.toEdge (a.edge.readers ()) (a.edge.results ())
  daemonOpen : (a.daemon.readers ()).closes = false
  edgeOpen : (a.edge.readers ()).closes = false
  valid : ∀ packet ∈ takenPackets a.edge.completed, socks.valid packet.1 = true

theorem recognises_datagrams {datagrams : List ProxyDatagram} (h : ∀ d ∈ datagrams, d.Representable) :
    ∀ frame ∈ datagrams.map datagramFrame, Recognises (stage maxFrame) encode frame := by
  intro frame hframe
  obtain ⟨d, hd, rfl⟩ := List.mem_map.1 hframe
  exact recognises (h d hd).fits

theorem Association.Sound.step (h : a.Sound socks clientIp ipv6 network)
    (hstep : Association.Step socks clientIp ipv6 network a b) :
    b.Sound socks clientIp ipv6 network := by
  cases hstep with
  | daemon daemon hstep =>
    obtain ⟨_, hleads, _⟩ := h.edge
    obtain ⟨written, hwritten, htoClient⟩ := toClient_of_leads hleads
    have hgrows : a.daemon.state.toEdge <+: daemon.state.toEdge := by
      obtain hsame | ⟨c, harm⟩ := hstep.state
      · exact hsame ▸ List.prefix_rfl
      · obtain hsame | ⟨_, _, _, _, _, hnext⟩ | ⟨_, _, _, _, _, _, hnext⟩ := socks_arm harm
        · exact hsame ▸ List.prefix_rfl
        · exact hnext ▸ List.prefix_rfl
        · exact hnext ▸ List.prefix_append _ _
    obtain ⟨hreads, hother⟩ := linked hstep (htoClient ▸ recognises_datagrams hwritten)
      h.daemonReads hgrows h.edgeOpen h.edgeReads
    exact ⟨hstep.accounted h.daemon, h.edge, hreads, hother, (hstep.readers_closes ()).trans h.daemonOpen,
      h.edgeOpen, h.valid⟩
  | edge edge hstep hvalid =>
    obtain ⟨_, hleads, _⟩ := h.daemon
    obtain ⟨forwarded, htoEdge, hforwarded, _⟩ := (Forwards.of_leads hleads).toEdge
    have hgrows : a.edge.state.toClient <+: edge.state.toClient := by
      obtain hsame | ⟨c, harm⟩ := hstep.state
      · exact hsame ▸ List.prefix_rfl
      · obtain ⟨added, _, hafter⟩ := udp_arm harm
        rw [hafter]
        exact List.prefix_append _ _
    obtain ⟨hreads, hother⟩ := linked hstep (htoEdge ▸ recognises_datagrams hforwarded)
      h.edgeReads hgrows h.daemonOpen h.daemonReads
    exact ⟨h.daemon, hstep.accounted h.edge, hother, hreads, h.daemonOpen,
      (hstep.readers_closes ()).trans h.edgeOpen, hvalid⟩

theorem Association.sound_of_reachable (h : (association socks clientIp ipv6 network).Reachable a) :
    a.Sound socks clientIp ipv6 network := by
  refine h.invariant ?_ ?_
  · rintro a rfl
    have hreads : Progress [] ⟨[], [], [], false⟩ [] :=
      ⟨[], [], 0, rfl, rfl, fun hlt => absurd hlt (by omega), .start (by simp)⟩
    exact ⟨Running.accounted_of_init rfl rfl, Running.accounted_of_init rfl rfl, hreads, hreads, rfl, rfl,
      by simp [start, takenPackets]⟩
  · rintro a b - hsound hstep
    exact hsound.step hstep

/-- The client of an association does not change. -/
theorem clientAddr_step {client : Address} (hstep : Association.Step socks clientIp ipv6 network a b)
    (h : a.daemon.state.clientAddr = some client) : b.daemon.state.clientAddr = some client := by
  cases hstep with
  | daemon daemon hstep =>
    obtain hsame | ⟨c, harm⟩ := hstep.state
    · exact hsame ▸ h
    · obtain hsame | ⟨_, _, _, _, _, hnext⟩ | ⟨source, _, _, _, hclient, _, hnext⟩ := socks_arm harm
      · exact hsame ▸ h
      · exact (congrArg ServeSocksUdp.clientAddr hnext).trans h
      · exact (congrArg ServeSocksUdp.clientAddr hnext).trans (congrArg some (hclient client h).symm)
  | edge edge _ _ => exact h

/-- The payloads that the daemon has read are the first ones that the Edge has written. -/
theorem payloads_of_progress {s : Running Unit ServeSocksUdp SocksReceived} {incoming : List Frame}
    (h : Progress incoming (s.readers ()) (s.results ())) :
    s.completed.filterMap payloadOf <+: incoming.map Frame.payload := by
  obtain ⟨handled, remaining, ends, rfl, hresults, _⟩ := h
  have hsame : s.completed.filterMap payloadOf =
      (s.results ()).filterMap (fun result => payloadOf (.read () result)) := by
    rw [Running.results, List.filterMap_filterMap]
    congr 1
    funext c
    cases c <;> simp [Completed.result, payloadOf]
  have hhandled : s.completed.filterMap payloadOf = handled.map Frame.payload := by
    rw [hsame, hresults]
    simp [payloadOf]
  rw [hhandled, List.map_append]
  exact List.prefix_append _ _

/-- **A UDP association serves one client.** Whoever sends packets to the two sides, as long as the
    branches of the two loops complete between frames, the datagrams that the Edge takes are what one
    client has asked for, an address of the host that opened the association: in its order, nothing
    twice, and nothing for anyone else. Each of them that can be delivered is sent. That client stays the
    same, and what it is sent are packets that came to the Edge, with their sources, in their order and
    none twice. -/
theorem udp_association_serves_one_client (h : (association socks clientIp ipv6 network).Reachable a) :
    (∀ client, a.daemon.state.clientAddr = some client → client.ip = clientIp ∧
      (a.edge.completed.filterMap datagramOf).Sublist (asked socks client a.daemon.completed) ∧
      ∀ b, (association socks clientIp ipv6 network).Steps a b →
        b.daemon.state.clientAddr = some client) ∧
    (a.daemon.state.clientAddr = none → a.edge.state.sent = [] ∧ a.daemon.state.toClient = []) ∧
    a.edge.state.sent =
      (takenDatagrams a.edge.completed).filterMap (fun d => delivery ipv6 (network d.2) d.1) ∧
    (a.daemon.state.toClient.map Except.ok).Sublist ((takenPackets a.edge.completed).map (fun packet =>
      (socks.newUdpHeader packet.1).map (fun header => header ++ packet.2))) := by
  have hsound := Association.sound_of_reachable h
  obtain ⟨_, hdaemon, _⟩ := hsound.daemon
  have hforwards := Forwards.of_leads hdaemon
  obtain ⟨forwarded, htoEdge, hrep, hasked⟩ := hforwards.toEdge
  have hsync : InSync .iroh (forwarded.map datagramFrame) (a.edge.readers ()) (a.edge.results ()) := by
    rw [← htoEdge]
    exact hsound.edgeReads.inSync _ (htoEdge ▸ recognises_datagrams hrep)
  obtain ⟨htaken, hall⟩ := taken_of_inSync hrep hsync
  obtain ⟨_, hedge, _⟩ := hsound.edge
  have hserved := Served.of_leads hedge hall
  refine ⟨fun client hclient => ?_, fun hnone => ?_, hserved.sent, ?_⟩
  · refine ⟨hforwards.pinned client hclient, htaken.sublist.trans (hasked client hclient), ?_⟩
    intro b hsteps
    refine System.Steps.preserves (P := fun b => b.daemon.state.clientAddr = some client) hsteps h ?_ hclient
    exact fun a b _ hbefore hstep => clientAddr_step hstep hbefore
  · obtain ⟨hnothing, hsilent⟩ := hforwards.unpinned hnone
    rw [htoEdge, List.map_eq_nil_iff] at hnothing
    rw [hnothing, List.prefix_nil] at htaken
    exact ⟨by simp [hserved.sent, takenDatagrams, htaken], hsilent⟩
  · refine hforwards.toClient.trans ?_
    refine ((payloads_of_progress hsound.daemonReads).sublist.map socks.response).trans ?_
    rw [hserved.toClient, List.map_map]
    exact Lists.map_filterMap_sublist
      (fun packet hpacket frame hframe => response_of_packet (hsound.valid packet hpacket) hframe)

/-! ## A sample run -/

inductive AssociationEvent where
  | daemon (event : LoopEvent SocksReceived)
  | edge (event : LoopEvent UdpReceived)

def Association.perform (socks : Socks) (clientIp : String) (ipv6 : Bool) (network : Nat → Network)
    (a : Association) : AssociationEvent → Option Association
  | .daemon event => (a.daemon.perform (serveSocksUdp socks clientIp) event).map a.afterDaemon
  | .edge event =>
    (a.edge.perform (serveUdp ipv6 network) event).bind (fun edge =>
      if (takenPackets edge.completed).all (fun packet => socks.valid packet.1) then
        some (a.afterEdge edge)
      else none)

theorem Association.step_of_perform {event : AssociationEvent}
    (h : a.perform socks clientIp ipv6 network event = some b) :
    Association.Step socks clientIp ipv6 network a b := by
  cases event with
  | daemon event =>
    obtain ⟨daemon, hdaemon, rfl⟩ := Option.map_eq_some_iff.1 h
    exact .daemon daemon (Running.step_of_perform hdaemon)
  | edge event =>
    obtain ⟨edge, hedge, h⟩ := Option.bind_eq_some_iff.1 h
    obtain ⟨hvalid, hsome⟩ := Option.ite_none_right_eq_some.1 h
    cases hsome
    exact .edge edge (Running.step_of_perform hedge) (List.all_eq_true.1 hvalid)

/-- An address is printed with a colon if it is one of IPv6. -/
def parsePrinted (host : String) (port : UInt16) : Address :=
  if ':' ∈ host.toList then .v6 host port else .v4 host port

theorem parsePrinted_print (address : Address)
    (h : decide (parsePrinted address.ip address.port = address) = true) :
    some (parsePrinted address.ip address.port) = some address :=
  congrArg some (of_decide_eq_true h)

/-- Requests that all ask for one host. -/
def sampleSocks : Socks where
  parseUdpRequest packet := packet.head?.map (fun fragment => (fragment, .domain "known" 53, packet.tail))
  newUdpHeader _ := .ok [0]
  parseAddr host port := some (parsePrinted host port)
  valid address := parsePrinted address.ip address.port = address
  parseAddr_print := parsePrinted_print

/-- A query of the client, one of somebody else, and an answer. -/
def sampleAssociation : List AssociationEvent :=
  [.daemon (.other (.udp (.v4 "127.0.0.1" 4000) [0, 7])), .daemon (.other (.udp (.v4 "127.0.0.1" 4001) [0, 9])),
    .edge (.arrive 14), .edge .poll, .edge (.other (.ipv4 (.v4 "192.0.2.1" 53) [8])),
    .daemon (.arrive 18), .daemon .poll]

theorem sampleAssociation_serves_one_client : ∃ a,
    (association sampleSocks "127.0.0.1" true (fun _ => knowsOne)).Reachable a ∧
      a.daemon.state.clientAddr = some (.v4 "127.0.0.1" 4000) ∧ a.edge.state.sent.length = 1 ∧
      a.daemon.state.toClient.length = 1 ∧
      (a.edge.completed.filterMap datagramOf).Sublist
        (asked sampleSocks (.v4 "127.0.0.1" 4000) a.daemon.completed) := by
  obtain ⟨a, hr, hcheck⟩ := exists_reachable
    (S := association sampleSocks "127.0.0.1" true (fun _ => knowsOne))
    (fun a b event hperform => Association.step_of_perform hperform) rfl
    (show (runAll (Association.perform sampleSocks "127.0.0.1" true (fun _ => knowsOne)) .start
      sampleAssociation).any (fun a => decide (a.daemon.state.clientAddr = some (.v4 "127.0.0.1" 4000) ∧
        a.edge.state.sent.length = 1 ∧ a.daemon.state.toClient.length = 1)) = true by decide +kernel)
  obtain ⟨hclient, hsent, hdelivered⟩ := of_decide_eq_true hcheck
  exact ⟨a, hr, hclient, hsent, hdelivered,
    ((udp_association_serves_one_client hr).1 _ hclient).2.1⟩

end AgentScale.Proxy
