import AgentScale.Transport.Datagram
import AgentScale.Transport.SelectLoop

set_option autoImplicit false

/-! # The loops that read frames inside `select!`

The daemon's `relay_mcp`, the Client's `mcp_run` and `serve_socks_udp`, the Edge's `mcp_stdio` and
`serve_udp`. What their arms write goes to the local variables here. A read that returns no bytes is the
end of its stream or an error, which the loops treat alike; any other I/O error is `Running.Step.fail`. -/

namespace AgentScale.Transport

open Checked Transition

/-! ## `relay_mcp` -/

/-- The two readers of `relay_mcp`. -/
inductive Side where
  | client
  | edge
deriving DecidableEq

structure RelayMcp where
  clientOpen : Bool
  toEdge : List Frame
  edgeFinished : Bool
  toClient : List Frame

def RelayMcp.handle (s : RelayMcp) : Side → Option Frame → Verdict RelayMcp
  | .client, some ⟨.data, payload⟩ => .next { s with toEdge := s.toEdge ++ [⟨.data, payload⟩] }
  -- half-close to the edge, keep relaying back
  | .client, _ => .next { s with edgeFinished := true, clientOpen := false }
  | .edge, some ⟨.data, payload⟩ => .next { s with toClient := s.toClient ++ [⟨.data, payload⟩] }
  | .edge, some ⟨.stderr, payload⟩ => .next { s with toClient := s.toClient ++ [⟨.stderr, payload⟩] }
  | .edge, _ => .stop (.ok ())

def relayMcp : Loop Side RelayMcp Empty where
  initial := ⟨true, [], false, []⟩
  wire
    | .client => .io
    | .edge => .iroh
  enabled s
    | .client => s.clientOpen
    | .edge => true
  handle := RelayMcp.handle
  other _ o := nomatch o

/-! ## `mcp_run` -/

structure McpRun where
  stdinOpen : Bool
  toDaemon : List Frame
  shutdown : Bool
  stdout : List UInt8
  stderr : List UInt8

def McpRun.handle (s : McpRun) : Option Frame → Verdict McpRun
  | some ⟨.data, payload⟩ => .next { s with stdout := s.stdout ++ payload }
  | some ⟨.stderr, payload⟩ => .next { s with stderr := s.stderr ++ payload }
  | _ => .stop (.ok ())

/-- The branch of `stdin.read`. -/
def McpRun.stdin (s : McpRun) (bytes : List UInt8) : Option (Verdict McpRun) :=
  if s.stdinOpen then
    if bytes = [] then some (.next { s with shutdown := true, stdinOpen := false })
    else some (.next { s with toDaemon := s.toDaemon ++ [⟨.data, bytes⟩] })
  else none

def mcpRun : Loop Unit McpRun (List UInt8) where
  initial := ⟨true, [], false, [], []⟩
  wire _ := .io
  enabled _ _ := true
  handle s _ := s.handle
  other := McpRun.stdin

/-! ## `mcp_stdio` -/

structure McpStdio where
  clientOpen : Bool
  /-- Whether `child_stdin` is there, and what has been written to it. -/
  stdinOpen : Bool
  stdin : List UInt8
  stderrOpen : Bool
  toClient : List Frame

def McpStdio.handle (s : McpStdio) : Option Frame → Verdict McpStdio
  | some ⟨.data, payload⟩ =>
    .next (if s.stdinOpen then { s with stdin := s.stdin ++ payload } else s)
  | _ => .next { s with stdinOpen := false, clientOpen := false }

/-- The output of the child that has been read. -/
inductive ChildRead where
  | stdout (bytes : List UInt8)
  | stderr (bytes : List UInt8)

def McpStdio.read (s : McpStdio) : ChildRead → Option (Verdict McpStdio)
  | .stdout bytes =>
    if bytes = [] then some (.stop (.ok ()))
    else some (.next { s with toClient := s.toClient ++ [⟨.data, bytes⟩] })
  | .stderr bytes =>
    if s.stderrOpen then
      if bytes = [] then some (.next { s with stderrOpen := false })
      else some (.next { s with toClient := s.toClient ++ [⟨.stderr, bytes⟩] })
    else none

def mcpStdio : Loop Unit McpStdio ChildRead where
  initial := ⟨true, true, [], true, []⟩
  wire _ := .iroh
  enabled s _ := s.clientOpen
  handle s _ := s.handle
  other := McpStdio.read

/-! ## `serve_udp` -/

/-- `SocketAddr`, with the IP address as it is printed. -/
inductive Address where
  | v4 (ip : String) (port : UInt16)
  | v6 (ip : String) (port : UInt16)
deriving DecidableEq

def Address.ip : Address → String
  | .v4 ip _ => ip
  | .v6 ip _ => ip

def Address.port : Address → UInt16
  | .v4 _ port => port
  | .v6 _ port => port

/-- `lookup_host` with its timeout. -/
inductive Lookup where
  | timedOut
  | failed (error : String)
  | resolved (addrs : List Address)

/-- What the resolver and the sockets answer for one datagram. -/
structure Network where
  lookup : ProxyTarget → Lookup
  sendTo : Address → List UInt8 → Except String Unit

/-- The loop of `send_udp` over the addresses, with the last error; it returns the one that it has sent
    to. `ipv6` says whether there is a socket for them. -/
def sendToFirst (ipv6 : Bool) (sendTo : Address → Except String Unit) :
    Option String → List Address → Except String Address
  | lastError, [] => .error (lastError.getD "proxy target did not resolve to a supported address")
  | lastError, addr :: addrs =>
    match addr, ipv6 with
    | .v6 _ _, false => sendToFirst ipv6 sendTo lastError addrs
    | _, _ =>
      match sendTo addr with
      | .ok () => .ok addr
      | .error error => sendToFirst ipv6 sendTo (some error) addrs

def sendUdp (ipv6 : Bool) (network : Network) (datagram : ProxyDatagram) : Except String Address :=
  match network.lookup datagram.target with
  | .timedOut => .error "proxy target resolution timed out"
  | .failed error => .error error
  | .resolved addrs => sendToFirst ipv6 (fun addr => network.sendTo addr datagram.payload) none addrs

def decoded (payload : List UInt8) : Except String ProxyDatagram :=
  match decodeProxyDatagram payload with
  | .ok datagram => .ok datagram
  | .error (.error error) => .error error
  | .error .panic => .error "panicked"

structure ServeUdp where
  /-- What has been sent to the network, and to which address. -/
  sent : List (Address × List UInt8)
  toClient : List Frame

/-- The arm of a datagram, and what it has sent. -/
def deliver (ipv6 : Bool) (network : Network) (payload : List UInt8) :
    Except String (Address × List UInt8) := do
  let datagram ← decoded payload
  let addr ← sendUdp ipv6 network datagram
  return (addr, datagram.payload)

/-- `network` answers each datagram on its own, by how many have been sent before. -/
def ServeUdp.handle (ipv6 : Bool) (network : Nat → Network) (s : ServeUdp) :
    Option Frame → Verdict ServeUdp
  | some ⟨.data, payload⟩ =>
    match deliver ipv6 (network s.sent.length) payload with
    | .ok sent => .next { s with sent := s.sent ++ [sent] }
    | .error error => .stop (.error error)
  | some frame => .stop (.error ("unexpected UDP proxy frame tag " ++ frame.tag.display))
  | none => .stop (.ok ())

/-- A packet that `recv_from` of a socket has returned. -/
inductive UdpReceived where
  | ipv4 (source : Address) (payload : List UInt8)
  | ipv6 (source : Address) (payload : List UInt8)

/-- The datagram `write_udp_response` makes of a packet. -/
def responseDatagram (source : Address) (payload : List UInt8) : ProxyDatagram :=
  ⟨⟨source.ip, source.port⟩, payload⟩

def ServeUdp.respond (s : ServeUdp) (source : Address) (payload : List UInt8) : Verdict ServeUdp :=
  match encodeProxyDatagram (responseDatagram source payload) with
  | .ok bytes => .next { s with toClient := s.toClient ++ [⟨.data, bytes⟩] }
  | .error error => .stop (.error error)

/-- `ipv6` says whether the second socket could be bound. -/
def ServeUdp.receive (ipv6 : Bool) (s : ServeUdp) : UdpReceived → Option (Verdict ServeUdp)
  | .ipv4 source payload => some (s.respond source payload)
  | .ipv6 source payload => if ipv6 then some (s.respond source payload) else none

def serveUdp (ipv6 : Bool) (network : Nat → Network) : Loop Unit ServeUdp UdpReceived where
  initial := ⟨[], []⟩
  wire _ := .iroh
  enabled _ _ := true
  handle s _ := s.handle ipv6 network
  other := ServeUdp.receive ipv6

/-! ## `serve_socks_udp` -/

/-- `TargetAddr` of a SOCKS request. -/
inductive TargetAddr where
  | ip (address : Address)
  | domain (host : String) (port : UInt16)

def proxyTarget : TargetAddr → ProxyTarget
  | .ip address => ⟨address.ip, address.port⟩
  | .domain host port => ⟨host, port⟩

/-- What the SOCKS library and the parser of IP addresses do. `valid` are the addresses that there are:
    each of them is read back from what it is printed as. -/
structure Socks where
  parseUdpRequest : List UInt8 → Option (UInt8 × TargetAddr × List UInt8)
  newUdpHeader : Address → Except String (List UInt8)
  parseAddr : String → UInt16 → Option Address
  valid : Address → Bool
  parseAddr_print : ∀ address, valid address = true → parseAddr address.ip address.port = some address

/-- The datagram that a packet of the client asks for, unless it is a fragment or no request. -/
def Socks.request (socks : Socks) (packet : List UInt8) : Option ProxyDatagram :=
  match socks.parseUdpRequest packet with
  | some (fragment, target, payload) => if fragment = 0 then some ⟨proxyTarget target, payload⟩ else none
  | none => none

/-- What the client is sent for the payload of a frame. -/
def Socks.response (socks : Socks) (payload : List UInt8) : Except String (List UInt8) := do
  let datagram ← decoded payload
  let source ← okOr (socks.parseAddr datagram.target.host datagram.target.port)
    "invalid IP address syntax"
  let header ← socks.newUdpHeader source
  return header ++ datagram.payload

structure ServeSocksUdp where
  clientAddr : Option Address
  toEdge : List Frame
  /-- The packets that have been sent to the client. -/
  toClient : List (List UInt8)

def ServeSocksUdp.handle (socks : Socks) (s : ServeSocksUdp) : Option Frame → Verdict ServeSocksUdp
  | some ⟨.data, payload⟩ =>
    if s.clientAddr = none then .next s
    else
      match socks.response payload with
      | .ok packet => .next { s with toClient := s.toClient ++ [packet] }
      | .error error => .stop (.error error)
  | some frame => .stop (.error ("unexpected Edge UDP proxy frame tag " ++ frame.tag.display))
  | none => .stop (.ok ())

/-- A byte of the control connection or its end, or a packet at the UDP socket. -/
inductive SocksReceived where
  | control (byte : Option UInt8)
  | udp (source : Address) (packet : List UInt8)

def ServeSocksUdp.receive (socks : Socks) (clientIp : String) (s : ServeSocksUdp) :
    SocksReceived → Option (Verdict ServeSocksUdp)
  | .control none => some (.stop (.ok ()))
  | .control (some _) => some (.next s)
  | .udp source packet =>
    if source.ip ≠ clientIp ∨ s.clientAddr.any (· ≠ source) then some (.next s)
    else
      let s := { s with clientAddr := some source }
      match socks.request packet with
      | none => some (.next s)
      | some datagram =>
        match encodeProxyDatagram datagram with
        | .ok bytes => some (.next { s with toEdge := s.toEdge ++ [⟨.data, bytes⟩] })
        | .error error => some (.stop (.error error))

def serveSocksUdp (socks : Socks) (clientIp : String) : Loop Unit ServeSocksUdp SocksReceived where
  initial := ⟨none, [], []⟩
  wire _ := .iroh
  enabled _ _ := true
  handle s _ := s.handle socks
  other := ServeSocksUdp.receive socks clientIp

/-! ## All of them -/

inductive FramedLoop where
  | relayMcp
  | mcpRun
  | mcpStdio
  | serveUdp (ipv6 : Bool) (network : Nat → Network)
  | serveSocksUdp (socks : Socks) (clientIp : String)

def FramedLoop.Branch : FramedLoop → Type
  | .relayMcp => Side
  | _ => Unit

def FramedLoop.State : FramedLoop → Type
  | .relayMcp => RelayMcp
  | .mcpRun => McpRun
  | .mcpStdio => McpStdio
  | .serveUdp _ _ => ServeUdp
  | .serveSocksUdp _ _ => ServeSocksUdp

def FramedLoop.Completion : FramedLoop → Type
  | .relayMcp => Empty
  | .mcpRun => List UInt8
  | .mcpStdio => ChildRead
  | .serveUdp _ _ => UdpReceived
  | .serveSocksUdp _ _ => SocksReceived

instance (l : FramedLoop) : DecidableEq l.Branch :=
  match l with
  | .relayMcp => inferInstanceAs (DecidableEq Side)
  | .mcpRun => inferInstanceAs (DecidableEq Unit)
  | .mcpStdio => inferInstanceAs (DecidableEq Unit)
  | .serveUdp _ _ => inferInstanceAs (DecidableEq Unit)
  | .serveSocksUdp _ _ => inferInstanceAs (DecidableEq Unit)

def FramedLoop.loop : (l : FramedLoop) → Loop l.Branch l.State l.Completion
  | .relayMcp => Transport.relayMcp
  | .mcpRun => Transport.mcpRun
  | .mcpStdio => Transport.mcpStdio
  | .serveUdp ipv6 network => Transport.serveUdp ipv6 network
  | .serveSocksUdp socks clientIp => Transport.serveSocksUdp socks clientIp

/-- **Framed readers lose nothing** in any of the loops, whatever the peers send, however it arrives and
    whatever the other branches do, as long as no branch completes while another reader has taken part
    of a frame: each reader has returned the first of the frames sent, and the local variables, with all
    that has been written, are what the arms have made of these frames and the other completions. -/
theorem framed_readers_lose_nothing (l : FramedLoop) (sent : l.Branch → List Frame)
    (closes : l.Branch → Bool) (s : Running l.Branch l.State l.Completion)
    (hs : (selectWhere l.loop BetweenFrames sent closes).Reachable s) :
    (∀ i, InSync (l.loop.wire i) (sent i) (s.readers i) (s.results i)) ∧ s.Accounted l.loop :=
  ⟨inSync_of_reachable hs, accounted_of_reachable hs⟩

/-- The Edge writes one frame, and the Client an empty one. -/
def oneFrameEach : Side → List Frame
  | .client => [⟨.data, []⟩]
  | .edge => [⟨.data, [7, 0, 0, 0, 0]⟩]

/-- `relay_mcp` at its start, with these frames on the way. -/
def relayStart : Running Side RelayMcp Empty where
  state := relayMcp.initial
  readers
    | .client => ⟨[5, 0, 0, 0, 0], [], [], false⟩
    | .edge => ⟨[5, 5, 0, 0, 0, 7, 0, 0, 0, 0], [], [], false⟩
  completed := []
  stopped := none

theorem relayStart_init (allowed : Running Side RelayMcp Empty → Option Side → Prop) :
    (selectWhere relayMcp allowed oneFrameEach (fun _ => false)).init relayStart := by
  refine ⟨rfl, fun i => ?_, rfl, rfl⟩
  cases i <;> decide

def Running.arriveAt (s : Running Side RelayMcp Empty) (i : Side) (n : Nat) : Running Side RelayMcp Empty :=
  { s with readers := Function.update s.readers i ((s.readers i).arrive n) }

/-- The frame of the Edge arrives in one piece. -/
theorem relayed_frame_is_read : InSync .iroh (oneFrameEach .edge)
    (((relayStart.arriveAt .edge 10).poll relayMcp .edge).readers .edge)
    (((relayStart.arriveAt .edge 10).poll relayMcp .edge).results .edge) := by
  refine (framed_readers_lose_nothing .relayMcp oneFrameEach (fun _ => false) _
    ⟨relayStart, relayStart_init _, .tail (.single (.arrive relayStart .edge 10))
      (.poll (relayStart.arriveAt .edge 10) .edge rfl rfl ?_)⟩).1 .edge
  intro _ i hi
  cases i with
  | client => rfl
  | edge => exact absurd rfl hi

/-! ## What is lost -/

/-- A reader that has returned nothing and has fewer bytes left than were sent is out of sync. -/
theorem not_inSync_of_lost {wire : Wire} {sent : List Frame} {r : Reader}
    (h : (r.taken ++ r.arrived ++ r.coming).length < (sent.flatMap encode).length) :
    ¬ InSync wire sent r [] := by
  rintro ⟨handled, remaining, ends, rfl, hresults, _, hstream, _⟩
  obtain rfl : handled = [] := by
    have hnil := List.append_eq_nil_iff.1 hresults.symm
    exact List.map_eq_nil_iff.1 hnil.1
  rw [hstream] at h
  exact absurd h (by simp)

section Loss

variable {ι σ ο : Type} [DecidableEq ι]

def frameFor (i j : ι) : List Frame := if j = i then [⟨.data, [7]⟩] else []

def startFor (L : Loop ι σ ο) (i : ι) : Running ι σ ο where
  state := L.initial
  readers j := if j = i then ⟨[5, 1, 0, 0, 0, 7], [], [], false⟩ else ⟨[], [], [], false⟩
  completed := []
  stopped := none

/-- If a branch that is not a reader can complete at the start, the reader loses the byte it has taken
    of the first frame. -/
theorem Loop.loses_byte (L : Loop ι σ ο) (i : ι) (o : ο) (verdict : Verdict σ)
    (henabled : L.enabled L.initial i = true) (hother : L.other L.initial o = some verdict) :
    ∃ s, (selectWhere L (fun _ _ => True) (frameFor i) (fun _ => false)).Reachable s ∧
      ¬ InSync (L.wire i) (frameFor i i) (s.readers i) (s.results i) := by
  let arrived : Running ι σ ο := { startFor L i with
    readers := Function.update (startFor L i).readers i (((startFor L i).readers i).arrive 1) }
  have hreader : arrived.readers i = ⟨[1, 0, 0, 0, 7], [5], [], false⟩ := by
    simp [arrived, startFor, Reader.arrive]
  have hpoll : (arrived.readers i).poll (L.wire i) = (⟨[1, 0, 0, 0, 7], [], [5], false⟩, none) := by
    rw [hreader]
    rfl
  have hpolled : arrived.poll L i = { arrived with
      readers := Function.update arrived.readers i ⟨[1, 0, 0, 0, 7], [], [5], false⟩ } := by
    simp only [Running.poll, hpoll]
  have hinit : (selectWhere L (fun _ _ => True) (frameFor i) (fun _ => false)).init
      (startFor L i) := by
    refine ⟨rfl, fun j => ?_, rfl, rfl⟩
    by_cases hj : j = i
    · simp only [startFor, frameFor, if_pos hj]
      decide
    · simp only [startFor, frameFor, if_neg hj]
      decide
  have hfirst : Running.Step L (fun _ _ => True) (startFor L i) arrived := .arrive _ i 1
  have hsecond : Running.Step L (fun _ _ => True) arrived (arrived.poll L i) :=
    .poll _ i rfl henabled (fun _ => trivial)
  have hthird : Running.Step L (fun _ _ => True) (arrived.poll L i)
      ((arrived.poll L i).conclude (.other o) verdict) := by
    refine .other _ o verdict ?_ ?_ trivial
    · rw [hpolled]
      rfl
    · rw [hpolled]
      exact hother
  refine ⟨_, ⟨startFor L i, hinit, .tail (.tail (.single hfirst) hsecond) hthird⟩, ?_⟩
  have hnone : ((arrived.poll L i).conclude (.other o) verdict).results i = [] := by
    rw [Running.conclude_results, hpolled]
    rfl
  rw [hnone, Running.conclude_readers, hpolled]
  simp only [Function.update_self]
  refine not_inSync_of_lost ?_
  simp [Reader.drop, frameFor, encode, toLeBytes]

/-- A `read_frame` that has failed is out of sync: the peer has written frames only. -/
theorem not_inSync_of_error {wire : Wire} {sent : List Frame} {r : Reader} {e : String}
    {results : List (Except String (Option Frame))} (h : .error e ∈ results) :
    ¬ InSync wire sent r results := by
  rintro ⟨handled, remaining, ends, _, rfl, _⟩
  rcases List.mem_append.1 h with hmem | hmem
  · obtain ⟨frame, _, hframe⟩ := List.mem_map.1 hmem
    cases hframe
  · cases List.eq_of_mem_replicate hmem

end Loss

/-- The header of the Edge's frame has arrived when the Client's frame completes its branch. -/
def relayAfterClient : Running Side RelayMcp Empty :=
  (((relayStart.arriveAt .edge 5).poll relayMcp .edge).arriveAt .client 5).poll relayMcp .client

/-- The payload of the Edge's frame is then read as a header. -/
def relayAfterPayload : Running Side RelayMcp Empty :=
  (relayAfterClient.arriveAt .edge 5).poll relayMcp .edge

theorem relayAfterPayload_reachable :
    (selectWhere relayMcp (fun _ _ => True) oneFrameEach (fun _ => false)).Reachable
      relayAfterPayload := by
  have harrive : ∀ (s : Running Side RelayMcp Empty) (i : Side) (n : Nat),
      Running.Step relayMcp (fun _ _ => True) s (s.arriveAt i n) := fun s i n => .arrive s i n
  have hpoll : ∀ (s : Running Side RelayMcp Empty) (i : Side), s.stopped = none →
      relayMcp.enabled s.state i = true →
      Running.Step relayMcp (fun _ _ => True) s (s.poll relayMcp i) :=
    fun s i hrunning henabled => .poll s i hrunning henabled (fun _ => trivial)
  have hstart : (selectWhere relayMcp (fun _ _ => True) oneFrameEach (fun _ => false)).Reachable
      relayStart := ⟨relayStart, relayStart_init _, .refl⟩
  have hheader := (hstart.step (harrive _ .edge 5)).step (hpoll _ .edge rfl rfl)
  have hclient := (hheader.step (harrive _ .client 5)).step (hpoll _ .client rfl rfl)
  exact (hclient.step (harrive _ .edge 5)).step (hpoll _ .edge rfl rfl)

/-- In each of the loops a branch that completes makes a reader lose what it has taken of a frame. In
    `relay_mcp` a frame of the Client can make the session fail on the payload of a frame of the
    Edge. -/
theorem completed_branch_loses_frame :
    (∀ l : FramedLoop, ∃ sent closes s i,
      (selectWhere l.loop (fun _ _ => True) sent closes).Reachable s ∧
        ¬ InSync (l.loop.wire i) (sent i) (s.readers i) (s.results i)) ∧
    ∃ s, (selectWhere relayMcp (fun _ _ => True) oneFrameEach (fun _ => false)).Reachable s ∧
      s.stopped = some (.error "unknown frame tag 7") := by
  refine ⟨fun l => ?_, relayAfterPayload, relayAfterPayload_reachable, by decide⟩
  cases l with
  | relayMcp =>
    have hresult : Except.error "unknown frame tag 7" ∈ relayAfterPayload.results .edge := by decide
    exact ⟨_, _, _, Side.edge, relayAfterPayload_reachable, not_inSync_of_error hresult⟩
  | mcpRun =>
    obtain ⟨s, hs, hlost⟩ := mcpRun.loses_byte () [] _ rfl rfl
    exact ⟨_, _, s, (), hs, hlost⟩
  | mcpStdio =>
    obtain ⟨s, hs, hlost⟩ := mcpStdio.loses_byte () (.stderr []) _ rfl rfl
    exact ⟨_, _, s, (), hs, hlost⟩
  | serveUdp ipv6 network =>
    obtain ⟨s, hs, hlost⟩ := (serveUdp ipv6 network).loses_byte () (.ipv4 (.v4 "" 0) []) _ rfl rfl
    exact ⟨_, _, s, (), hs, hlost⟩
  | serveSocksUdp socks clientIp =>
    obtain ⟨s, hs, hlost⟩ := (serveSocksUdp socks clientIp).loses_byte () (.control (some 0)) _ rfl rfl
    exact ⟨_, _, s, (), hs, hlost⟩

end AgentScale.Transport
