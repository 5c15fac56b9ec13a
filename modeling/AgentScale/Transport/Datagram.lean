import AgentScale.Library.Bytes
import AgentScale.Transport.Frame

set_option autoImplicit false

/-! # Proxied UDP packets

`encode_proxy_datagram` and `decode_proxy_datagram`: the length of the host in one byte, the port in two,
most significant first, the host and the payload. The payload takes what is left of the frame. The
decoder gets what a peer has sent; its accesses to the bytes are checked, as in the source. -/

namespace AgentScale.Transport

open Checked Bytes

structure ProxyTarget where
  host : String
  port : UInt16
deriving DecidableEq

structure ProxyDatagram where
  target : ProxyTarget
  payload : List UInt8
deriving DecidableEq

def maxUdpPayload : Nat := 65507

def encodeProxyDatagram (datagram : ProxyDatagram) : Except String (List UInt8) := do
  let host := utf8 datagram.target.host
  ensure (host ≠ []) "proxy datagram host is empty"
  ensure (host.length ≤ 255) "proxy datagram host is too long"
  ensure (datagram.target.port ≠ 0) "proxy datagram port is zero"
  ensure (datagram.payload.length ≤ maxUdpPayload)
    ("proxy UDP payload is too large: " ++ toString datagram.payload.length)
  return UInt8.ofNat host.length :: toBeBytes datagram.target.port ++ host ++ datagram.payload

def decodeProxyDatagram (encoded : List UInt8) : Except (Abort String) ProxyDatagram := do
  ensure (4 ≤ encoded.length) (.error "proxy datagram is truncated")
  let first ← index encoded 0
  let hostLen := first.toNat
  let payloadOffset ← okOr (U64.checkedAdd 3 hostLen) (.error "proxy datagram length overflow")
  ensure (hostLen ≠ 0 ∧ payloadOffset ≤ encoded.length) (.error "proxy datagram host is truncated")
  let high ← index encoded 1
  let low ← index encoded 2
  let port := fromBeBytes high low
  ensure (port ≠ 0) (.error "proxy datagram port is zero")
  let hostBytes ← slice encoded 3 payloadOffset
  let host ← okOr (fromUtf8 hostBytes) (.error "proxy datagram host is not UTF-8")
  let payload ← slice encoded payloadOffset encoded.length
  ensure (payload.length ≤ maxUdpPayload)
    (.error ("proxy UDP payload is too large: " ++ toString payload.length))
  return ⟨⟨host, port⟩, payload⟩

/-! ## The format -/

/-- The datagrams that the format can carry. -/
structure ProxyDatagram.Representable (d : ProxyDatagram) : Prop where
  hostNonempty : 1 ≤ (utf8 d.target.host).length
  hostLength : (utf8 d.target.host).length ≤ 255
  port : d.target.port ≠ 0
  payload : d.payload.length ≤ maxUdpPayload

instance (d : ProxyDatagram) : Decidable d.Representable :=
  decidable_of_iff (1 ≤ (utf8 d.target.host).length ∧ (utf8 d.target.host).length ≤ 255 ∧
      d.target.port ≠ 0 ∧ d.payload.length ≤ maxUdpPayload)
    ⟨fun h => ⟨h.1, h.2.1, h.2.2.1, h.2.2.2⟩, fun h => ⟨h.1, h.2, h.3, h.4⟩⟩

def ProxyDatagram.layout (d : ProxyDatagram) : List UInt8 :=
  UInt8.ofNat (utf8 d.target.host).length :: toBeBytes d.target.port ++ utf8 d.target.host ++ d.payload

variable {d : ProxyDatagram} {bytes : List UInt8}

theorem encodeProxyDatagram_eq_ok :
    encodeProxyDatagram d = .ok bytes ↔ d.Representable ∧ d.layout = bytes := by
  unfold encodeProxyDatagram
  constructor
  · intro h
    obtain ⟨_, hempty, h⟩ := of_bind h
    obtain ⟨_, hlong, h⟩ := of_bind h
    obtain ⟨_, hport, h⟩ := of_bind h
    obtain ⟨_, hpayload, h⟩ := of_bind h
    rw [ensure_eq_ok] at hempty hlong hport hpayload
    exact ⟨⟨List.length_pos_iff.2 hempty, hlong, hport, hpayload⟩, pure_eq_ok.1 h⟩
  · rintro ⟨hd, hbytes⟩
    dsimp only
    rw [ensure_of (List.length_pos_iff.1 hd.hostNonempty), ok_bind, ensure_of hd.hostLength, ok_bind,
      ensure_of hd.port, ok_bind, ensure_of hd.payload, ok_bind, pure_eq_ok]
    exact hbytes

/-- What the decoder accepts is the layout of a datagram that the format can carry. -/
theorem layout_of_decode (h : decodeProxyDatagram bytes = .ok d) :
    d.Representable ∧ d.layout = bytes := by
  unfold decodeProxyDatagram at h
  obtain ⟨_, hfour, h⟩ := of_bind h
  obtain ⟨first, hfirst, h⟩ := of_bind h
  obtain ⟨offset, hoffset, h⟩ := of_bind h
  obtain ⟨_, hhost, h⟩ := of_bind h
  obtain ⟨high, hhigh, h⟩ := of_bind h
  obtain ⟨low, hlow, h⟩ := of_bind h
  obtain ⟨_, hport, h⟩ := of_bind h
  obtain ⟨hostBytes, hslice, h⟩ := of_bind h
  obtain ⟨host, hutf8, h⟩ := of_bind h
  obtain ⟨payload, hrest, h⟩ := of_bind h
  obtain ⟨_, hpayload, h⟩ := of_bind h
  cases h
  rw [ensure_eq_ok] at hfour hhost hport hpayload
  rw [index_eq_ok] at hfirst hhigh hlow
  obtain ⟨_, rfl⟩ := U64.checkedAdd_eq_some.1 (okOr_eq_ok.1 hoffset)
  obtain ⟨_, hslice⟩ := slice_eq_ok.1 hslice
  obtain ⟨_, hrest⟩ := slice_eq_ok.1 hrest
  have hhostBytes := fromUtf8_eq_some.1 (okOr_eq_ok.1 hutf8)
  -- the first three bytes are there, so the slices are slices of the rest
  obtain ⟨a, b, c, rest, rfl⟩ : ∃ a b c rest, bytes = a :: b :: c :: rest := by
    rcases bytes with _ | ⟨a, _ | ⟨b, _ | ⟨c, rest⟩⟩⟩ <;> simp at hfour ⊢
  simp only [List.getElem?_cons_zero, List.getElem?_cons_succ, Option.some.injEq] at hfirst hhigh hlow
  subst hfirst hhigh hlow
  simp only [List.length_cons] at hhost
  have htake : utf8 host = rest.take a.toNat := by
    rw [hhostBytes, ← hslice, Nat.add_comm 3]
    simp
  have hdrop : payload = rest.drop a.toNat := by
    rw [← hrest, List.take_length, Nat.add_comm 3]
    simp
  have hlength : (utf8 host).length = a.toNat := by
    rw [htake, List.length_take]
    omega
  have ha := a.toNat_lt
  refine ⟨⟨?_, ?_, hport, hpayload⟩, ?_⟩
  · dsimp only
    omega
  · dsimp only
    omega
  · simp only [ProxyDatagram.layout, toBeBytes_fromBeBytes, hlength, hdrop]
    simp [htake]

/-- The decoder gives back a datagram that the format can carry. -/
theorem decode_layout (hd : d.Representable) :
    decodeProxyDatagram d.layout = .ok d := by
  have hlength := hd.hostLength
  have hpositive := hd.hostNonempty
  have hlen : (UInt8.ofNat (utf8 d.target.host).length).toNat = (utf8 d.target.host).length := by
    rw [UInt8.toNat_ofNat']
    omega
  have hsize : d.layout.length = 3 + (utf8 d.target.host).length + d.payload.length := by
    simp [ProxyDatagram.layout, toBeBytes]
    omega
  have hdecode : decodeProxyDatagram d.layout = .ok ⟨⟨d.target.host, d.target.port⟩, d.payload⟩ := by
    unfold decodeProxyDatagram
    refine bind_ok (ensure_of (by omega)) ?_
    refine bind_eq_ok.2 ⟨UInt8.ofNat (utf8 d.target.host).length, index_eq_ok.2 rfl, ?_⟩
    rw [hlen]
    refine bind_eq_ok.2 ⟨3 + (utf8 d.target.host).length, ?_, ?_⟩
    · rw [okOr_eq_ok, U64.checkedAdd_eq_some]
      exact ⟨by unfold U64.maxValue; omega, rfl⟩
    refine bind_ok (ensure_of (by omega)) ?_
    refine bind_eq_ok.2 ⟨UInt8.ofNat (d.target.port.toNat / 256), index_eq_ok.2 rfl, ?_⟩
    refine bind_eq_ok.2 ⟨UInt8.ofNat (d.target.port.toNat % 256), index_eq_ok.2 rfl, ?_⟩
    rw [fromBeBytes_toBeBytes]
    refine bind_ok (ensure_of hd.port) ?_
    refine bind_eq_ok.2 ⟨utf8 d.target.host, slice_eq_ok.2 ⟨by omega, ?_⟩, ?_⟩
    · rw [Nat.add_comm 3]
      simp [ProxyDatagram.layout, toBeBytes]
    refine bind_eq_ok.2 ⟨d.target.host, okOr_eq_ok.2 (fromUtf8_eq_some.2 rfl), ?_⟩
    refine bind_eq_ok.2 ⟨d.payload, slice_eq_ok.2 ⟨by omega, ?_⟩, ?_⟩
    · rw [List.take_length, Nat.add_comm 3]
      simp [ProxyDatagram.layout, toBeBytes]
    exact bind_ok (ensure_of hd.payload) rfl
  exact hdecode

/-- What one side makes of a datagram is what the other makes it from. -/
theorem decodeProxyDatagram_eq_ok :
    decodeProxyDatagram bytes = .ok d ↔ encodeProxyDatagram d = .ok bytes := by
  rw [encodeProxyDatagram_eq_ok]
  constructor
  · exact layout_of_decode
  · rintro ⟨hd, rfl⟩
    exact decode_layout hd

/-- The decoder makes no access outside of the bytes. -/
theorem inBounds_decodeProxyDatagram (bytes : List UInt8) : InBounds (decodeProxyDatagram bytes) := by
  unfold decodeProxyDatagram
  refine .bind inBounds_ensure (fun _ hfour => ?_)
  rw [ensure_eq_ok] at hfour
  refine .bind (inBounds_index (by omega)) (fun first _ => ?_)
  refine .bind inBounds_okOr (fun offset hoffset => ?_)
  obtain ⟨_, rfl⟩ := U64.checkedAdd_eq_some.1 (okOr_eq_ok.1 hoffset)
  refine .bind inBounds_ensure (fun _ hhost => ?_)
  rw [ensure_eq_ok] at hhost
  refine .bind (inBounds_index (by omega)) (fun high _ => ?_)
  refine .bind (inBounds_index (by omega)) (fun low _ => ?_)
  refine .bind inBounds_ensure (fun _ _ => ?_)
  refine .bind (inBounds_slice (by omega) hhost.2) (fun hostBytes _ => ?_)
  refine .bind inBounds_okOr (fun host _ => ?_)
  refine .bind (inBounds_slice hhost.2 le_rfl) (fun payload _ => ?_)
  exact .bind inBounds_ensure (fun _ _ => by simp [InBounds, pure, Except.pure])

/-- A datagram that the format can carry fits in one frame. -/
theorem ProxyDatagram.Representable.fits (hd : d.Representable) :
    d.layout.length ≤ maxFrame := by
  have hlength := hd.hostLength
  have hpayload := hd.payload
  unfold maxUdpPayload at hpayload
  unfold maxFrame
  simp only [ProxyDatagram.layout, toBeBytes, List.length_cons, List.length_append, List.length_nil]
  omega

/-- **The datagram codec is a bijection** between the datagrams with a host of 1 to 255 bytes, a port
    and a payload of at most `MAX_UDP_PAYLOAD` bytes, and the byte strings that the decoder accepts. An
    encoding fits in one frame, and the decoder makes no access outside of what it is given. -/
theorem proxy_datagram_codec_is_bijection :
    (∀ d, (∃ bytes, encodeProxyDatagram d = .ok bytes) ↔
      1 ≤ (utf8 d.target.host).length ∧ (utf8 d.target.host).length ≤ 255 ∧ d.target.port ≠ 0 ∧
        d.payload.length ≤ maxUdpPayload) ∧
    (∀ d bytes, encodeProxyDatagram d = .ok bytes →
      decodeProxyDatagram bytes = .ok d ∧ ∃ written, writeFrame ⟨.data, bytes⟩ = .ok written) ∧
    (∀ bytes, (∃ error, decodeProxyDatagram bytes = .error (.error error)) ∨
      ∃ d, decodeProxyDatagram bytes = .ok d ∧ encodeProxyDatagram d = .ok bytes) ∧
    ∀ bytes, decodeProxyDatagram bytes ≠ .error .panic := by
  refine ⟨fun d => ?_, fun d bytes h => ?_, fun bytes => ?_, inBounds_decodeProxyDatagram⟩
  · constructor
    · rintro ⟨bytes, h⟩
      obtain ⟨hd, _⟩ := encodeProxyDatagram_eq_ok.1 h
      exact ⟨hd.hostNonempty, hd.hostLength, hd.port, hd.payload⟩
    · rintro ⟨hnonempty, hlength, hport, hpayload⟩
      exact ⟨_, encodeProxyDatagram_eq_ok.2 ⟨⟨hnonempty, hlength, hport, hpayload⟩, rfl⟩⟩
  · refine ⟨decodeProxyDatagram_eq_ok.2 h, encode ⟨.data, bytes⟩, writeFrame_eq_ok.2 ⟨?_, rfl⟩⟩
    obtain ⟨hd, rfl⟩ := encodeProxyDatagram_eq_ok.1 h
    exact hd.fits
  · cases h : decodeProxyDatagram bytes with
    | ok d => exact .inr ⟨d, rfl, decodeProxyDatagram_eq_ok.1 h⟩
    | error e =>
      cases e with
      | panic => exact absurd h (inBounds_decodeProxyDatagram bytes)
      | error error => exact .inl ⟨error, rfl⟩

/-- A packet for a name server makes the way there and back. -/
theorem dns_query_makes_round_trip :
    ∃ bytes, encodeProxyDatagram ⟨⟨"1.1.1.1", 53⟩, [7, 7]⟩ = .ok bytes ∧
      decodeProxyDatagram bytes = .ok ⟨⟨"1.1.1.1", 53⟩, [7, 7]⟩ := by
  obtain ⟨hencodes, hdecodes, _, _⟩ := proxy_datagram_codec_is_bijection
  obtain ⟨bytes, hbytes⟩ := (hencodes ⟨⟨"1.1.1.1", 53⟩, [7, 7]⟩).2 (by decide)
  exact ⟨bytes, hbytes, (hdecodes _ _ hbytes).1⟩

end AgentScale.Transport
