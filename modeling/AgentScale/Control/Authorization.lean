import AgentScale.Api.Signing
import AgentScale.Control.Partition
import AgentScale.Library.Hex
import Mathlib.Data.List.TakeWhile

set_option autoImplicit false

/-! # The authorization of a Provisioner

A Provisioner signs the exact bytes of the body it posts, and names itself and the signature in the
`Authorization` header. The header is accepted exactly when it has the form it is built in, up to the
case of the digits and the spelling of the key (`authorization_accepted_iff`). What Control does on such
a request it does for somebody who has signed this very body (`unsigned_requests_leave_partitions`). -/

namespace AgentScale

open Checked ControlApi Bytes

/-! ## Texts -/

def stripPrefix (lead s : String) : Option String :=
  if lead.toList.isPrefixOf s.toList then some (String.ofList (s.toList.drop lead.toList.length))
  else none

theorem stripPrefix_eq_some {lead s rest : String} :
    stripPrefix lead s = some rest ↔ s = lead ++ rest := by
  unfold stripPrefix
  rw [Option.ite_none_right_eq_some, List.isPrefixOf_iff_prefix]
  constructor
  · rintro ⟨⟨tail, htail⟩, hrest⟩
    cases hrest
    refine String.toList_inj.1 ?_
    simp [← htail]
  · rintro rfl
    simp

theorem splitOnce_append {c : Char} {s : String} {before after : List Char}
    (hs : s.toList = before ++ c :: after) (hfree : c ∉ before) :
    splitOnce c s = some (String.ofList before, String.ofList after) := by
  have hpass : ∀ x ∈ before, decide (x ≠ c) = true := fun x hx =>
    decide_eq_true fun heq => hfree (heq ▸ hx)
  have hspan : s.toList.span (· ≠ c) = (before, c :: after) := by
    rw [hs, List.span_eq_takeWhile_dropWhile, List.takeWhile_append_of_pos hpass,
      List.dropWhile_append_of_pos hpass]
    simp
  simp only [splitOnce, hspan]

theorem splitOnce_eq_some {c : Char} {s before after : String} :
    splitOnce c s = some (before, after) ↔
      s.toList = before.toList ++ c :: after.toList ∧ c ∉ before.toList := by
  constructor
  · intro h
    by_cases hc : c ∈ s.toList
    · obtain ⟨first, rest, hs, hfree⟩ := List.eq_append_cons_of_mem hc
      rw [splitOnce_append hs hfree] at h
      cases h
      simpa using ⟨hs, hfree⟩
    · have hspan : s.toList.span (· ≠ c) = (s.toList, []) := by
        rw [List.span_eq_takeWhile_dropWhile]
        have hpass : ∀ x ∈ s.toList, decide (x ≠ c) = true := fun x hx =>
          decide_eq_true fun heq => hc (heq ▸ hx)
        rw [List.takeWhile_eq_self_iff.2 hpass, List.dropWhile_eq_nil_iff.2 hpass]
      simp only [splitOnce, hspan] at h
      cases h
  · rintro ⟨hs, hfree⟩
    simpa using splitOnce_append hs hfree

/-! ## The header -/

/-- What the authorization uses of its libraries, on bytes: SHA-256, Ed25519, and the decoding of a
    request's JSON. -/
structure Bytewise (P : Platform) where
  sha256 : List UInt8 → List UInt8
  sign : SecretKey → List UInt8 → List UInt8
  /-- `Signature::LENGTH`. -/
  length_sign : ∀ key message, (sign key message).length = 64
  verify : EndpointId P → List UInt8 → List UInt8 → Bool
  verify_sign : ∀ (key : SecretKey) message, verify (key.public P) message (sign key message) = true
  /-- `Display` prints digits only. -/
  display : ∀ id : EndpointId P, id.text ≠ "" ∧ ':' ∉ id.text.toList
  decodeRequest : List UInt8 → Except String ProvisionerRequest

def PROVISIONER_AUTH_SCHEME : String := "AgentScale-Ed25519"

variable {P : Platform} (B : Bytewise P)

def provisionerAuthorization (key : SecretKey) (body : List UInt8) : String :=
  PROVISIONER_AUTH_SCHEME ++ " " ++ (key.public P).text ++ ":" ++
    String.ofList (Hex.encode (B.sign key (provisionerSigningBytes B.sha256 body)))

/-- The part of `verify_provisioner_authorization` that reads the header. -/
def parseAuthorization (P : Platform) (value : String) :
    Except String (EndpointId P × List UInt8) := do
  let credentials ← okOr ((stripPrefix PROVISIONER_AUTH_SCHEME value).bind (stripPrefix " "))
    "unsupported provisioner authorization scheme"
  let (endpointId, encodedSignature) ← okOr (splitOnce ':' credentials)
    "malformed provisioner authorization credentials"
  ensure (endpointId ≠ "") "missing provisioner endpoint id"
  ensure (encodedSignature ≠ "" ∧ ':' ∉ encodedSignature.toList) "malformed provisioner signature"
  let endpointId ← okOr (parseEndpointId P endpointId) "invalid provisioner endpoint id"
  let signature ← okOr (Hex.decode encodedSignature.toList) "invalid provisioner signature encoding"
  ensure (signature.length = 64) "invalid provisioner signature length"
  return (endpointId, signature)

def verifyProvisionerAuthorization (value : String) (body : List UInt8) :
    Except String (EndpointId P) := do
  let (endpointId, signature) ← parseAuthorization P value
  ensure (B.verify endpointId (provisionerSigningBytes B.sha256 body) signature = true)
    "invalid provisioner request signature"
  return endpointId

/-- A header value that names an identity and a signature. -/
def Names (value : String) (id : EndpointId P) (signature : List UInt8) : Prop :=
  ∃ name digits : String, value = PROVISIONER_AUTH_SCHEME ++ " " ++ name ++ ":" ++ digits ∧
    name ≠ "" ∧ ':' ∉ name.toList ∧ parseEndpointId P name = some id ∧
    digits.toList.map Char.toLower = Hex.encode signature ∧ signature.length = 64

/-- The digits of a signature are not empty and have no colon. -/
theorem digits_plain {digits : String} {signature : List UInt8}
    (h : Hex.decode digits.toList = some signature) (hlength : signature.length = 64) :
    digits ≠ "" ∧ ':' ∉ digits.toList := by
  constructor
  · rintro rfl
    obtain rfl := Option.some.inj (h : some [] = some signature)
    cases hlength
  · intro hcolon
    obtain ⟨n, hn⟩ := Hex.exists_value h ':' hcolon
    exact absurd hn (by simp [Hex.value])

variable {id : EndpointId P} {value : String}

/-- What is read from a header is what it names. -/
theorem parseAuthorization_eq_ok {signature : List UInt8} :
    parseAuthorization P value = .ok (id, signature) ↔ Names value id signature := by
  have hlead : ∀ rest, (stripPrefix PROVISIONER_AUTH_SCHEME value).bind (stripPrefix " ") = some rest ↔
      value = PROVISIONER_AUTH_SCHEME ++ " " ++ rest := by
    intro rest
    simp only [Option.bind_eq_some_iff, stripPrefix_eq_some, String.append_assoc]
    exact ⟨fun ⟨_, hvalue, hrest⟩ => hrest ▸ hvalue, fun h => ⟨_, h, rfl⟩⟩
  have hsplit : ∀ {rest name digits : String}, splitOnce ':' rest = some (name, digits) ↔
      rest = name ++ ":" ++ digits ∧ ':' ∉ name.toList := by
    intro rest name digits
    rw [splitOnce_eq_some, ← String.toList_inj]
    simp
  constructor
  · intro h
    obtain ⟨rest, hrest, h⟩ := of_bind h
    obtain ⟨⟨name, digits⟩, hnamed, h⟩ := of_bind h
    obtain ⟨_, hname, h⟩ := of_bind h
    obtain ⟨_, _, h⟩ := of_bind h
    obtain ⟨endpointId, hid, h⟩ := of_bind h
    obtain ⟨bytes, hbytes, h⟩ := of_bind h
    obtain ⟨_, hlength, h⟩ := of_bind h
    cases h
    obtain ⟨rfl, hfree⟩ := hsplit.1 (okOr_eq_ok.1 hnamed)
    refine ⟨name, digits, ?_, ensure_eq_ok.1 hname, hfree, okOr_eq_ok.1 hid,
      Hex.decode_eq_some.1 (okOr_eq_ok.1 hbytes), ensure_eq_ok.1 hlength⟩
    simpa only [String.append_assoc] using (hlead _).1 (okOr_eq_ok.1 hrest)
  · rintro ⟨name, digits, rfl, hname, hfree, hid, hdigits, hlength⟩
    have hdecode := Hex.decode_eq_some.2 hdigits
    have hrest := (hlead (name ++ ":" ++ digits)).2 (by simp only [String.append_assoc])
    unfold parseAuthorization
    rw [hrest]
    simp only [okOr, ok_bind, hsplit.2 ⟨rfl, hfree⟩, ensure_of hname,
      ensure_of (digits_plain hdecode hlength), hid, hdecode, ensure_of hlength]
    rfl

theorem verifyProvisionerAuthorization_eq_ok {body : List UInt8} :
    verifyProvisionerAuthorization B value body = .ok id ↔ ∃ signature, Names value id signature ∧
      B.verify id (provisionerSigningBytes B.sha256 body) signature = true := by
  unfold verifyProvisionerAuthorization
  rw [bind_eq_ok]
  constructor
  · rintro ⟨⟨named, signature⟩, hparse, h⟩
    obtain ⟨_, hverify, h⟩ := of_bind h
    cases h
    exact ⟨signature, parseAuthorization_eq_ok.1 hparse, ensure_eq_ok.1 hverify⟩
  · rintro ⟨signature, hnames, hverify⟩
    refine ⟨(id, signature), parseAuthorization_eq_ok.2 hnames, ?_⟩
    simp only [ensure_of hverify, ok_bind]
    rfl

theorem names_provisionerAuthorization (key : SecretKey) (body : List UInt8) :
    Names (provisionerAuthorization B key body) (key.public P)
      (B.sign key (provisionerSigningBytes B.sha256 body)) :=
  ⟨_, _, rfl, (B.display _).1, (B.display _).2, parseEndpointId_text P _,
    by rw [String.toList_ofList, Hex.map_toLower_encode], B.length_sign _ _⟩

/-- **What is accepted is what is built.** A header value is accepted exactly when it is the scheme, a
    spelling of the key and the hexadecimal digits of a signature of the body under that key; nothing
    may be missing, added or put twice, and the signature's digits are free in their case only. The
    value built for a key and a body is accepted for them. -/
theorem authorization_accepted_iff :
    (∀ (value : String) (body : List UInt8) (id : EndpointId P),
      verifyProvisionerAuthorization B value body = .ok id ↔
        ∃ name digits signature, value = PROVISIONER_AUTH_SCHEME ++ " " ++ name ++ ":" ++ digits ∧
          name ≠ "" ∧ ':' ∉ name.toList ∧ parseEndpointId P name = some id ∧
          digits.toList.map Char.toLower = Hex.encode signature ∧ signature.length = 64 ∧
          B.verify id (provisionerSigningBytes B.sha256 body) signature = true) ∧
      ∀ (key : SecretKey) (body : List UInt8),
        verifyProvisionerAuthorization B (provisionerAuthorization B key body) body =
          .ok (key.public P) := by
  refine ⟨fun value body id => ?_, fun key body => ?_⟩
  · rw [verifyProvisionerAuthorization_eq_ok]
    constructor
    · rintro ⟨signature, ⟨name, digits, hvalue, hname, hfree, hid, hdigits, hlength⟩, hverify⟩
      exact ⟨name, digits, signature, hvalue, hname, hfree, hid, hdigits, hlength, hverify⟩
    · rintro ⟨name, digits, signature, hvalue, hname, hfree, hid, hdigits, hlength, hverify⟩
      exact ⟨signature, ⟨name, digits, hvalue, hname, hfree, hid, hdigits, hlength⟩, hverify⟩
  · exact (verifyProvisionerAuthorization_eq_ok B).2
      ⟨_, names_provisionerAuthorization B key body, B.verify_sign key _⟩

/-! ## The handler -/

namespace Control

/-- `HeaderValue::to_str`: visible ASCII and tabs. -/
def headerText (bytes : List UInt8) : Except String String :=
  if bytes.all (fun b => (32 ≤ b && b < 127) || b = 9) then
    .ok (String.ofList (bytes.map fun b => Char.ofNat b.toNat))
  else .error "failed to convert header to a str"

/-- `provisioner_request` up to the checks of the request itself. -/
def receiveProvisioner (header : Option (List UInt8)) (body : List UInt8) :
    Except ApiError (EndpointId P × ProvisionerRequest) := do
  let bytes ← okOr header (ApiError.unauthorized "missing provisioner authorization")
  let authorization ← (headerText bytes).mapError ApiError.unauthorized
  let provisionerId ← (verifyProvisionerAuthorization B authorization body).mapError
    ApiError.unauthorized
  let request ← (B.decodeRequest body).mapError ApiError.bad
  return (provisionerId, request)

/-- `provisioner_request` on the running process. -/
def World.serveProvisioner (key : SecretKey) (amb : Ambient) (header : Option (List UInt8))
    (body : List UInt8) (state : ControlState) (w : World) : Except ApiError Response × World :=
  match receiveProvisioner B header body with
  | .error error => (.error error, w)
  | .ok (provisionerId, request) =>
    w.operate P key amb (.provisioner provisionerId request) state

/-- What each identity has signed so far, as far as this request's header goes: if the signature in it
    is valid, then its owner has made it, for one of the payloads it has signed. -/
def Made (signed : EndpointId P → List Payload) (header : Option (List UInt8)) (body : List UInt8) :
    Prop :=
  ∀ bytes authorization id signature, header = some bytes → headerText bytes = .ok authorization →
    Names authorization id signature →
    B.verify id (provisionerSigningBytes B.sha256 body) signature = true →
    ∃ payload ∈ signed id, payload.signingBytes B.sha256 = provisionerSigningBytes B.sha256 body

/-- What a Provisioner manages has not changed from `s` to `s'`. -/
structure KeepsPartition (provisionerId : String) (s s' : ControlState) : Prop where
  clients : ∀ client : ClientRecord, client.managedBy = some provisionerId →
    (client ∈ s'.clients ↔ client ∈ s.clients)
  edges : ∀ edge : EdgeRecord, Manages s provisionerId edge.ownerId →
    (edge ∈ s'.edges ↔ edge ∈ s.edges)
  invites : ∀ invite : InviteRecord, invite.managedBy = some provisionerId →
    (invite ∈ s'.invites ↔ invite ∈ s.invites)

variable {B} {key : SecretKey} {amb : Ambient} {w : World} {s s' : ControlState}
  {header : Option (List UInt8)} {body : List UInt8} {signed : EndpointId P → List Payload}

theorem KeepsPartition.refl (provisionerId : String) (s : ControlState) :
    KeepsPartition provisionerId s s :=
  ⟨fun _ _ => .rfl, fun _ _ => .rfl, fun _ _ => .rfl⟩

/-- A client has one manager, so what is in one partition is in no other. -/
theorem OnlyPartition.keeps {one other : String} (h : OnlyPartition one s s') (hk : s.Keyed)
    (hne : one ≠ other) : KeepsPartition other s s' where
  clients := fun client hmanaged => h.clients client fun hone =>
    hne (Option.some.inj (hone.symm.trans hmanaged))
  edges := by
    rintro edge ⟨client, hclient, hid, hmanaged⟩
    refine h.edges edge ?_
    rintro ⟨client', hclient', hid', hone⟩
    obtain rfl := hk.clients.eq_of_key hclient hclient' (hid.trans hid'.symm)
    exact hne (Option.some.inj (hone.symm.trans hmanaged))
  invites := fun invite hmanaged => h.invites invite fun hone =>
    hne (Option.some.inj (hone.symm.trans hmanaged))

/-- A request that is let in was signed, as a request and with these bytes, by the identity it is
    served for. -/
theorem receiveProvisioner_signed {request : ProvisionerRequest} (hmade : Made B signed header body)
    (hcollision : ∀ body', .provisionerBody body' ∈ signed id → B.sha256 body' = B.sha256 body → body' = body)
    (h : receiveProvisioner B header body = .ok (id, request)) :
    .provisionerBody body ∈ signed id := by
  obtain ⟨bytes, hheader, h⟩ := of_bind h
  obtain ⟨authorization, htext, h⟩ := of_bind h
  obtain ⟨named, hverified, h⟩ := of_bind h
  obtain ⟨decoded, _, h⟩ := of_bind h
  obtain ⟨rfl, rfl⟩ := Prod.mk.inj (pure_eq_ok.1 h)
  obtain ⟨signature, hnames, hverify⟩ :=
    (verifyProvisionerAuthorization_eq_ok B).1 (mapError_eq_ok.1 hverified)
  obtain ⟨payload, hmem, hbytes⟩ := hmade bytes authorization named signature
    (okOr_eq_ok.1 hheader) (mapError_eq_ok.1 htext) hnames hverify
  -- the domain tells a request from everything else that is signed, the digest tells the body
  have hsame : payload.signingBytes B.sha256 =
      (Payload.provisionerBody body).signingBytes B.sha256 := hbytes
  obtain ⟨hkind, hcontent⟩ := Payload.kind_and_content B.sha256 hsame
  obtain ⟨body', rfl⟩ := Payload.exists_body hkind
  rwa [← hcollision body' hmem hcontent]

/-- **Only the signer of a request can change what it manages by it.** In every reachable state,
    whatever arrives at the Provisioner endpoint, header and body, the clients, edges and invitations of
    every Provisioner that has not signed exactly this body as a request stay as they are, whoever sends
    it, whatever else the Provisioner has signed, and whoever else has signed the body. -/
theorem unsigned_requests_leave_partitions (hr : (control P key).Reachable w)
    (hrun : w.process = some s) (hamb : amb.Admissible w) (hmade : Made B signed header body)
    (hcollision : ∀ id body', .provisionerBody body' ∈ signed id →
      B.sha256 body' = B.sha256 body → body' = body)
    (provisioner : EndpointId P) (hunsigned : .provisionerBody body ∉ signed provisioner) :
    ∃ s', (w.serveProvisioner B key amb header body s).2.process = some s' ∧
      KeepsPartition provisioner.text s s' := by
  unfold World.serveProvisioner
  cases hreceive : receiveProvisioner B header body with
  | error error => exact ⟨s, hrun, .refl _ _⟩
  | ok received =>
    obtain ⟨id, request⟩ := received
    have hother : id.text ≠ provisioner.text := fun htext => by
      obtain rfl := EndpointId.ext_text htext
      exact hunsigned (receiveProvisioner_signed hmade (hcollision id) hreceive)
    obtain ⟨l, hl, href⟩ := exists_ledger hr
    obtain rfl := href.process s hrun
    have hk := (Ledger.wellFormed_of_reachable hl).keyed
    rcases World.provisioner_cases href hrun id request with hunmoved | ⟨delta, hauth, hs'⟩
    · exact ⟨l.state, hunmoved.2.trans hrun, .refl _ _⟩
    · exact ⟨_, hs', (hauth.managed.onlyPartition hk
        (World.fresh_token hl href hamb)).keeps hk hother⟩

section Example

open Reference

/-- A key is printed in visible characters other than the colon. -/
theorem display_visible (id : EndpointId (platform [])) :
    id.text ≠ "" ∧ ∀ c ∈ id.text.toList, 32 ≤ c.toNat ∧ c.toNat < 127 ∧ c ≠ ':' := by
  have hkey : isKeyText id.text = true := by
    have hdisplay : parseKey id.text = some id.text := id.display
    unfold parseKey at hdisplay
    exact (Option.ite_none_right_eq_some.1 hdisplay).1
  simp only [isKeyText, Bool.and_eq_true, List.all_eq_true, Bool.or_eq_true,
    decide_eq_true_eq, Char.le_def, UInt32.le_iff_toNat_le] at hkey
  refine ⟨fun hempty => by simp [hempty] at hkey, fun c hc => ?_⟩
  have hcode : (48 ≤ c.toNat ∧ c.toNat ≤ 57) ∨ (97 ≤ c.toNat ∧ c.toNat ≤ 102) := hkey.2 c hc
  refine ⟨by omega, by omega, ?_⟩
  rintro rfl
  exact absurd hcode (by decide)

/-- A signature scheme with one signature, and bodies that decode to one request. -/
def sampleBytewise (request : ProvisionerRequest) : Bytewise (platform []) where
  sha256 := fun body => body
  sign := fun _ _ => List.replicate 64 0
  length_sign := fun _ _ => List.length_replicate
  verify := fun _ _ signature => signature = List.replicate 64 0
  verify_sign := fun _ _ => decide_eq_true rfl
  display := fun id => ⟨(display_visible id).1, fun hc => ((display_visible id).2 _ hc).2.2 rfl⟩
  decodeRequest := fun body => if body = request.body then .ok request else .error "invalid request"

/-- The bytes of a header with visible characters. -/
def headerBytes (value : String) : List UInt8 := value.toList.map fun c => UInt8.ofNat c.toNat

theorem headerText_headerBytes (h : ∀ c ∈ value.toList, 32 ≤ c.toNat ∧ c.toNat < 127) :
    headerText (headerBytes value) = .ok value := by
  have hcode : ∀ c ∈ value.toList, (UInt8.ofNat c.toNat).toNat = c.toNat := fun c hc => by
    rw [UInt8.toNat_ofNat', Nat.mod_eq_of_lt (by have := h c hc; omega)]
  have hvisible : (headerBytes value).all (fun b => (32 ≤ b && b < 127) || b = 9) = true := by
    refine List.all_eq_true.2 fun b hb => ?_
    obtain ⟨c, hc, rfl⟩ := List.mem_map.1 hb
    have hrange := h c hc
    simp only [Bool.or_eq_true, Bool.and_eq_true, decide_eq_true_eq, UInt8.le_iff_toNat_le,
      UInt8.lt_iff_toNat_lt, hcode c hc]
    exact .inl hrange
  have hback : (headerBytes value).map (fun b => Char.ofNat b.toNat) = value.toList := by
    rw [headerBytes, List.map_map]
    refine (List.map_congr_left fun c hc => ?_).trans (List.map_id _)
    simp only [Function.comp_apply, hcode c hc, Char.ofNat_toNat, id_eq]
  rw [headerText, if_pos hvisible, hback, String.ofList_toList]

theorem scheme_visible : ∀ c ∈ PROVISIONER_AUTH_SCHEME.toList ++ " ".toList ++ ":".toList,
    32 ≤ c.toNat ∧ c.toNat < 127 := by
  have hall : (PROVISIONER_AUTH_SCHEME.toList ++ " ".toList ++ ":".toList).all
      (fun c => 32 ≤ c.toNat ∧ c.toNat < 127) = true := by decide +kernel
  exact fun c hc => of_decide_eq_true (List.all_eq_true.1 hall c hc)

/-- There is a header that names a key and the signature. -/
theorem exists_header (id : EndpointId (platform [])) : ∃ bytes authorization,
    headerText bytes = .ok authorization ∧ Names authorization id (List.replicate 64 0) := by
  obtain ⟨hnonempty, hvisible⟩ := display_visible id
  obtain ⟨digits, hdigits⟩ : ∃ digits : String, digits.toList = Hex.encode (List.replicate 64 0) :=
    ⟨_, String.toList_ofList⟩
  have hnames : Names (PROVISIONER_AUTH_SCHEME ++ " " ++ id.text ++ ":" ++ digits) id
      (List.replicate 64 0) :=
    ⟨id.text, digits, rfl, hnonempty, fun hc => (hvisible _ hc).2.2 rfl, parseEndpointId_text _ id,
      by rw [hdigits, Hex.map_toLower_encode], List.length_replicate⟩
  refine ⟨_, _, headerText_headerBytes ?_, hnames⟩
  have hscheme := scheme_visible
  simp only [String.toList_append, hdigits, List.mem_append] at hscheme ⊢
  rintro c ((((hc | hc) | hc) | hc) | hc)
  · exact hscheme c (.inl (.inl hc))
  · exact hscheme c (.inl (.inr hc))
  · exact ⟨(hvisible c hc).1, (hvisible c hc).2.1⟩
  · exact hscheme c (.inr hc)
  · exact Hex.encode_visible _ c hc

variable {bytes : List UInt8} {authorization : String}

theorem receive_sample (request : ProvisionerRequest) (htext : headerText bytes = .ok authorization)
    (hnames : Names authorization (otherKey.public (platform [])) (List.replicate 64 0)) :
    receiveProvisioner (sampleBytewise request) (some bytes) request.body =
      .ok (otherKey.public (platform []), request) := by
  have hverify : (sampleBytewise request).verify (otherKey.public (platform []))
      (provisionerSigningBytes (sampleBytewise request).sha256 request.body)
      (List.replicate 64 0) = true := by simp only [sampleBytewise, decide_true]
  have hverified := (verifyProvisionerAuthorization_eq_ok _).2 ⟨_, hnames, hverify⟩
  have hdecoded : (sampleBytewise request).decodeRequest request.body = .ok request := by
    simp only [sampleBytewise, if_true]
  simp only [receiveProvisioner, okOr, ok_bind, htext, hverified, hdecoded, Except.mapError]
  rfl

/-- The Provisioner has signed the request, and nobody else has signed anything. -/
def sampleSigned (request : ProvisionerRequest) (id : EndpointId (platform [])) : List Payload :=
  if id = otherKey.public (platform []) then [.provisionerBody request.body] else []

theorem made_sample (request : ProvisionerRequest) (htext : headerText bytes = .ok authorization)
    (hnames : Names authorization (otherKey.public (platform [])) (List.replicate 64 0)) :
    Made (sampleBytewise request) (sampleSigned request) (some bytes) request.body := by
  rintro _ authorization' id signature ⟨⟩ htext' hnames' _
  cases htext.symm.trans htext'
  -- the header names one identity only
  obtain ⟨hid, _⟩ := Prod.mk.inj (Except.ok.inj
    ((parseAuthorization_eq_ok.2 hnames').symm.trans (parseAuthorization_eq_ok.2 hnames)))
  exact ⟨.provisionerBody request.body, by simp only [sampleSigned, if_pos hid, List.mem_singleton],
    rfl⟩

theorem collision_sample (request : ProvisionerRequest) {body body' : List UInt8}
    (h : (sampleBytewise request).sha256 body' = (sampleBytewise request).sha256 body) :
    body' = body := h

/-- The Provisioner removes its client, and what another one manages stays as it is. -/
theorem signed_removal_leaves_other_partitions :
    ∃ (w : World) (s s' : ControlState) (request : ProvisionerRequest) (bytes : List UInt8),
      (control (platform []) controlKey).Reachable w ∧ w.process = some s ∧
      (w.serveProvisioner (sampleBytewise request) controlKey (w.ambient s "remove-b") (some bytes)
        request.body s).2.process = some s' ∧
      s.clients.length = 2 ∧ s'.clients.length = 1 ∧ KeepsPartition (publicKey nodeKey) s s' := by
  obtain ⟨w, s, hr, hs, hfresh, hclients, s', hs', hlength⟩ := exists_removal
  obtain ⟨bytes, authorization, htext, hnames⟩ :=
    exists_header (otherKey.public (platform []))
  have hother : nodeKey.public (platform []) ≠ otherKey.public (platform []) := by decide +kernel
  obtain ⟨s'', hs'', hkeeps⟩ := unsigned_requests_leave_partitions hr hs
    (World.ambient_admissible hr hs hfresh)
    (made_sample (requestOf 0 "request-2" (.removeClient "b") s) htext hnames)
    (fun _ _ _ h => collision_sample _ h)
    (nodeKey.public (platform [])) (by simp only [sampleSigned, if_neg hother, List.not_mem_nil,
      not_false_eq_true])
  have hserved := hs''
  simp only [World.serveProvisioner, receive_sample _ htext hnames] at hserved
  rw [World.afterRemoval, removeManaged, provisionerAsks, hserved] at hs'
  obtain rfl := Option.some.inj hs'
  exact ⟨w, s, s'', _, bytes, hr, hs, hs'', hclients, hlength, hkeeps⟩

end Example

end Control

end AgentScale
