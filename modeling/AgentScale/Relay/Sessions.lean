import AgentScale.Relay.Revocations
import AgentScale.Relay.Site

set_option autoImplicit false

/-! # Sessions under revocation

What an accepted update does to the sessions a Relay has admitted over time. The disconnect loop acts on
revocations that have not expired; the invariant `Guarded` says that it has acted on
every one of them. A revocation that arrives after its expiry is merged and persisted like any other
but disconnects nobody (`sessions_cut_off_iff`). -/

namespace AgentScale.Relay

open Checked RelayApi

variable {P : Platform}

/-! ## The disconnect loop -/

variable {session : Session P}

theorem mem_disconnectRevoked {old delta : RevocationIndex P} {now : Int}
    {sessions : List (Session P)} :
    session ∈ disconnectRevoked old now delta sessions ↔ session ∈ sessions ∧
      ∀ entry ∈ delta, now < entry.2.2 → revokedThrough old entry.1 now < entry.2.1 →
        session.endpointId ≠ entry.1 := by
  unfold disconnectRevoked
  induction delta generalizing sessions with
  | nil => simp
  | cons entry rest ih =>
    rw [List.foldl_cons, ih, List.forall_mem_cons]
    split
    · next hcond =>
      rw [disconnect, List.mem_filter, decide_eq_true_iff]
      constructor
      · rintro ⟨⟨hmem, hne⟩, hrest⟩
        exact ⟨hmem, fun _ _ => hne, hrest⟩
      · rintro ⟨hmem, hne, hrest⟩
        exact ⟨⟨hmem, hne hcond.1 hcond.2⟩, hrest⟩
    · next hcond =>
      constructor
      · rintro ⟨hmem, hrest⟩
        exact ⟨hmem, fun hlive hold => absurd ⟨hlive, hold⟩ hcond, hrest⟩
      · rintro ⟨hmem, _, hrest⟩
        exact ⟨hmem, hrest⟩

/-- The session was admitted with a generation that the revocation revokes. -/
def Covered (r : Revocation) (session : Session P) : Prop :=
  parseEndpointId P r.endpointId = some session.endpointId ∧
    session.generation ≤ r.revokedThroughGeneration

/-- No session that an update revokes is left. -/
def CutOff (update : RevocationUpdate) (memory : Memory P) : Prop :=
  ∀ r ∈ update.revocations, ∀ session ∈ memory.sessions, ¬ Covered r session

variable {host host' : Host P} {signed : SignedRevocationUpdate} {ioError : Option String}

/-- The sessions that survive an accepted update: all of them when it repeats the applied version,
    and otherwise those that no unexpired, newly raised revocation names. -/
theorem mem_sessions_of_accepted {memory memory' : Memory P} {now : Int}
    (hrun : host.process = some memory) (hrun' : host'.process = some memory')
    (h : applyRevocationUpdate P host memory now ioError signed = .ok host') :
    session ∈ memory'.sessions ↔ session ∈ memory.sessions ∧
      ∀ r ∈ signed.update.revocations, parseEndpointId P r.endpointId = some session.endpointId →
        ¬ (memory.current.version < signed.update.version ∧ now < r.expiresAt ∧
          revokedThrough memory.revoked session.endpointId now < r.revokedThroughGeneration) := by
  obtain ⟨_, delta, hdelta, ⟨hversion, hre⟩ | ⟨hversion, hacc⟩⟩ := applyRevocationUpdate_eq_ok.1 h
  · have hsessions : memory'.sessions = memory.sessions := by
      obtain ⟨_, rfl | ⟨active, _, rfl⟩⟩ := reapply_eq_ok hre
      · rw [Option.some.inj (hrun'.symm.trans hrun)]
      · rw [← Option.some.inj hrun']
    rw [hsessions]
    exact ⟨fun hmem => ⟨hmem, fun _ _ _ hnew => absurd hnew.1 (by omega)⟩, And.left⟩
  · obtain ⟨_, _, _, merged, next, _, _, rfl⟩ := accumulate_eq_ok.1 hacc
    rw [← Option.some.inj hrun', mem_disconnectRevoked]
    refine and_congr_right (fun _ => ⟨?_, ?_⟩)
    · intro hfree r hr hid hcond
      have hentry : (session.endpointId, r.revokedThroughGeneration, r.expiresAt) ∈ delta :=
        (mem_index hdelta).2 ⟨r, hr, revocationEntry_eq_some.2 ⟨hid, rfl, rfl⟩⟩
      exact hfree _ hentry hcond.2.1 hcond.2.2 rfl
    · intro hfree entry hentry hlive hold hid
      obtain ⟨r, hr, hrentry⟩ := (mem_index hdelta).1 hentry
      obtain ⟨hparse, hgen, hexp⟩ := revocationEntry_eq_some.1 hrentry
      refine hfree r hr (hid ▸ hparse) ⟨hversion, hexp ▸ hlive, ?_⟩
      rw [hid, hgen]
      exact hold

/-! ## The invariant -/

/-- The index is the one of the applied update, and no session is left that one of its unexpired
    entries revokes. -/
structure Guarded (audience : String) (now : Int) (memory : Memory P) : Prop where
  index : validateRevocations P memory.current audience = .ok memory.revoked
  sessions : ∀ entry ∈ memory.revoked, now < entry.2.2 → ∀ session ∈ memory.sessions,
    session.endpointId = entry.1 → entry.2.1 < session.generation

namespace Guarded

variable {audience : String} {now : Int} {memory memory' : Memory P}

theorem later {now' : Int} (h : Guarded audience now memory) (hle : now ≤ now') :
    Guarded audience now' memory :=
  { h with sessions := fun entry hentry hlive => h.sessions entry hentry (by omega) }

/-- A session of an endpoint is newer than what the index revokes. -/
theorem revokedThrough_lt (h : Guarded audience now memory) (hmem : session ∈ memory.sessions) :
    revokedThrough memory.revoked session.endpointId now = 0 ∨
      revokedThrough memory.revoked session.endpointId now < session.generation := by
  unfold revokedThrough
  cases hlookup : Keyed.lookup Prod.fst session.endpointId memory.revoked with
  | none => exact .inl rfl
  | some entry =>
    obtain ⟨hentry, hid⟩ := Keyed.mem_of_lookup hlookup
    obtain ⟨id, generation, expiresAt⟩ := entry
    by_cases hlive : now < expiresAt
    · refine .inr ((if_pos hlive).trans_lt ?_)
      exact h.sessions _ hentry hlive session hmem hid.symm
    · exact .inl (if_neg hlive)

/-- Nothing is left that an unexpired revocation of the applied update revokes. -/
theorem not_covered (h : Guarded audience now memory) {r : Revocation}
    (hr : r ∈ memory.current.revocations) (hlive : now < r.expiresAt)
    (hmem : session ∈ memory.sessions) : ¬ Covered r session := by
  rintro ⟨hparse, hgen⟩
  have hentry : (session.endpointId, r.revokedThroughGeneration, r.expiresAt) ∈ memory.revoked :=
    (mem_index h.index).2 ⟨r, hr, revocationEntry_eq_some.2 ⟨hparse, rfl, rfl⟩⟩
  exact absurd hgen (not_le.2 (h.sessions _ hentry hlive session hmem rfl))

/-- An invariant index with sessions that no unexpired revocation covers. -/
theorem of_not_covered (hindex : validateRevocations P memory.current audience = .ok memory.revoked)
    (h : ∀ r ∈ memory.current.revocations, now < r.expiresAt → ∀ session ∈ memory.sessions,
      ¬ Covered r session) : Guarded audience now memory := by
  refine ⟨hindex, ?_⟩
  intro entry hentry hlive session hmem hid
  obtain ⟨r, hr, hrentry⟩ := (mem_index hindex).1 hentry
  obtain ⟨hparse, hgen, hexp⟩ := revocationEntry_eq_some.1 hrentry
  by_contra hle
  exact h r hr (hexp ▸ hlive) session hmem ⟨hid ▸ hparse, by omega⟩

end Guarded

variable {revoked : RevocationIndex P}

/-- A successful validation admits only generations above the revoked one. -/
theorem validateCredential_eq_ok {token : Option String} {endpointId authorityId : EndpointId P}
    {audience : String} {now : Int} {u : Unit}
    (h : validateCredential P token endpointId authorityId audience revoked now = .ok u) :
    ∃ text signed, token = some text ∧ P.decodeRelayCredential text = .ok signed ∧
      parseEndpointId P signed.credential.endpointId = some endpointId ∧
      now < signed.credential.expiresAt ∧
      revokedThrough revoked endpointId now < signed.credential.generation := by
  obtain ⟨text, htext, h⟩ := of_bind h
  obtain ⟨signed, hsigned, h⟩ := of_bind h
  obtain ⟨_, _, h⟩ := of_bind h
  obtain ⟨_, _, h⟩ := of_bind h
  obtain ⟨_, _, h⟩ := of_bind h
  obtain ⟨subject, hsubject, h⟩ := of_bind h
  obtain ⟨_, hsame, h⟩ := of_bind h
  obtain ⟨_, _, h⟩ := of_bind h
  obtain ⟨_, hlive, h⟩ := of_bind h
  obtain rfl := ensure_eq_ok.1 hsame
  exact ⟨text, signed, okOr_eq_ok.1 htext, hsigned, okOr_eq_ok.1 hsubject, ensure_eq_ok.1 hlive,
    ensure_eq_ok.1 h⟩

/-- The other direction: a token that passes every check is admitted. -/
theorem validateCredential_succeeds {text : String} {signed : SignedRelayCredential}
    {endpointId authorityId : EndpointId P} {now : Int}
    (hdecode : P.decodeRelayCredential text = .ok signed)
    (hverify : signed.verify P authorityId = .ok ())
    (hvalid : signed.credential.validate P = .ok ())
    (hsubject : parseEndpointId P signed.credential.endpointId = some endpointId)
    (hissued : signed.credential.issuedAt ≤ I64.saturatingAdd now MAX_CLOCK_SKEW_SECS)
    (hlive : now < signed.credential.expiresAt)
    (hgen : revokedThrough revoked endpointId now < signed.credential.generation) :
    validateCredential P (some text) endpointId authorityId signed.credential.audience revoked now =
      .ok () := by
  refine bind_ok rfl (bind_ok hdecode (bind_ok hverify
    (bind_ok hvalid (bind_ok (ensure_of rfl) ?_))))
  refine bind_ok (okOr_eq_ok.2 hsubject) (bind_ok (ensure_of rfl) ?_)
  exact bind_ok (ensure_of hissued) (bind_ok (ensure_of hlive) (ensure_of hgen))

theorem revokedThrough_of_mem (h : Keyed.Distinct Prod.fst revoked)
    {entry : EndpointId P × Nat × Int} (hmem : entry ∈ revoked) {now : Int}
    (hlive : now < entry.2.2) :
    revokedThrough revoked entry.1 now = entry.2.1 := by
  have hlookup := (Keyed.lookup_eq_some h).2 ⟨hmem, rfl⟩
  simp [revokedThrough, hlookup, hlive]

theorem Guarded.connect {host : Host P} {now : Int} {memory : Memory P}
    (h : Guarded host.audience now memory) (endpointId : EndpointId P) (token : Option String) :
    Guarded host.audience now (Relay.connect P host memory now endpointId token) := by
  unfold Relay.connect onConnect
  by_cases hrevoked : memory.enrollmentRevoked = true
  · simpa [hrevoked] using h
  rw [if_neg hrevoked]
  cases hvalid : validateCredential P token endpointId host.authorityId host.audience
      memory.revoked now with
  | error e => exact h
  | ok u =>
    obtain ⟨text, signed, rfl, hdecode, _, _, hgen⟩ := validateCredential_eq_ok hvalid
    have htoken : tokenGeneration P (some text) = signed.credential.generation := by
      simp [tokenGeneration, hdecode]
    refine ⟨h.index, ?_⟩
    intro entry hentry hlive session hsession hid
    rcases List.mem_cons.1 hsession with rfl | hold
    · have hdistinct := (validateRevocations_eq_ok.1 h.index).2.2.2
      have hthrough := revokedThrough_of_mem hdistinct hentry hlive
      have hid' : endpointId = entry.1 := hid
      rw [hid', hthrough] at hgen
      exact htoken ▸ hgen
    · exact h.sessions entry hentry hlive session hold hid

/-- After an accepted update, no session is left that an unexpired revocation of it covers. -/
theorem Guarded.update_not_covered {memory memory' : Memory P} {now : Int}
    (h : Guarded host.audience now memory) (hrun : host.process = some memory)
    (hrun' : host'.process = some memory')
    (haccepted : applyRevocationUpdate P host memory now ioError signed = .ok host')
    {r : Revocation} (hr : r ∈ signed.update.revocations) (hlive : now < r.expiresAt)
    (hmem : session ∈ memory'.sessions) : ¬ Covered r session := by
  obtain ⟨hold, hsurvives⟩ := (mem_sessions_of_accepted hrun hrun' haccepted).1 hmem
  rintro ⟨hparse, hgen⟩
  obtain ⟨_, delta, hdelta, ⟨_, hre⟩ | ⟨hversion, _⟩⟩ := applyRevocationUpdate_eq_ok.1 haccepted
  · exact h.not_covered ((reapply_eq_ok hre).1 r hr) hlive hold ⟨hparse, hgen⟩
  · -- the loop skipped the session, so the old index revokes its generation already
    have hskip := hsurvives r hr hparse
    have hpositive := ((validate_eq_ok.1 (validateRevocations_eq_ok.1 hdelta).1).2.2.1 r hr).1
    rcases h.revokedThrough_lt hold with hzero | hlt
    · exact hskip ⟨hversion, hlive, by omega⟩
    · exact hskip ⟨hversion, hlive, by omega⟩

theorem Guarded.update {memory memory' : Memory P} {now : Int}
    (h : Guarded host.audience now memory) (hrun : host.process = some memory)
    (hrun' : host'.process = some memory')
    (haccepted : applyRevocationUpdate P host memory now ioError signed = .ok host') :
    Guarded host.audience now memory' := by
  have hkept : ∀ session ∈ memory'.sessions, session ∈ memory.sessions := fun session hmem =>
    ((mem_sessions_of_accepted hrun hrun' haccepted).1 hmem).1
  obtain ⟨_, delta, hdelta, ⟨_, hre⟩ | ⟨hversion, hacc⟩⟩ := applyRevocationUpdate_eq_ok.1 haccepted
  · obtain ⟨_, rfl | ⟨active, hactive, rfl⟩⟩ := reapply_eq_ok hre
    · rwa [Option.some.inj (hrun'.symm.trans hrun)]
    · cases hrun'
      refine .of_not_covered hactive (fun r hr hlive session hmem => ?_)
      exact h.not_covered (List.mem_filter.1 hr).1 hlive hmem
  · obtain ⟨_, _, _, merged, next, hmerged, hnext, rfl⟩ := accumulate_eq_ok.1 hacc
    have hmem' := hrun'
    cases hrun'
    refine .of_not_covered hnext (fun r hr hlive session hmem => ?_)
    obtain ⟨id, hid⟩ := mem_accumulated.1 hr
    rcases ((mem_merged (distinct_parsed h.index) (distinct_parsed hdelta) hmerged).1 hid).2 with
      hreceived | ⟨hold, _, _⟩
    · exact h.update_not_covered hrun hmem' haccepted hreceived hlive hmem
    · exact h.not_covered hold hlive (hkept session hmem)

/-- An update does not touch the profile. -/
theorem applyRevocationUpdate_profile {memory : Memory P} {now : Int}
    (h : applyRevocationUpdate P host memory now ioError signed = .ok host') :
    host'.audience = host.audience ∧ host'.authorityId = host.authorityId := by
  obtain ⟨_, _, _, ⟨_, hre⟩ | ⟨_, hacc⟩⟩ := applyRevocationUpdate_eq_ok.1 h
  · obtain ⟨_, rfl | ⟨_, _, rfl⟩⟩ := reapply_eq_ok hre
    · exact ⟨rfl, rfl⟩
    · exact ⟨rfl, rfl⟩
  · obtain ⟨_, _, _, _, _, _, _, rfl⟩ := accumulate_eq_ok.1 hacc
    exact ⟨rfl, rfl⟩

/-- Nothing else touches it either. -/
theorem Host.Step.profile {now : Int} (h : Host.Step now host host') :
    host'.audience = host.audience ∧ host'.authorityId = host.authorityId := by
  cases h with
  | connect | leave | crash | revokeAll => exact ⟨rfl, rfl⟩
  | start _ stopped started =>
    obtain ⟨_, _, hstarted⟩ := of_bind started
    obtain ⟨_, _, hstarted⟩ := of_bind hstarted
    obtain ⟨_, _, hstarted⟩ := of_bind hstarted
    cases hstarted
    exact ⟨rfl, rfl⟩

/-- The invariant of a Relay: it holds of the memory whenever the Relay runs. -/
def Site.Guarded (s : Site P) : Prop :=
  ∀ memory, s.host.process = some memory → Relay.Guarded s.host.audience s.clock memory

theorem Guarded.step {now : Int} (hstep : Host.Step now host host')
    (h : ∀ memory, host.process = some memory → Guarded host.audience now memory) :
    ∀ memory, host'.process = some memory → Guarded host'.audience now memory := by
  intro memory' hrun'
  cases hstep with
  | connect memory endpointId token running =>
    cases hrun'
    exact (h memory running).connect endpointId token
  | leave memory session running =>
    cases hrun'
    exact ⟨(h memory running).index, fun entry hentry hlive other hother =>
      (h memory running).sessions entry hentry hlive other (List.mem_of_mem_erase hother)⟩
  | crash => cases hrun'
  | start _ stopped started =>
    obtain ⟨_, _, hstarted⟩ := of_bind started
    obtain ⟨_, _, hstarted⟩ := of_bind hstarted
    obtain ⟨revoked, hrevoked, hstarted⟩ := of_bind hstarted
    cases hstarted
    cases hrun'
    exact ⟨hrevoked, fun _ _ _ session hsession => absurd hsession List.not_mem_nil⟩
  | revokeAll memory written running =>
    cases hrun'
    exact ⟨(h memory running).index,
      fun _ _ _ session hsession => absurd hsession List.not_mem_nil⟩

theorem guarded_of_reachable {s : Site P} (h : (relay P).Reachable s) : s.Guarded := by
  refine h.invariant (P := Site.Guarded) ?_ ?_
  · rintro s ⟨_, _, hstopped⟩ memory hrun
    cases hrun.symm.trans hstopped
  · intro s s' _ hg hstep
    cases hstep with
    | tick now later => exact fun memory hrun => (hg memory hrun).later later
    | host host step => exact Guarded.step step hg
    | update memory ioError signed host running accepted =>
      intro memory' hrun'
      have haudience := (applyRevocationUpdate_profile accepted).1
      simp only at hrun' haudience ⊢
      rw [haudience]
      exact (hg memory running).update running hrun' accepted

/-- **Which sessions an update cuts off.** In any state, all sessions that an accepted update revokes
    are gone exactly when each of them was revoked by a newer, unexpired revocation that the index did
    not cover yet. On a clock that does not go back this fails in one way only: a revocation arrives
    after its own expiry and finds a session it should have ended. -/
theorem sessions_cut_off_iff :
    (∀ (host host' : Host P) (memory memory' : Memory P) (now : Int) (ioError : Option String)
      (signed : SignedRevocationUpdate), host.process = some memory →
      host'.process = some memory' →
      applyRevocationUpdate P host memory now ioError signed = .ok host' →
      (CutOff signed.update memory' ↔
        ∀ r ∈ signed.update.revocations, ∀ session ∈ memory.sessions, Covered r session →
          memory.current.version < signed.update.version ∧ now < r.expiresAt ∧
            revokedThrough memory.revoked session.endpointId now < r.revokedThroughGeneration)) ∧
    ∀ (s : Site P) (host' : Host P) (memory memory' : Memory P) (ioError : Option String)
      (signed : SignedRevocationUpdate), (relay P).Reachable s → s.host.process = some memory →
      host'.process = some memory' →
      applyRevocationUpdate P s.host memory s.clock ioError signed = .ok host' →
      (CutOff signed.update memory' ↔
        ∀ r ∈ signed.update.revocations, r.expiresAt ≤ s.clock → ∀ session ∈ memory.sessions,
          ¬ Covered r session) := by
  refine ⟨?_, ?_⟩
  · intro host host' memory memory' now ioError signed hrun hrun' haccepted
    obtain ⟨_, delta, hdelta, _⟩ := applyRevocationUpdate_eq_ok.1 haccepted
    constructor
    · intro hcut r hr session hmem hcov
      by_contra hcond
      refine hcut r hr session ((mem_sessions_of_accepted hrun hrun' haccepted).2 ⟨hmem, ?_⟩) hcov
      -- no other revocation names the endpoint
      intro r' hr' hparse'
      rwa [(distinct_parsed hdelta).eq_of_key hr' hr (hparse'.trans hcov.1.symm)]
    · intro hcond r hr session hmem hcov
      obtain ⟨hold, hsurvives⟩ := (mem_sessions_of_accepted hrun hrun' haccepted).1 hmem
      exact hsurvives r hr hcov.1 (hcond r hr session hold hcov)
  · intro s host' memory memory' ioError signed hreach hrun hrun' haccepted
    have hguarded := guarded_of_reachable hreach memory hrun
    constructor
    · intro hcut r hr hexpired session hmem hcov
      refine hcut r hr session ((mem_sessions_of_accepted hrun hrun' haccepted).2 ⟨hmem, ?_⟩) hcov
      obtain ⟨_, delta, hdelta, _⟩ := applyRevocationUpdate_eq_ok.1 haccepted
      intro r' hr' hparse' hcond
      rw [(distinct_parsed hdelta).eq_of_key hr' hr (hparse'.trans hcov.1.symm)] at hcond
      omega
    · intro hcond r hr session hmem hcov
      rcases le_or_gt r.expiresAt s.clock with hexpired | hlive
      · have hold := ((mem_sessions_of_accepted hrun hrun' haccepted).1 hmem).1
        exact hcond r hr hexpired session hold hcov
      · exact hguarded.update_not_covered hrun hrun' haccepted hr hlive hmem hcov

/-! ## A timely and a late revocation -/

section Example

open Reference

/-- The credential of generation 2 that Control issues to a client enrolled at time zero. -/
def clientCredential : SignedRelayCredential :=
  ⟨⟨RELAY_PROTOCOL_VERSION, "agents", publicKey controlKey, publicKey nodeKey, .client, 2, 0, 604800⟩,
    ⟨publicKey controlKey⟩⟩

/-- The platform on which that credential is called `client-token`. -/
def clientPlatform : Platform := platform [("client-token", clientCredential)]

/-- A Relay starts, the client connects, and time passes until `now`. -/
def connectAndWait (now : Int) : List (SiteEvent clientPlatform) :=
  [.host .start, .host (.connect (nodeKey.public _) (some "client-token")),
    .tick now]

/-- Control's update at time `now` after it has removed the client; the tombstone expires with the
    credential. -/
def removalUpdate (now : Int) : SignedRevocationUpdate :=
  ⟨⟨RELAY_PROTOCOL_VERSION, "agents", 2, now, [⟨publicKey nodeKey, 2, 604800, 2⟩]⟩,
    ⟨publicKey controlKey⟩⟩

def clientSession : Session clientPlatform := ⟨nodeKey.public _, 2⟩

theorem clientSession_covered (now : Int) :
    ∀ r ∈ (removalUpdate now).update.revocations, Covered r clientSession := by
  intro r hr
  obtain rfl := List.mem_singleton.1 hr
  exact ⟨parseEndpointId_text clientPlatform (nodeKey.public _), le_rfl⟩

/-- A Relay that learns of the removal only after the tombstone has expired keeps the session. -/
theorem session_survives_late_revocation :
    ∃ (s : Site clientPlatform) (host' : Host clientPlatform)
      (memory memory' : Memory clientPlatform),
      (relay clientPlatform).Reachable s ∧ s.host.process = some memory ∧
      host'.process = some memory' ∧ applyRevocationUpdate clientPlatform s.host memory
        s.clock none (removalUpdate 604900) = .ok host' ∧
      ¬ CutOff (removalUpdate 604900).update memory' := by
  obtain ⟨s, host', memory, memory', hr, hrun, hrun', haccepted, _, _, hafter⟩ :=
    Site.exists_accepted (controlKey.public _) (connectAndWait 604900) (removalUpdate 604900) 604900
      [clientSession] [clientSession] (by decide +kernel)
  refine ⟨s, host', memory, memory', hr, hrun, hrun', haccepted, fun hcut => ?_⟩
  exact hcut _ List.mem_cons_self clientSession (hafter ▸ List.mem_cons_self)
    (clientSession_covered 604900 _ List.mem_cons_self)

/-- A Relay that learns of the removal in time ends the session. -/
theorem session_ends_in_time :
    ∃ (s : Site clientPlatform) (host' : Host clientPlatform)
      (memory memory' : Memory clientPlatform),
      (relay clientPlatform).Reachable s ∧ s.host.process = some memory ∧
      host'.process = some memory' ∧ applyRevocationUpdate clientPlatform s.host memory
        s.clock none (removalUpdate 100) = .ok host' ∧
      memory.sessions = [clientSession] ∧ CutOff (removalUpdate 100).update memory' ∧
      ∀ r ∈ (removalUpdate 100).update.revocations, ∀ session ∈ memory.sessions, Covered r session →
        memory.current.version < (removalUpdate 100).update.version ∧ s.clock < r.expiresAt ∧
          revokedThrough memory.revoked session.endpointId s.clock < r.revokedThroughGeneration := by
  obtain ⟨s, host', memory, memory', hr, hrun, hrun', haccepted, hclock, hbefore, _⟩ :=
    Site.exists_accepted (controlKey.public _) (connectAndWait 100) (removalUpdate 100) 100
      [clientSession] [] (by decide +kernel)
  have hcut : CutOff (removalUpdate 100).update memory' := by
    refine (sessions_cut_off_iff.2 s host' memory memory' none _ hr hrun hrun' haccepted).2 ?_
    intro r hmem hexpired
    obtain rfl := List.mem_singleton.1 hmem
    exact absurd hexpired (by rw [hclock]; decide)
  exact ⟨s, host', memory, memory', hr, hrun, hrun', haccepted, hbefore, hcut,
    (sessions_cut_off_iff.1 _ host' memory memory' s.clock none _ hrun hrun' haccepted).1 hcut⟩

end Example

end AgentScale.Relay
