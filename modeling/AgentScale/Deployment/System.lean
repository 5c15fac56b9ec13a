import AgentScale.Deployment.Joint
import AgentScale.Deployment.Tombstones

set_option autoImplicit false

/-! # End-to-end results

The deployment is simulated by the issuer and the replica of `Library.Tombstone`, which gives the two
end-to-end results: a removed registration stays locked out (`revocation_is_final`), and the Relay
never gets stuck on Control's updates (`updates_are_accepted`). -/

namespace AgentScale

open Checked ControlApi RelayApi Control

variable {P : Platform} {key : SecretKey} {d d' : Deployment P}

/-! ## Simulation -/

/-- The deployment does what the issuer and the replica do. -/
structure Abstracts (key : SecretKey) (d : Deployment P) (a : Tombstone.State String Int) : Prop where
  control : ∃ l, (ledger P key).Reachable l ∧ Refines d.control l ∧ Issues l a.issuer
  clock : a.clock = d.clock
  relay : Holds d.relay a.replica
  requests : ∀ n ∈ d.requests, n ∈ a.requests
  messages : ∀ signed ∈ d.messages, ∃ m ∈ a.messages, Carries P signed.update m

variable {a : Tombstone.State String Int}

/-- A run of the ledger is a run of the issuer. -/
theorem Issues.steps {l l' : Ledger} (hr : (ledger P key).Reachable l)
    (hsteps : (ledger P key).Steps l l') (hclock : a.clock = l.clock) (h : Issues l a.issuer) :
    ∃ i', (Tombstone.system String Int).Steps a { a with clock := l'.clock, issuer := i' } ∧
      Issues l' i' := by
  induction hsteps with
  | refl => exact ⟨a.issuer, by rw [← hclock], h⟩
  | tail hpre hlast ih =>
    obtain ⟨i₁, hsteps₁, h₁⟩ := ih
    obtain ⟨i₂, hsteps₂, h₂⟩ :=
      Issues.step (a := { a with clock := _, issuer := i₁ }) (hr.steps hpre) hlast rfl h₁
    exact ⟨i₂, hsteps₁.trans hsteps₂, h₂⟩

/-- A step of Control shows at the issuer and the clock only. -/
theorem Abstracts.world {w : World} (h : Abstracts key d a) (hd : (deployment P key).Reachable d)
    (hstep : World.Step P key (fun _ _ _ => True) d.control w) :
    ∃ a', (Tombstone.system String Int).Steps a a' ∧ a'.requests = a.requests ∧
      a'.messages = a.messages ∧ Abstracts key { d with control := w } a' := by
  obtain ⟨l, hl, href, hissues⟩ := h.control
  obtain ⟨l', hsteps, href'⟩ :=
    (control_simulates_ledger P key).step _ _ l (control_reachable hd) hl href hstep
  obtain ⟨i', hrun, hissues'⟩ := hissues.steps hl hsteps (h.clock.trans href.clock.symm)
  exact ⟨_, hrun, rfl, rfl, ⟨l', hl.steps hsteps, href', hissues'⟩, href'.clock, h.relay, h.requests,
    h.messages⟩

/-- The issuer may have been asked, and may have answered, more than the deployment shows. -/
theorem Abstracts.more (h : Abstracts key d a) {requests : Set Nat}
    {messages : Set (Tombstone.Message String Int)} (hrequests : a.requests ⊆ requests)
    (hmessages : a.messages ⊆ messages) : Abstracts key d { a with requests, messages } where
  __ := h
  requests := fun n hn => hrequests (h.requests n hn)
  messages := fun signed hsigned => by
    obtain ⟨m, hm, hcarries⟩ := h.messages signed hsigned
    exact ⟨m, hmessages hm, hcarries⟩

theorem Abstracts.step (h : Abstracts key d a) (hd : (deployment P key).Reachable d)
    (hstep : Deployment.Step key d d') :
    ∃ a', (Tombstone.system String Int).Steps a a' ∧ Abstracts key d' a' := by
  cases hstep with
  | control w step =>
    obtain ⟨a', hsteps, _, _, h'⟩ := h.world hd step
    exact ⟨a', hsteps, h'⟩
  | relay host step => exact ⟨a, .refl, { h with relay := h.relay.step step }⟩
  | request memory running =>
    refine ⟨_, .single (.request a), { h with requests := ?_ }⟩
    intro n hn
    rcases List.mem_cons.1 hn with rfl | hn
    · left
      rw [h.relay.version, (h.relay.current running).1]
    · exact .inr (h.requests n hn)
  | answer amb request state signed running admissible asked answers =>
    -- the answer is computed first; Control itself only draws a token
    obtain ⟨l, hl, href, hissues⟩ := h.control
    obtain rfl := href.process state running
    have hcarries := hissues.carries (Ledger.wellFormed_of_reachable hl).keyed
      (Ledger.accounted_of_reachable hl) amb.clock request.knownRevision
    obtain ⟨_, _, hsigned⟩ := of_bind (relayWatch_eq_ok answers)
    cases hsigned
    let m := a.issuer.answer request.knownRevision
    have hanswered : Abstracts key d { a with messages := insert m a.messages } :=
      h.more (Set.Subset.refl _) (Set.subset_insert m a.messages)
    obtain ⟨a', hsteps, _, hmessages, h'⟩ := hanswered.world hd
      (.operate d.control amb (.relayWatch request) l.state running admissible trivial)
    refine ⟨a', .head (.answer a _ (h.requests _ asked)) hsteps, { h' with messages := ?_ }⟩
    intro s hs
    rw [hmessages]
    rcases List.mem_cons.1 hs with rfl | hs
    · exact ⟨m, .inl rfl, hcarries⟩
    · exact hanswered.messages s hs
  | deliver memory ioError signed host running sent accepted =>
    obtain ⟨m, hm, hcarries⟩ := h.messages signed sent
    rw [← h.clock] at accepted
    rcases h.relay.deliver hcarries running accepted with hsame | hpruned | ⟨hnewer, hmerged⟩
    · exact ⟨a, .refl, { h with relay := hsame }⟩
    · exact ⟨_, .single (.prune a), { h with relay := hpruned }⟩
    · exact ⟨_, .single (.deliver a m hm hnewer), { h with relay := hmerged }⟩

/-- Every run of the deployment is a run of the issuer and the replica. -/
theorem Abstracts.steps (h : Abstracts key d a) (hd : (deployment P key).Reachable d)
    (hsteps : (deployment P key).Steps d d') :
    ∃ a', (Tombstone.system String Int).Steps a a' ∧ Abstracts key d' a' := by
  induction hsteps with
  | refl => exact ⟨a, .refl, h⟩
  | tail hpre hlast ih =>
    obtain ⟨a₁, hsteps₁, h₁⟩ := ih
    obtain ⟨a₂, hsteps₂, h₂⟩ := h₁.step (hd.steps hpre) hlast
    exact ⟨a₂, hsteps₁.trans hsteps₂, h₂⟩

theorem Deployment.Initial.abstracts (h : d.Initial key) :
    ∃ a, (Tombstone.system String Int).init a ∧ Abstracts key d a := by
  obtain ⟨hcontrol, ⟨hfile, _, hstopped⟩, _, hrequests, hmessages⟩ := h
  obtain ⟨l, hl, href⟩ := (control_simulates_ledger P key).init d.control hcontrol
  have hinit : l.Initial := hl
  obtain ⟨⟨audience, publicUrl, relayCaDer, hstate⟩, _, _, hhistory⟩ := hinit
  let i : Tombstone.Issuer String Int := ⟨∅, ∅, ∅, 0, l.state.relayRevision, fun _ => none⟩
  refine ⟨⟨d.clock, i, ⟨0, fun _ => none⟩, ∅, ∅⟩,
    ⟨rfl, rfl, rfl, rfl, Nat.zero_le _, rfl, rfl, rfl⟩, ⟨l, ⟨l, hl, .refl⟩, href, ?_⟩, rfl, ?_, ?_, ?_⟩
  · refine ⟨?_, ?_, ?_, Nat.zero_le _, rfl, ?_⟩
    · simp [i, hstate, initialState, ControlState.registrations]
    · simp [i, hhistory, History.empty]
    · simp [i, hhistory, History.empty]
    · rw [hstate]
      rfl
  · refine ⟨?_, ?_, ?_, fun memory hrun => absurd (hrun.symm.trans hstopped) (by simp)⟩
    · simp [Relay.Host.version, hfile]
    · simp only [Relay.Host.revocations, hfile]
      rfl
    · simp only [Relay.Host.revocations, hfile]
      exact ⟨by simp, List.nodup_nil⟩
  · simp [hrequests]
  · simp [hmessages]

/-- **Simulation.** Every reachable deployment is a reachable state of the issuer and the replica. -/
theorem exists_abstracts (h : (deployment P key).Reachable d) :
    ∃ a, (Tombstone.system String Int).Reachable a ∧ Abstracts key d a := by
  obtain ⟨d₀, hinit, hsteps⟩ := h
  obtain ⟨a₀, ha₀, h₀⟩ := hinit.abstracts
  obtain ⟨a, hrun, ha⟩ := h₀.steps ⟨d₀, hinit, .refl⟩ hsteps
  exact ⟨a, ⟨a₀, ha₀, hrun⟩, ha⟩

/-! ## Revocation is final -/

variable {memory : Relay.Memory P} {host : Relay.Host P}

/-- A tombstone that a Relay keeps makes it reject the generations it covers. -/
theorem Holds.le_revokedThrough {p : Tombstone.Replica String Int} (h : Holds host p)
    (hrun : host.process = some memory) {endpointId : EndpointId P} {e : Tombstone.Entry Int}
    (he : p.seen endpointId.text = some e) {now : Int} (hlive : now < e.expiresAt) :
    e.generation ≤ Relay.revokedThrough memory.revoked endpointId now := by
  rw [h.seen, h.revocations.table_eq_some] at he
  obtain ⟨r, hr, hid, rfl⟩ := he
  have hparse := (h.revocations.parse_eq_some hr).2 hid
  obtain ⟨hfile, hindex⟩ := h.running memory hrun
  rw [(h.current hrun).2] at hr
  have hentry : (endpointId, r.revokedThroughGeneration, r.expiresAt) ∈ memory.revoked :=
    (Relay.mem_index hindex).2 ⟨r, hr, Relay.revocationEntry_eq_some.2 ⟨hparse, rfl, rfl⟩⟩
  have hdistinct := (Relay.validateRevocations_eq_ok.1 hindex).2.2.2
  exact (Relay.revokedThrough_of_mem hdistinct hentry hlive).ge

/-- The history of a deployment is the issuer's. -/
theorem Abstracts.history (h : Abstracts key d a) :
    (∀ x ∈ d.control.history.removals, x.tombstone ∈ a.issuer.removed) ∧
      ∀ c ∈ d.control.history.credentials, c.granted ∈ a.issuer.granted := by
  obtain ⟨l, _, href, hissues⟩ := h.control
  rw [← href.history]
  exact ⟨fun x hx => (hissues.removed _).2 ⟨x, hx, rfl⟩,
    fun c hc => (hissues.granted _).2 ⟨c, hc, rfl⟩⟩

/-- **Revocation is final.** Once the Relay has applied the Relay revision under which a registration
    was removed, it rejects from then on, through restarts on both sides, every credential that
    Control ever issued for that endpoint and generation. -/
theorem revocation_is_final (hd : (deployment P key).Reachable d) {removal : Removal}
    (hremoved : removal ∈ d.control.history.removals) {memory : Relay.Memory P}
    (hrun : d.relay.process = some memory)
    (happlied : removal.relayRevision ≤ memory.current.version)
    (hsteps : (deployment P key).Steps d d') {memory' : Relay.Memory P}
    (hrun' : d'.relay.process = some memory') {credential : RelayCredential}
    (hissued : credential ∈ d'.control.history.credentials)
    (hendpoint : credential.endpointId = removal.endpointId)
    (hgeneration : credential.generation = removal.generation)
    {token : String} {signed : SignedRelayCredential}
    (htoken : P.decodeRelayCredential token = .ok signed) (hsigned : signed.credential = credential)
    (endpointId : EndpointId P) :
    ∃ e, Relay.validateCredential P (some token) endpointId d'.relay.authorityId d'.relay.audience
      memory'.revoked d'.clock = .error e := by
  obtain ⟨a, ha, habs⟩ := exists_abstracts hd
  obtain ⟨a', hrun_a, habs'⟩ := habs.steps hd hsteps
  have hgrows := Tombstone.grows_of_steps hrun_a
  have hsound := Tombstone.sound_of_reachable (ha.steps hrun_a)
  cases hvalid : Relay.validateCredential P (some token) endpointId d'.relay.authorityId
      d'.relay.audience memory'.revoked d'.clock with
  | error e => exact ⟨e, rfl⟩
  | ok u =>
    obtain ⟨_, _, htext, hdecode, hsubject, hlive, hgen⟩ := Relay.validateCredential_eq_ok hvalid
    cases htext
    cases htoken.symm.trans hdecode
    rw [hsigned] at hsubject hlive hgen
    -- the endpoint that presents the credential is the removed one
    have hid : endpointId.text = removal.endpointId := by
      obtain ⟨l, hl, href, _⟩ := habs'.control
      have hcanonical := Ledger.canonical_credentials hl credential (href.history ▸ hissued)
      rw [parseEndpointId_of_canonical hcanonical] at hsubject
      exact (congrArg EndpointId.text (Option.some.inj hsubject)).symm.trans hendpoint
    have happlied' : removal.relayRevision ≤ a'.replica.version := by
      rw [← (habs.relay.current hrun).1, ← habs.relay.version] at happlied
      exact happlied.trans hgrows.version
    have hcovers := hsound.replicaAccounts removal.tombstone
      (hgrows.removed (habs.history.1 removal hremoved)) happlied' credential.granted
      (habs'.history.2 credential hissued) hendpoint hgeneration
    rw [habs'.clock] at hcovers
    rcases hcovers with hexpired | ⟨e, he, hle, hexp, _⟩
    · exact absurd hexpired (not_le.2 hlive)
    · have hseen : a'.replica.seen endpointId.text = some e := hid ▸ he
      have hthrough := habs'.relay.le_revokedThrough hrun' hseen (hlive.trans_le hexp)
      rw [hgeneration] at hgen
      exact absurd (hle.trans hthrough) (not_le.2 hgen)

open Reference in
/-- The removed client connects again after the Relay has crashed and restarted. -/
theorem removed_client_stays_locked_out :
    ∃ (d d' : Deployment Relay.clientPlatform) (removal : Removal)
      (memory memory' : Relay.Memory Relay.clientPlatform),
      (deployment Relay.clientPlatform controlKey).Reachable d ∧
      removal ∈ d.control.history.removals ∧ d.relay.process = some memory ∧
      removal.relayRevision ≤ memory.current.version ∧
      (deployment Relay.clientPlatform controlKey).Steps d d' ∧ d'.relay.process = some memory' ∧
      Relay.clientCredential.credential ∈ d'.control.history.credentials ∧
      ∃ e, Relay.validateCredential Relay.clientPlatform (some "client-token") (nodeKey.public _)
        d'.relay.authorityId d'.relay.audience memory'.revoked d'.clock = .error e := by
  obtain ⟨d, d', hr, hsteps, hcheck⟩ := Deployment.exists_after controlKey
    (Deployment.removeClient Relay.clientPlatform controlKey nodeKey otherKey ++
      Deployment.poll otherKey) [.relay .crash, .relay .start]
    (fun d d' => ⟨publicKey nodeKey, 2, 2⟩ ∈ d.control.history.removals &&
      d.relay.process.any (fun memory => 2 ≤ memory.current.version) && d'.relay.process.isSome &&
      Relay.clientCredential.credential ∈ d'.control.history.credentials) (by decide +kernel)
  simp only [Bool.and_eq_true, decide_eq_true_eq] at hcheck
  obtain ⟨⟨⟨hremoved, hrunning⟩, hrunning'⟩, hissued⟩ := hcheck
  obtain ⟨memory, hrun, happlied⟩ := (Option.any_eq_true _ _).1 hrunning
  obtain ⟨memory', hrun'⟩ := Option.isSome_iff_exists.1 hrunning'
  exact ⟨d, d', _, memory, memory', hr, hremoved, hrun, of_decide_eq_true happlied, hsteps, hrun',
    hissued, revocation_is_final hr hremoved hrun (of_decide_eq_true happlied) hsteps hrun' hissued rfl
      rfl rfl rfl (nodeKey.public _)⟩

/-! ## The Relay never gets stuck -/

/-- A Relay keeps the audience and the authority it enrolled with. -/
theorem Deployment.Step.profile (h : Deployment.Step key d d') :
    d'.relay.audience = d.relay.audience ∧ d'.relay.authorityId = d.relay.authorityId := by
  cases h with
  | control | request | answer => exact ⟨rfl, rfl⟩
  | relay host step => exact step.profile
  | deliver memory ioError signed host running sent accepted =>
    exact Relay.applyRevocationUpdate_profile accepted

theorem authority_of_reachable (h : (deployment P key).Reachable d) :
    d.relay.authorityId = key.public P := by
  refine h.invariant (P := fun d => d.relay.authorityId = key.public P) ?_ ?_
  · exact fun d hd => hd.2.2.1
  · exact fun d d' _ hauthority hstep => hstep.profile.2.trans hauthority

theorem audience_of_steps (h : (deployment P key).Steps d d') :
    d'.relay.audience = d.relay.audience := by
  induction h with
  | refl => rfl
  | tail _ hlast ih => exact (Deployment.Step.profile hlast).1.trans ih

/-- A message that answers the applied version merges without lowering a generation. -/
theorem Holds.merge_succeeds (h : Holds host a.replica) (hrun : host.process = some memory)
    {m : Tombstone.Message String Int} (hm : Tombstone.MessageSound a m)
    (hknown : m.known = a.replica.version) {update : RevocationUpdate} (hc : Carries P update m) :
    ∃ merged, foldAll (Relay.mergeRevocation P)
      (Relay.activeRevocations P a.clock memory.current.revocations) update.revocations =
        .ok merged := by
  have hold : CanonicalRevocations P memory.current.revocations :=
    (h.current hrun).2 ▸ h.revocations
  refine ⟨_, (Relay.foldAll_mergeRevocation_eq_ok hc.revocations.distinctParsed).2 ⟨?_, rfl⟩⟩
  intro r hr
  refine ⟨_, hc.revocations.parse hr, fun existing hexisting => ?_⟩
  obtain ⟨hmem, hid⟩ := Keyed.mem_of_lookup hexisting
  obtain ⟨hmem, hlive, hparse⟩ := (Relay.mem_activeRevocations hold.distinctParsed).1 hmem
  have htext : existing.2.endpointId = r.endpointId :=
    ((hold.parse_eq_some hmem).1 hparse).trans (congrArg EndpointId.text hid)
  refine hm.forward hknown r.endpointId existing.2.entry r.entry ?_ hlive ?_
  · rw [h.seen, (h.current hrun).2, hold.table_eq_some]
    exact ⟨existing.2, hmem, htext, rfl⟩
  · rw [hc.entries, hc.revocations.table_eq_some]
    exact ⟨r, hr, rfl, rfl⟩

/-- The merged update is valid when both parts are and the version does not go back. -/
theorem accumulated_validate {old update : RevocationUpdate} {merged : Relay.Merged P} {now : Int}
    (hold : old.validate P = .ok ()) (hupdate : update.validate P = .ok ())
    (hdold : Keyed.Distinct (fun r => parseEndpointId P r.endpointId) old.revocations)
    (hdupdate : Keyed.Distinct (fun r => parseEndpointId P r.endpointId) update.revocations)
    (hversion : old.version ≤ update.version)
    (hmerged : foldAll (Relay.mergeRevocation P) (Relay.activeRevocations P now old.revocations)
      update.revocations = .ok merged) :
    (Relay.accumulated update merged).validate P = .ok () := by
  obtain ⟨_, _, hranges, _⟩ := Relay.validate_eq_ok.1 hold
  obtain ⟨_, haudience, hranges', _⟩ := Relay.validate_eq_ok.1 hupdate
  refine Relay.validate_eq_ok.2 ⟨rfl, haudience, ?_, ?_⟩
  · intro r hr
    obtain ⟨id, hid⟩ := Relay.mem_accumulated.1 hr
    rcases ((Relay.mem_merged hdold hdupdate hmerged).1 hid).2 with hin | ⟨hin, _⟩
    · exact hranges' r hin
    · obtain ⟨hgen, hpos, hle⟩ := hranges r hin
      exact ⟨hgen, hpos, hle.trans hversion⟩
  · intro r hr
    obtain ⟨id, hid⟩ := Relay.mem_accumulated.1 hr
    exact ⟨id, ((Relay.mem_merged hdold hdupdate hmerged).1 hid).1⟩

theorem age_le {now issuedAt : Int} (hle : issuedAt ≤ now) (hage : now ≤ issuedAt + 300) :
    (I64.saturatingSub now issuedAt).natAbs ≤ Relay.MAX_CLOCK_SKEW_SECS.natAbs := by
  unfold I64.saturatingSub I64.clamp I64.minValue I64.maxValue Relay.MAX_CLOCK_SKEW_SECS
  omega

/-- A Relay accepts a signed update that answers its version, if it is newer and arrives in time. -/
theorem Holds.accepts (h : Holds host a.replica) (hrun : host.process = some memory)
    {m : Tombstone.Message String Int} (hm : Tombstone.MessageSound a m)
    (hknown : m.known = a.replica.version) {signed : SignedRevocationUpdate}
    (hc : Carries P signed.update m) (hverify : signed.verify P host.authorityId = .ok ())
    (hupdate : signed.update.validate P = .ok ())
    (haudience : host.audience = signed.update.audience)
    (hnewer : memory.current.version < signed.update.version)
    (hissued : signed.update.issuedAt ≤ a.clock) (hage : a.clock ≤ signed.update.issuedAt + 300)
    (hlater : ∀ r ∈ signed.update.revocations, memory.current.version < r.revision) :
    ∃ host' memory', Relay.applyRevocationUpdate P host memory a.clock none signed = .ok host' ∧
      host'.process = some memory' ∧ memory'.current.version = signed.update.version := by
  obtain ⟨_, hindex⟩ := h.running memory hrun
  obtain ⟨delta, hdelta⟩ := Relay.validateRevocations_succeeds hupdate hc.revocations.distinctParsed
  obtain ⟨merged, hmerged⟩ := h.merge_succeeds hrun hm hknown hc
  have hvalid := accumulated_validate (Relay.validateRevocations_eq_ok.1 hindex).1 hupdate
    (Relay.distinct_parsed hindex) hc.revocations.distinctParsed hnewer.le hmerged
  have hcurrent : CanonicalRevocations P memory.current.revocations :=
    (h.current hrun).2 ▸ h.revocations
  obtain ⟨next, hnext⟩ := Relay.validateRevocations_succeeds hvalid
    (revocationTable_merged signed.update hcurrent hc.revocations hmerged).1.distinctParsed
  refine ⟨_, _, Relay.applyRevocationUpdate_eq_ok.2 ⟨hverify, delta, haudience ▸ hdelta, .inr
    ⟨hnewer, Relay.accumulate_eq_ok.2
      ⟨age_le hissued hage, hlater, rfl, merged, next, hmerged, ?_, rfl⟩⟩⟩, rfl, rfl⟩
  rw [haudience]
  exact hnext

/-- **The Relay never gets stuck.** Whenever Control is ahead of the Relay, the update it signs for
    the Relay's version exists, is the only update `relay_watch` answers that version with, is the
    answer to a verified and timely poll of a registered Relay, and is accepted whenever it arrives
    within 300 seconds and finds the Relay at the same version. -/
theorem updates_are_accepted (hd : (deployment P key).Reachable d) {state : ControlState}
    (hstate : d.control.process = some state) {memory : Relay.Memory P}
    (hrun : d.relay.process = some memory) (haudience : d.relay.audience = state.audience)
    (hbehind : memory.current.version < state.relayRevision) :
    ∃ signed,
      SignedRevocationUpdate.sign P (revocationUpdate state d.clock memory.current.version) key =
        .ok signed ∧
      (∀ amb request answer, amb.clock = d.clock → request.knownRevision = memory.current.version →
        relayWatch P key amb request state = .ok (some answer) → answer = signed) ∧
      (∀ amb request relayId, amb.clock = d.clock → request.knownRevision = memory.current.version →
        request.verify P = .ok relayId → checkTime request.issuedAt amb.received = .ok () →
        request.relayQadPort ≠ some 0 → state.relays.any (·.endpointId = relayId.text) →
        -- the wait looks at a state of its own, and finds the Relay registered and behind there
        amb.earlier.relays.any (·.endpointId = relayId.text) →
        memory.current.version < amb.earlier.relayRevision →
        relayWatch P key amb request state = .ok (some signed)) ∧
      memory.current.version < signed.update.version ∧
      ∀ d' memory', (deployment P key).Steps d d' → d'.relay.process = some memory' →
        memory'.current.version = memory.current.version → d'.clock ≤ d.clock + 300 →
        ∃ host' memory'',
          Relay.applyRevocationUpdate P d'.relay memory' d'.clock none signed = .ok host' ∧
          host'.process = some memory'' ∧ memory''.current.version = signed.update.version := by
  obtain ⟨a, ha, habs⟩ := exists_abstracts hd
  obtain ⟨l, hl, href, hissues⟩ := habs.control
  obtain rfl := href.process state hstate
  have hwf := Ledger.wellFormed_of_reachable hl
  have hacc := Ledger.accounted_of_reachable hl
  have hupdate := revocationUpdate_validate hwf hacc d.clock memory.current.version
  let update := revocationUpdate l.state d.clock memory.current.version
  let signed : SignedRevocationUpdate :=
    ⟨update, P.sign key (canonicalBytes REVOCATION_DOMAIN update)⟩
  have hsigned : SignedRevocationUpdate.sign P update key = .ok signed :=
    bind_ok hupdate rfl
  refine ⟨signed, hsigned, ?_, ?_, hbehind, ?_⟩
  · intro amb request answer hclock hknown hanswer
    have hsame := relayWatch_eq_ok hanswer
    rw [hclock, hknown] at hsame
    exact Except.ok.inj (hsame.symm.trans hsigned)
  · intro amb request relayId hclock hknown hverify htime hport hnow hearlier hahead
    refine relayWatch_of_behind hverify htime hport hearlier (hknown ▸ hahead) hnow ?_
    rw [hclock, hknown]
    exact hsigned
  intro d' memory' hsteps hrun' hsame hage
  -- ask and answer in the abstract system now, and follow the message to its delivery
  let m := a.issuer.answer memory.current.version
  let asked : Tombstone.State String Int :=
    { a with requests := insert a.replica.version a.requests, messages := insert m a.messages }
  have hversion : a.replica.version = memory.current.version :=
    habs.relay.version.trans (habs.relay.current hrun).1
  have hasked : (Tombstone.system String Int).Steps a asked := by
    refine .tail (.single (.request a)) (.answer _ memory.current.version ?_)
    exact .inl hversion.symm
  have habs_asked : Abstracts key d asked :=
    habs.more (Set.subset_insert _ _) (Set.subset_insert _ _)
  obtain ⟨a', hrun_a, habs'⟩ := habs_asked.steps hd hsteps
  have hgrows := Tombstone.grows_of_steps hrun_a
  have hm := (Tombstone.sound_of_reachable ((ha.steps hasked).steps hrun_a)).messages m
    (hgrows.messages (.inl rfl))
  have hcarries : Carries P update m := hissues.carries hwf.keyed hacc d.clock _
  have hversion' : memory.current.version = a'.replica.version := by
    rw [habs'.relay.version, (habs'.relay.current hrun').1, hsame]
  have hclock : d.clock ≤ d'.clock := by
    rw [← habs'.clock, ← habs_asked.clock]
    exact hgrows.clock
  rw [← habs'.clock] at hclock hage ⊢
  refine habs'.relay.accepts hrun' hm hversion' hcarries ?_ hupdate
    ((audience_of_steps hsteps).trans haudience) (hsame ▸ hbehind) hclock hage ?_
  · rw [authority_of_reachable (hd.steps hsteps)]
    exact ensure_of (P.verify_sign key _)
  · intro r hr
    obtain ⟨t, ht, rfl⟩ := List.mem_map.1 hr
    rw [hsame]
    exact of_decide_eq_true (List.mem_filter.1 ht).2

open Reference in
/-- The update about a removed client is accepted by a Relay that has not heard of Control yet. -/
theorem first_update_is_accepted :
    ∃ (d : Deployment (platform [])) (state : ControlState) (memory : Relay.Memory (platform [])),
      (deployment (platform []) controlKey).Reachable d ∧ d.control.process = some state ∧
      d.relay.process = some memory ∧ d.relay.audience = state.audience ∧
      memory.current.version < state.relayRevision ∧ state.revocations.length = 1 ∧
      ∃ signed host' memory', SignedRevocationUpdate.sign (platform [])
          (revocationUpdate state d.clock memory.current.version) controlKey = .ok signed ∧
        Relay.applyRevocationUpdate (platform []) d.relay memory d.clock none signed = .ok host' ∧
        host'.process = some memory' ∧ memory'.current.version = signed.update.version := by
  obtain ⟨d, _, hr, _, hcheck⟩ := Deployment.exists_after controlKey
    (Deployment.removeClient (platform []) controlKey nodeKey otherKey) []
    (fun d _ => d.control.process.any (fun state => d.relay.process.any (fun memory =>
      d.relay.audience = state.audience ∧ memory.current.version < state.relayRevision ∧
        state.revocations.length = 1))) (by decide +kernel)
  obtain ⟨state, hstate, hcheck⟩ := (Option.any_eq_true _ _).1 hcheck
  obtain ⟨memory, hrun, hcheck⟩ := (Option.any_eq_true _ _).1 hcheck
  obtain ⟨haudience, hbehind, htombstone⟩ := of_decide_eq_true hcheck
  obtain ⟨signed, hsigned, _, _, _, haccepted⟩ :=
    updates_are_accepted hr hstate hrun haudience hbehind
  obtain ⟨host', memory', happly, hrun', hversion⟩ :=
    haccepted d memory .refl hrun rfl (by omega)
  exact ⟨d, state, memory, hr, hstate, hrun, haudience, hbehind, htombstone, signed, host', memory',
    hsigned, happly, hrun', hversion⟩

end AgentScale
