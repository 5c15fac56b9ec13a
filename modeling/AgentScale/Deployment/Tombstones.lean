import AgentScale.Control.Invariant
import AgentScale.Relay.Sessions
import AgentScale.Library.Tombstone

set_option autoImplicit false

/-! # Control and Relay as issuer and replica

The ledger's registrations, credentials, removals and tombstones are those of a `Tombstone.Issuer`
(`Issues`), and what a Relay has applied is a `Tombstone.Replica` (`Holds`). Keys are endpoint ids in
the text form Control stores. Each ledger step is a run of the issuer, an accepted update is a merge
or a pruning of the replica. -/

namespace AgentScale

open Checked ControlApi RelayApi Control

/-! ## Control as an issuer -/

namespace Control

def Registration.credential (r : Registration) : Tombstone.Credential String Int :=
  ⟨r.endpointId, r.generation, r.expiresAt⟩

def Removal.tombstone (r : Removal) : Tombstone.Removal String :=
  ⟨r.endpointId, r.generation, r.relayRevision⟩

def RevocationRecord.entry (r : RevocationRecord) : Tombstone.Entry Int :=
  ⟨r.revokedThroughGeneration, r.expiresAt, r.revision⟩

def ControlState.table (s : ControlState) : Tombstone.Table String Int :=
  .ofList RevocationRecord.endpointId RevocationRecord.entry s.revocations

end Control

def RelayApi.RelayCredential.granted (c : RelayCredential) : Tombstone.Credential String Int :=
  ⟨c.endpointId, c.generation, c.expiresAt⟩

/-- The ledger does what the issuer does. -/
structure Issues (l : Ledger) (i : Tombstone.Issuer String Int) : Prop where
  live : ∀ c, c ∈ i.live ↔ ∃ r ∈ l.state.registrations, r.credential = c
  granted : ∀ c, c ∈ i.granted ↔ ∃ x ∈ l.history.credentials, x.granted = c
  removed : ∀ r, r ∈ i.removed ↔ ∃ x ∈ l.history.removals, x.tombstone = r
  epoch : i.epoch ≤ l.state.revision
  revision : i.revision = l.state.relayRevision
  table : i.table = l.state.table

variable {P : Platform} {key : SecretKey} {l l' : Ledger} {s s' : ControlState}
  {i : Tombstone.Issuer String Int}

theorem mem_removalsBetween {x : Removal} :
    x ∈ removalsBetween s s' ↔ ∃ r ∈ s.registrations,
      (∀ r' ∈ s'.registrations, ¬ (r'.kind = r.kind ∧ r'.endpointId = r.endpointId ∧
        r'.generation = r.generation)) ∧
      x = ⟨r.endpointId, r.generation, s'.relayRevision⟩ := by
  simp only [removalsBetween, List.mem_map, List.mem_filter, Bool.not_eq_true', List.any_eq_false,
    Bool.and_eq_true, decide_eq_true_iff, and_assoc]
  exact exists_congr (fun r => and_congr_right (fun _ => and_congr_right (fun _ => eq_comm)))

/-- A change that keeps every registration, in whatever validity period, removes none. -/
theorem removalsBetween_eq_nil (h : ∀ r ∈ s.registrations, ∃ r' ∈ s'.registrations,
    r'.kind = r.kind ∧ r'.endpointId = r.endpointId ∧ r'.generation = r.generation) :
    removalsBetween s s' = [] := by
  refine List.eq_nil_iff_forall_not_mem.2 (fun x hx => ?_)
  obtain ⟨r, hr, hgone, _⟩ := mem_removalsBetween.1 hx
  obtain ⟨r', hr', hsame⟩ := h r hr
  exact hgone r' hr' hsame

/-- Removing one registration is recorded as exactly that. -/
theorem mem_removalsBetween_remove {r : Registration} (hacc : Accounted P s)
    (hr : r ∈ s.registrations)
    (hregs : ∀ x, x ∈ s'.registrations ↔ x ∈ s.registrations ∧ x ≠ r) {x : Removal} :
    x ∈ removalsBetween s s' ↔ x = ⟨r.endpointId, r.generation, s'.relayRevision⟩ := by
  rw [mem_removalsBetween]
  constructor
  · rintro ⟨r', hr', hgone, rfl⟩
    by_cases heq : r' = r
    · rw [heq]
    · exact absurd ⟨rfl, rfl, rfl⟩ (hgone r' ((hregs r').2 ⟨hr', heq⟩))
  · rintro rfl
    refine ⟨r, hr, ?_, rfl⟩
    rintro r' hr' ⟨_, _, hgen⟩
    obtain ⟨hmem, hne⟩ := (hregs r').1 hr'
    exact hne (hacc.generation_inj r' hmem r hr hgen)

theorem table_congr (h : s'.revocations = s.revocations) : s'.table = s.table :=
  congrArg (Tombstone.Table.ofList _ _) h

/-- The tombstone Control writes is the issuer's. -/
theorem table_remove {r : Registration} (hfits : I64.Fits (s.relayRevision + 1))
    (hrevs : s'.revocations = Keyed.upsert RevocationRecord.endpointId
      (revocationRecord s r.endpointId r.generation r.expiresAt) s.revocations) :
    s'.table = Function.update s.table r.endpointId
      (some (Tombstone.bury (s.table r.endpointId) r.credential (s.relayRevision + 1))) := by
  have hsat : U64.saturatingAdd s.relayRevision 1 = s.relayRevision + 1 := by
    refine U64.saturatingAdd_eq ?_
    unfold I64.Fits I64.maxValue at hfits
    unfold U64.maxValue
    omega
  have hentry : (revocationRecord s r.endpointId r.generation r.expiresAt).entry =
      Tombstone.bury (s.table r.endpointId) r.credential (s.relayRevision + 1) := by
    unfold revocationRecord ControlState.table Tombstone.Table.ofList
    cases Keyed.lookup RevocationRecord.endpointId r.endpointId s.revocations with
    | none => simp [Tombstone.bury, RevocationRecord.entry, Registration.credential, hsat]
    | some old => simp [Tombstone.bury, RevocationRecord.entry, Registration.credential, hsat]
  funext k
  have hid := revocationRecord_endpointId s r.endpointId r.generation r.expiresAt
  by_cases hk : k = r.endpointId
  · subst hk
    rw [Function.update_self, ControlState.table, hrevs, Tombstone.Table.ofList,
      Keyed.lookup_upsert, hid, if_pos rfl, Option.map_some, hentry]
  · rw [Function.update_of_ne hk, ControlState.table, hrevs, Tombstone.Table.ofList,
      Keyed.lookup_upsert, hid, if_neg hk]
    rfl

/-- **A commit is a step of the issuer**, or none. -/
theorem Issues.commit (h : Issues l i) {now : Int} {asked : Registration → Prop}
    {enrolled : List String} (hacc : Accounted P l.state) (hk : l.state.Keyed)
    (he : Effect P asked now l.state l'.state) (hfits : I64.Fits l'.state.relayRevision)
    (hhistory : l'.history = l.history.change l.state l'.state enrolled) :
    ∃ i', Tombstone.Issuer.Step now i i' ∧ Issues l' i' := by
  have hgranted : ∀ c, c ∈ i.granted ↔ ∃ x ∈ l'.history.credentials, x.granted = c := by
    rw [hhistory]
    exact h.granted
  have hremoved_of_nil (hnil : removalsBetween l.state l'.state = []) :
      ∀ r, r ∈ i.removed ↔ ∃ x ∈ l'.history.removals, x.tombstone = r := by
    rw [hhistory, History.change, hnil]
    exact h.removed
  cases he with
  | enrol r canonical generation revision relayRevision registrations revocations =>
    have hepoch := h.epoch
    refine ⟨_, .enrol i r.credential (by simp only [Registration.credential]; omega), ?_, hgranted,
      ?_, ?_, h.revision.trans relayRevision.symm, ?_⟩
    · intro c
      rw [Set.mem_insert_iff, h.live]
      constructor
      · rintro (rfl | ⟨x, hx, rfl⟩)
        · exact ⟨r, (registrations r).2 (.inl rfl), rfl⟩
        · exact ⟨x, (registrations x).2 (.inr hx), rfl⟩
      · rintro ⟨x, hx, rfl⟩
        rcases (registrations x).1 hx with rfl | hx
        · exact .inl rfl
        · exact .inr ⟨x, hx, rfl⟩
    · exact hremoved_of_nil (removalsBetween_eq_nil (fun x hx =>
        ⟨x, (registrations x).2 (.inr hx), rfl, rfl, rfl⟩))
    · exact generation.le.trans revision.ge
    · exact h.table.trans (table_congr revocations).symm
  | remove r mem revision relayRevision registrations revocations =>
    refine ⟨_, .remove i r.credential ((h.live _).2 ⟨r, mem, rfl⟩), ?_, hgranted, ?_, ?_, ?_, ?_⟩
    · intro c
      rw [Set.mem_sdiff, Set.mem_singleton_iff, h.live]
      constructor
      · rintro ⟨⟨x, hx, rfl⟩, hne⟩
        exact ⟨x, (registrations x).2 ⟨hx, fun heq => hne (heq ▸ rfl)⟩, rfl⟩
      · rintro ⟨x, hx, rfl⟩
        obtain ⟨hx, hne⟩ := (registrations x).1 hx
        refine ⟨⟨x, hx, rfl⟩, fun heq => hne ?_⟩
        exact hacc.generation_inj x hx r mem (congrArg Tombstone.Credential.generation heq)
    · intro x
      rw [hhistory, History.change, Set.mem_insert_iff, h.removed]
      simp only [List.mem_append, mem_removalsBetween_remove hacc mem registrations]
      constructor
      · rintro (rfl | ⟨y, hy, rfl⟩)
        · refine ⟨_, .inl rfl, ?_⟩
          simp [Removal.tombstone, Registration.credential, h.revision, relayRevision]
        · exact ⟨y, .inr hy, rfl⟩
      · rintro ⟨y, rfl | hy, rfl⟩
        · left
          simp [Removal.tombstone, Registration.credential, h.revision, relayRevision]
        · exact .inr ⟨y, hy, rfl⟩
    · exact h.epoch.trans (by omega)
    · exact (congrArg (· + 1) h.revision).trans relayRevision.symm
    · rw [table_remove (relayRevision ▸ hfits) revocations, h.table, h.revision]
      rfl
  | extend r r' mem kind endpointId generation expiresAt revision relayRevision registrations
      revocations =>
      have hcredential : r'.credential = { r.credential with expiresAt := r'.expiresAt } := by
        simp [Registration.credential, endpointId, generation]
      refine ⟨_, .extend i r.credential r'.expiresAt ((h.live _).2 ⟨r, mem, rfl⟩) expiresAt, ?_,
        hgranted, ?_, h.epoch.trans revision.ge, h.revision.trans relayRevision.symm, ?_⟩
      · intro c
        rw [← hcredential, Set.mem_insert_iff, Set.mem_sdiff, Set.mem_singleton_iff, h.live]
        constructor
        · rintro (rfl | ⟨⟨x, hx, rfl⟩, hne⟩)
          · exact ⟨r', (registrations r').2 (.inl rfl), rfl⟩
          · exact ⟨x, (registrations x).2 (.inr ⟨hx, fun heq => hne (heq ▸ rfl)⟩), rfl⟩
        · rintro ⟨x, hx, rfl⟩
          rcases (registrations x).1 hx with rfl | ⟨hx, hne⟩
          · exact .inl rfl
          · refine .inr ⟨⟨x, hx, rfl⟩, fun heq => hne ?_⟩
            exact hacc.generation_inj x hx r mem (congrArg Tombstone.Credential.generation heq)
      · refine hremoved_of_nil (removalsBetween_eq_nil (fun x hx => ?_))
        by_cases heq : x = r
        · exact ⟨r', (registrations r').2 (.inl rfl), heq ▸ kind, heq ▸ endpointId, heq ▸ generation⟩
        · exact ⟨x, (registrations x).2 (.inr ⟨hx, heq⟩), rfl, rfl, rfl⟩
      · exact h.table.trans (table_congr revocations).symm
  | collect revision relayRevision registrations revocations =>
    refine ⟨_, .collect i, ?_, hgranted, ?_, h.epoch.trans revision.ge,
      h.revision.trans relayRevision.symm, ?_⟩
    · exact fun c => (h.live c).trans (exists_congr (fun x => and_congr_left'
        (registrations x).symm))
    · exact hremoved_of_nil (removalsBetween_eq_nil (fun x hx =>
        ⟨x, (registrations x).2 hx, rfl, rfl, rfl⟩))
    · rw [h.table, ControlState.table, ControlState.table, revocations]
      exact (Tombstone.Table.ofList_active hk.revocations now).symm
  | keep revision relayRevision registrations revocations =>
    refine ⟨_, .advance i l'.state.relayRevision (h.revision.le.trans relayRevision), ?_, hgranted,
      ?_, h.epoch.trans revision, rfl, ?_⟩
    · exact fun c => (h.live c).trans (exists_congr (fun x => and_congr_left'
        (registrations x).symm))
    · exact hremoved_of_nil (removalsBetween_eq_nil (fun x hx =>
        ⟨x, (registrations x).2 hx, rfl, rfl, rfl⟩))
    · exact h.table.trans (table_congr revocations).symm

/-- The credential inside a signed map belongs to a registration. -/
theorem issuedCredential_registered {map : NodeMap} {c : RelayCredential}
    (h : issuedCredential P key s map = some c) : ∃ r ∈ s.registrations, r.credential = c.granted := by
  obtain ⟨recipient, _, h⟩ := Option.bind_eq_some_iff.1 h
  obtain ⟨role, hrole, hc⟩ := Option.bind_eq_some_iff.1 h
  cases role with
  | edge record =>
    obtain ⟨hmem, hid⟩ := roleOf_edge hrole
    cases hc
    refine ⟨record.registration, mem_registrations.2 (.inr ⟨record, hmem, rfl⟩), ?_⟩
    simp [Registration.credential, EdgeRecord.registration, RelayCredential.granted,
      relayCredential, hid]
  | client record =>
    obtain ⟨hmem, hid⟩ := roleOf_client hrole
    cases hc
    refine ⟨record.registration, mem_registrations.2 (.inl ⟨record, hmem, rfl⟩), ?_⟩
    simp [Registration.credential, ClientRecord.registration, RelayCredential.granted,
      relayCredential, hid]
  | relay => exact absurd hc (by simp [Role.credential])

theorem issuedCredential_canonical {map : NodeMap} {c : RelayCredential}
    (h : issuedCredential P key s map = some c) : Canonical P c.endpointId := by
  obtain ⟨recipient, _, h⟩ := Option.bind_eq_some_iff.1 h
  obtain ⟨role, _, hc⟩ := Option.bind_eq_some_iff.1 h
  cases role with
  | edge record | client record =>
    cases hc
    exact recipient.display
  | relay => exact absurd hc (by simp [Role.credential])

/-- Credentials name their endpoint in canonical form. -/
theorem Ledger.canonical_credentials (h : (ledger P key).Reachable l) :
    ∀ c ∈ l.history.credentials, Canonical P c.endpointId := by
  refine h.invariant (P := fun l => ∀ c ∈ l.history.credentials, Canonical P c.endpointId) ?_ ?_
  · rintro l ⟨_, _, _, hhistory⟩ c hc
    rw [hhistory] at hc
    exact absurd hc List.not_mem_nil
  · intro l l' _ hcanonical hstep
    cases hstep with
    | tick | draw | reorder | commit => exact hcanonical
    | issue recipient signed signs =>
      intro c hc
      rcases List.mem_append.1 hc with hnew | hold
      · exact issuedCredential_canonical (Option.mem_toList.1 hnew)
      · exact hcanonical c hold

/-- Signing a map grants the credential inside it. -/
theorem Issues.issue (h : Issues l i) (map : NodeMap) (now : Int) :
    ∃ i', Relation.ReflTransGen (Tombstone.Issuer.Step now) i i' ∧
      Issues { l with history := l.history.issue P key l.state map } i' := by
  cases hc : issuedCredential P key l.state map with
  | none =>
    refine ⟨i, .refl, { h with granted := ?_, removed := h.removed }⟩
    simp only [History.issue, hc]
    exact h.granted
  | some c =>
    obtain ⟨r, hr, hrc⟩ := issuedCredential_registered hc
    refine ⟨_, .single (.grant i c.granted ((h.live _).2 ⟨r, hr, hrc⟩)),
      { h with granted := ?_, removed := h.removed }⟩
    intro d
    simp only [History.issue, hc, Option.toList_some, List.singleton_append, List.mem_cons,
      Set.mem_insert_iff, h.granted]
    constructor
    · rintro (rfl | ⟨x, hx, rfl⟩)
      · exact ⟨c, .inl rfl, rfl⟩
      · exact ⟨x, .inr hx, rfl⟩
    · rintro ⟨x, rfl | hx, rfl⟩
      · exact .inl rfl
      · exact .inr ⟨x, hx, rfl⟩

theorem Issues.reorder (h : Issues l i) (hsame : s.Same l.state) (hk : s.Keyed) :
    Issues { l with state := s } i where
  __ := h
  live := fun c => (h.live c).trans (exists_congr (fun r => and_congr_left'
    (hsame.mem_registrations r).symm))
  epoch := h.epoch.trans hsame.revision.ge
  revision := h.revision.trans hsame.relayRevision.symm
  table := h.table.trans (Tombstone.Table.ofList_perm hk.revocations hsame.revocations).symm

/-- What the ledger does shows at the issuer and the clock only. -/
theorem Issues.step {a : Tombstone.State String Int} (hr : (ledger P key).Reachable l)
    (hstep : Ledger.Step P key (fun _ _ _ => True) l l') (hclock : a.clock = l.clock)
    (h : Issues l a.issuer) :
    ∃ i', (Tombstone.system String Int).Steps a { a with clock := l'.clock, issuer := i' } ∧
      Issues l' i' := by
  have lift : ∀ {i i'}, Relation.ReflTransGen (Tombstone.Issuer.Step a.clock) i i' →
      (Tombstone.system String Int).Steps { a with issuer := i } { a with issuer := i' } := by
    intro i i' hsteps
    induction hsteps with
    | refl => exact .refl
    | tail _ hlast ih => exact ih.tail (.issuer _ _ hlast)
  cases hstep with
  | tick now later =>
    exact ⟨a.issuer, .single (.tick a now (hclock ▸ later)), { h with }⟩
  | draw token =>
    refine ⟨a.issuer, ?_, { h with }⟩
    simp only [← hclock]
    exact .refl
  | reorder s same wellFormed =>
    refine ⟨a.issuer, ?_, h.reorder same wellFormed.keyed⟩
    simp only [← hclock]
    exact .refl
  | commit amb delta tokens enrolled received clock draws decision wellFormed fits =>
    have hk := (Ledger.wellFormed_of_reachable hr).keyed
    obtain ⟨i', hi', hissues⟩ : ∃ i', Tombstone.Issuer.Step amb.clock a.issuer i' ∧
        Issues { l with
          state := delta.commit l.state, drawn := tokens ++ l.drawn,
          history := l.history.change l.state (delta.commit l.state) enrolled } i' :=
      h.commit (Ledger.accounted_of_reachable hr) hk (decision.mutation_any.effect hk) fits.2 rfl
    refine ⟨i', ?_, hissues⟩
    simp only [← hclock]
    exact lift (.single (by rw [hclock, ← clock]; exact hi'))
  | issue recipient signed signs =>
    obtain ⟨i', hi', hissues⟩ := h.issue signed.map a.clock
    refine ⟨i', ?_, hissues⟩
    simp only [← hclock]
    exact lift hi'

/-! ## A Relay as a replica -/

def RelayApi.Revocation.entry (r : Revocation) : Tombstone.Entry Int :=
  ⟨r.revokedThroughGeneration, r.expiresAt, r.revision⟩

/-- The tombstones of an update, by endpoint. -/
def revocationTable (revocations : List Revocation) : Tombstone.Table String Int :=
  .ofList Revocation.endpointId Revocation.entry revocations

namespace Relay

/-- The version a Relay has applied. -/
def Host.version (host : Host P) : Nat := host.file.elim 0 RevocationUpdate.version

/-- The revocations a Relay keeps. -/
def Host.revocations (host : Host P) : List Revocation :=
  host.file.elim [] RevocationUpdate.revocations

end Relay

/-- Revocations that name each endpoint once, in the form Control stores. -/
structure CanonicalRevocations (P : Platform) (revocations : List Revocation) : Prop where
  canonical : ∀ r ∈ revocations, Canonical P r.endpointId
  distinct : Keyed.Distinct Revocation.endpointId revocations

structure Holds (host : Relay.Host P) (p : Tombstone.Replica String Int) : Prop where
  version : p.version = host.version
  seen : p.seen = revocationTable host.revocations
  revocations : CanonicalRevocations P host.revocations
  running : ∀ memory, host.process = some memory → host.file = some memory.current ∧
    Relay.validateRevocations P memory.current host.audience = .ok memory.revoked

/-- The update is what the message says. -/
structure Carries (P : Platform) (update : RevocationUpdate) (m : Tombstone.Message String Int) :
    Prop where
  version : m.version = update.version
  entries : m.entries = revocationTable update.revocations
  revocations : CanonicalRevocations P update.revocations

variable {host host' : Relay.Host P} {memory : Relay.Memory P} {now : Int}
  {p : Tombstone.Replica String Int}

namespace CanonicalRevocations

variable {revocations : List Revocation}

theorem parse (h : CanonicalRevocations P revocations) {r : Revocation} (hr : r ∈ revocations) :
    parseEndpointId P r.endpointId = some ⟨r.endpointId, h.canonical r hr⟩ :=
  parseEndpointId_of_canonical (h.canonical r hr)

/-- In canonical form, equal keys are equal texts. -/
theorem parse_eq_some (h : CanonicalRevocations P revocations) {r : Revocation}
    (hr : r ∈ revocations) {id : EndpointId P} :
    parseEndpointId P r.endpointId = some id ↔ r.endpointId = id.text := by
  rw [h.parse hr, Option.some_inj]
  exact ⟨fun heq => congrArg EndpointId.text heq, fun heq => EndpointId.ext_text heq⟩

theorem distinctParsed (h : CanonicalRevocations P revocations) :
    Keyed.Distinct (fun r => parseEndpointId P r.endpointId) revocations := by
  have hinj : ∀ a ∈ revocations, ∀ b ∈ revocations,
      parseEndpointId P a.endpointId = parseEndpointId P b.endpointId → a = b := by
    intro a ha b hb heq
    rw [h.parse hb, h.parse_eq_some ha] at heq
    exact h.distinct.eq_of_key ha hb heq
  exact (List.Nodup.of_map _ h.distinct).map_on hinj

theorem filter (h : CanonicalRevocations P revocations) (q : Revocation → Bool) :
    CanonicalRevocations P (revocations.filter q) :=
  ⟨fun r hr => h.canonical r (List.mem_filter.1 hr).1, h.distinct.sublist List.filter_sublist⟩

theorem table_eq_some (h : CanonicalRevocations P revocations) {k : String}
    {e : Tombstone.Entry Int} :
    revocationTable revocations k = some e ↔ ∃ r ∈ revocations, r.endpointId = k ∧ r.entry = e :=
  Tombstone.Table.ofList_eq_some h.distinct

end CanonicalRevocations

/-- Nothing but an update changes what a Relay has applied. -/
theorem Holds.step (h : Holds host p) (hstep : Relay.Host.Step now host host') : Holds host' p := by
  cases hstep with
  | connect memory endpointId token running =>
    refine ⟨h.version, h.seen, h.revocations, ?_⟩
    rintro _ hrun
    cases hrun
    have hmemory := h.running memory running
    unfold Relay.connect
    split <;> exact hmemory
  | leave memory session running =>
    refine ⟨h.version, h.seen, h.revocations, ?_⟩
    rintro _ hrun
    cases hrun
    exact h.running memory running
  | crash => exact ⟨h.version, h.seen, h.revocations, fun memory hrun => absurd hrun (by simp)⟩
  | start _ stopped started =>
    obtain ⟨_, _, hstarted⟩ := of_bind started
    obtain ⟨_, _, hstarted⟩ := of_bind hstarted
    obtain ⟨revoked, hrevoked, hstarted⟩ := of_bind hstarted
    cases hstarted
    have hrevocations : (Relay.loadOrInitialize P host now).revocations = host.revocations := by
      unfold Relay.loadOrInitialize Relay.Host.revocations
      cases host.file <;> rfl
    have hversion : (Relay.loadOrInitialize P host now).version = host.version := by
      unfold Relay.loadOrInitialize Relay.Host.version
      cases host.file <;> rfl
    refine ⟨h.version.trans hversion.symm, ?_, ?_, ?_⟩
    · exact h.seen.trans (congrArg revocationTable hrevocations.symm)
    · have hcanonical := h.revocations
      rw [← hrevocations] at hcanonical
      exact hcanonical
    · rintro _ hrun
      cases hrun
      exact ⟨rfl, hrevoked⟩
  | revokeAll memory written running =>
    refine ⟨h.version, h.seen, h.revocations, ?_⟩
    rintro _ hrun
    cases hrun
    exact h.running memory running

theorem Holds.current (h : Holds host p) (hrun : host.process = some memory) :
    host.version = memory.current.version ∧ host.revocations = memory.current.revocations := by
  have hfile := (h.running memory hrun).1
  exact ⟨by rw [Relay.Host.version, hfile]; rfl, by rw [Relay.Host.revocations, hfile]; rfl⟩

theorem revocationTable_merged {old received : List Revocation} {merged : Relay.Merged P}
    (update : RevocationUpdate) (hold : CanonicalRevocations P old)
    (hreceived : CanonicalRevocations P received)
    (hmerged : foldAll (Relay.mergeRevocation P) (Relay.activeRevocations P now old) received =
      .ok merged) :
    CanonicalRevocations P (Relay.accumulated update merged).revocations ∧
      revocationTable (Relay.accumulated update merged).revocations =
        (revocationTable received).overlay ((revocationTable old).active now) := by
  have hmem : ∀ r, r ∈ (Relay.accumulated update merged).revocations ↔
      r ∈ received ∨ (r ∈ old ∧ now < r.expiresAt ∧ ∀ r' ∈ received, r'.endpointId ≠ r.endpointId) := by
    intro r
    rw [Relay.mem_accumulated]
    simp only [Relay.mem_merged hold.distinctParsed hreceived.distinctParsed hmerged]
    constructor
    · rintro ⟨id, hid, hin | ⟨hin, hlive, hfree⟩⟩
      · exact .inl hin
      · refine .inr ⟨hin, hlive, fun r' hr' heq => hfree r' hr' ?_⟩
        rw [heq]
        exact hid
    · rintro (hin | ⟨hin, hlive, hfree⟩)
      · exact ⟨_, hreceived.parse hin, .inl hin⟩
      · refine ⟨_, hold.parse hin, .inr ⟨hin, hlive, fun r' hr' heq => ?_⟩⟩
        exact hfree r' hr' ((hreceived.parse_eq_some hr').1 heq)
  have hcanonical : CanonicalRevocations P (Relay.accumulated update merged).revocations := by
    refine ⟨?_, ?_⟩
    · intro r hr
      rcases (hmem r).1 hr with hin | ⟨hin, _⟩
      · exact hreceived.canonical r hin
      · exact hold.canonical r hin
    · have hperm : (Relay.accumulated update merged).revocations.Perm (merged.map Prod.snd) :=
        List.perm_insertionSort _ _
      refine Keyed.Distinct.perm ?_ hperm.symm
      -- distinct keys of the merged map are distinct texts
      have hdistinct := Relay.distinct_merged hreceived.distinctParsed hmerged
      unfold Keyed.Distinct
      rw [List.map_map]
      refine (List.Nodup.of_map _ hdistinct).map_on ?_
      intro a ha b hb heq
      have hparse := fun q hq =>
        ((Relay.mem_merged hold.distinctParsed hreceived.distinctParsed hmerged (p := q)).1 hq).1
      refine hdistinct.eq_of_key ha hb (Option.some.inj ?_)
      exact (hparse a ha).symm.trans ((congrArg (parseEndpointId P) heq).trans (hparse b hb))
  refine ⟨hcanonical, funext (fun k => Option.ext (fun e => ?_))⟩
  rw [hcanonical.table_eq_some, Tombstone.Table.overlay_eq_some, hreceived.table_eq_some,
    Tombstone.Table.active_eq_some, hold.table_eq_some]
  have hnone : revocationTable received k = none ↔ ∀ r ∈ received, r.endpointId ≠ k :=
    Tombstone.Table.ofList_eq_none
  rw [hnone]
  simp only [hmem]
  constructor
  · rintro ⟨r, hin | ⟨hin, hlive, hfree⟩, rfl, rfl⟩
    · exact .inl ⟨r, hin, rfl, rfl⟩
    · exact .inr ⟨hfree, ⟨r, hin, rfl, rfl⟩, hlive⟩
  · rintro (⟨r, hin, rfl, rfl⟩ | ⟨hfree, ⟨r, hin, rfl, rfl⟩, hlive⟩)
    · exact ⟨r, .inl hin, rfl, rfl⟩
    · exact ⟨r, .inr ⟨hin, hlive, hfree⟩, rfl, rfl⟩

/-- **An accepted update** leaves the replica as it is, prunes it, or merges a newer message. -/
theorem Holds.deliver (h : Holds host p) {ioError : Option String} {signed : SignedRevocationUpdate}
    {m : Tombstone.Message String Int} (hm : Carries P signed.update m)
    (hrun : host.process = some memory)
    (haccepted : Relay.applyRevocationUpdate P host memory now ioError signed = .ok host') :
    Holds host' p ∨ Holds host' { p with seen := p.seen.active now } ∨
      (p.version < m.version ∧ Holds host' (p.merge now m)) := by
  obtain ⟨hversion, hrevocations⟩ := h.current hrun
  have hold : CanonicalRevocations P memory.current.revocations := hrevocations ▸ h.revocations
  obtain ⟨_, delta, _, ⟨_, hre⟩ | ⟨hnewer, hacc⟩⟩ :=
    Relay.applyRevocationUpdate_eq_ok.1 haccepted
  · obtain ⟨_, rfl | ⟨active, hactive, rfl⟩⟩ := Relay.reapply_eq_ok hre
    · exact .inl h
    · refine .inr (.inl ⟨h.version.trans hversion, ?_, hold.filter _, ?_⟩)
      · rw [h.seen, hrevocations]
        exact (Tombstone.Table.ofList_active hold.distinct now).symm
      · rintro _ hrun'
        cases hrun'
        exact ⟨rfl, hactive⟩
  · obtain ⟨_, _, _, merged, next, hmerged, hnext, rfl⟩ := Relay.accumulate_eq_ok.1 hacc
    obtain ⟨hcanonical, htable⟩ :=
      revocationTable_merged signed.update hold hm.revocations hmerged
    refine .inr (.inr ⟨?_, hm.version, ?_, hcanonical, ?_⟩)
    · rw [h.version, hversion, hm.version]
      exact hnewer
    · refine Eq.trans ?_ htable.symm
      rw [Tombstone.Replica.merge, hm.entries, h.seen, hrevocations]
    · rintro _ hrun'
      cases hrun'
      exact ⟨rfl, hnext⟩

/-- The update Control signs is the issuer's answer. -/
theorem Issues.carries (h : Issues l i) (hk : l.state.Keyed) (hacc : Accounted P l.state) (now : Int)
    (known : Nat) : Carries P (revocationUpdate l.state now known) (i.answer known) where
  version := h.revision
  entries := by
    rw [Tombstone.Issuer.answer, h.table, ControlState.table,
      ← Tombstone.Table.ofList_since hk.revocations]
    have hmap := Tombstone.Table.ofList_map Revocation.endpointId Revocation.entry
      RevocationRecord.revocation (l.state.revocations.filter (fun r => known < r.revision))
    exact hmap.symm
  revocations := by
    refine ⟨?_, ?_⟩
    · intro r hr
      obtain ⟨t, ht, rfl⟩ := List.mem_map.1 hr
      exact hacc.canonicalTombstones t (List.mem_filter.1 ht).1
    · unfold Keyed.Distinct revocationUpdate
      rw [List.map_map]
      exact hk.revocations.sublist List.filter_sublist

end AgentScale
