import AgentScale.Relay.Server

set_option autoImplicit false

/-! # Validation and merging of revocations

One specification lemma for each function of the update path: what a successful validation
establishes (`validateRevocations_eq_ok`), what a merged table contains (`mem_merged`), and the
two ways an update is accepted (`applyRevocationUpdate_eq_ok`). -/

namespace AgentScale.Relay

open Checked RelayApi

variable {P : Platform}

/-! ## Validation -/

/-- The index entry of a revocation with a parseable endpoint. -/
def revocationEntry (P : Platform) (r : Revocation) : Option (EndpointId P × Nat × Int) :=
  (parseEndpointId P r.endpointId).map (fun id => (id, r.revokedThroughGeneration, r.expiresAt))

variable {r : Revocation}

theorem revocationEntry_eq_some {entry : EndpointId P × Nat × Int} :
    revocationEntry P r = some entry ↔ parseEndpointId P r.endpointId = some entry.1 ∧
      r.revokedThroughGeneration = entry.2.1 ∧ r.expiresAt = entry.2.2 := by
  obtain ⟨id, generation, expiresAt⟩ := entry
  simp [revocationEntry]

theorem checkRevocation_eq_ok {version : Nat} {u : Unit} :
    checkRevocation version r = .ok u ↔
      0 < r.revokedThroughGeneration ∧ 0 < r.revision ∧ r.revision ≤ version := by
  unfold checkRevocation
  rw [bind_eq_ok]
  simp [ensure_eq_ok]

/-- An update passes validation when its revocations are in range and name endpoints. -/
theorem validate_eq_ok {update : RevocationUpdate} {u : Unit} :
    update.validate P = .ok u ↔
      update.protocolVersion = RELAY_PROTOCOL_VERSION ∧ update.audience ≠ "" ∧
      (∀ r ∈ update.revocations,
        0 < r.revokedThroughGeneration ∧ 0 < r.revision ∧ r.revision ≤ update.version) ∧
      ∀ r ∈ update.revocations, ∃ id, parseEndpointId P r.endpointId = some id := by
  have hchecks : (∃ checks, update.revocations.mapM (checkRevocation update.version) = .ok checks) ↔
      ∀ r ∈ update.revocations,
        0 < r.revokedThroughGeneration ∧ 0 < r.revision ∧ r.revision ≤ update.version := by
    simp only [mapM_eq_ok, checkRevocation_eq_ok, exists_const]
  have hentries : (∃ entries, update.entries P = .ok entries) ↔
      ∀ r ∈ update.revocations, ∃ id, parseEndpointId P r.endpointId = some id := by
    refine mapM_eq_ok.trans (forall₂_congr (fun r _ => ?_))
    simp only [bind_eq_ok, okOr_eq_ok, pure_eq_ok]
    constructor
    · rintro ⟨_, id, hid, _⟩
      exact ⟨id, hid⟩
    · rintro ⟨id, hid⟩
      exact ⟨_, id, hid, rfl⟩
  rw [← hchecks, ← hentries]
  constructor
  · intro h
    obtain ⟨_, hversion, h⟩ := of_bind h
    obtain ⟨_, haudience, h⟩ := of_bind h
    obtain ⟨checks, hc, h⟩ := of_bind h
    obtain ⟨entries, he, _⟩ := of_bind h
    exact ⟨ensure_eq_ok.1 hversion, ensure_eq_ok.1 haudience, ⟨checks, hc⟩, entries, he⟩
  · rintro ⟨hversion, haudience, ⟨checks, hc⟩, entries, he⟩
    exact bind_ok (ensure_of hversion) (bind_ok (ensure_of haudience)
      (bind_ok hc (bind_ok he rfl)))

/-- Zipping the revocations with their parsed endpoints gives their index entries. -/
theorem map_zipWith_entries {update : RevocationUpdate} {entries : List (EndpointId P × Nat)}
    (h : update.entries P = .ok entries) :
    (List.zipWith indexEntry update.revocations entries).map some =
      update.revocations.map (revocationEntry P) := by
  unfold RevocationUpdate.entries at h
  generalize update.revocations = revocations at h ⊢
  induction revocations generalizing entries with
  | nil => rfl
  | cons r rest ih =>
    obtain ⟨entry, entries', hentry, hrest, rfl⟩ := mapM_cons_eq_ok.1 h
    obtain ⟨id, hid, hpair⟩ := of_bind hentry
    cases hpair
    rw [List.zipWith_cons_cons, List.map_cons, List.map_cons, ih hrest, revocationEntry,
      okOr_eq_ok.1 hid]
    rfl

theorem length_zipWith_entries {update : RevocationUpdate} {entries : List (EndpointId P × Nat)}
    (h : update.entries P = .ok entries) :
    (List.zipWith indexEntry update.revocations entries).length = update.revocations.length := by
  simpa using congrArg List.length (map_zipWith_entries h)

/-- The index of a valid update has one entry for each of its revocations, and no endpoint twice. -/
theorem validateRevocations_eq_ok {update : RevocationUpdate} {audience : String}
    {ids : RevocationIndex P} :
    validateRevocations P update audience = .ok ids ↔ update.validate P = .ok () ∧
      update.audience = audience ∧ ids.map some = update.revocations.map (revocationEntry P) ∧
      Keyed.Distinct Prod.fst ids := by
  constructor
  · intro h
    obtain ⟨_, hvalid, h⟩ := of_bind h
    obtain ⟨_, haudience, h⟩ := of_bind h
    obtain ⟨entries, hentries, h⟩ := of_bind h
    obtain ⟨_, hlength, h⟩ := of_bind h
    cases h
    refine ⟨hvalid, ensure_eq_ok.1 haudience, ?_, Keyed.distinct_collect _ _⟩
    rw [Keyed.collect_of_length ((ensure_eq_ok.1 hlength).trans (length_zipWith_entries hentries).symm)]
    exact map_zipWith_entries hentries
  · rintro ⟨hvalid, haudience, hids, hdistinct⟩
    obtain ⟨entries, hentries⟩ : ∃ entries, update.entries P = .ok entries := by
      obtain ⟨_, _, h⟩ := of_bind hvalid
      obtain ⟨_, _, h⟩ := of_bind h
      obtain ⟨_, _, h⟩ := of_bind h
      obtain ⟨entries, hentries, _⟩ := of_bind h
      exact ⟨entries, hentries⟩
    have hzip : List.zipWith indexEntry update.revocations entries = ids :=
      List.map_injective_iff.2 (Option.some_injective _) ((map_zipWith_entries hentries).trans hids.symm)
    have hcollect := Keyed.collect_of_distinct hdistinct
    refine bind_ok hvalid (bind_ok (ensure_of haudience)
      (bind_ok hentries ?_))
    simp only [hzip, hcollect]
    refine bind_ok (ensure_of ?_) rfl
    simpa using congrArg List.length hids

theorem map_fst_revocationEntry (revocations : List Revocation) :
    (revocations.map (revocationEntry P)).map (Option.map Prod.fst) =
      revocations.map (fun r => parseEndpointId P r.endpointId) := by
  simp [revocationEntry, Function.comp_def]

/-- An update that passes validation and names no endpoint twice has an index. -/
theorem validateRevocations_succeeds {update : RevocationUpdate}
    (hvalid : update.validate P = .ok ())
    (hdistinct : Keyed.Distinct (fun r => parseEndpointId P r.endpointId) update.revocations) :
    ∃ ids, validateRevocations P update update.audience = .ok ids := by
  let ids := update.revocations.filterMap (revocationEntry P)
  have hids : ids.map some = update.revocations.map (revocationEntry P) := by
    refine List.map_filterMap_some_eq_filter_map_isSome.trans (List.filter_eq_self.2 ?_)
    intro entry hentry
    obtain ⟨r, hr, rfl⟩ := List.mem_map.1 hentry
    obtain ⟨id, hid⟩ := (validate_eq_ok.1 hvalid).2.2.2 r hr
    simp [revocationEntry, hid]
  refine ⟨ids, validateRevocations_eq_ok.2 ⟨hvalid, rfl, hids, ?_⟩⟩
  have hkeys : (ids.map Prod.fst).map some =
      update.revocations.map (fun r => parseEndpointId P r.endpointId) := by
    rw [← map_fst_revocationEntry, ← hids]
    simp
  exact List.Nodup.of_map some (hkeys ▸ hdistinct)

section Valid

variable {update : RevocationUpdate} {audience : String} {ids : RevocationIndex P}
  (h : validateRevocations P update audience = .ok ids)

include h

theorem mem_index {entry : EndpointId P × Nat × Int} :
    entry ∈ ids ↔ ∃ r ∈ update.revocations, revocationEntry P r = some entry := by
  have hids := (validateRevocations_eq_ok.1 h).2.2.1
  rw [← List.mem_map, ← hids]
  simp

/-- The parsed endpoints of a valid update are distinct. -/
theorem distinct_parsed :
    Keyed.Distinct (fun r => parseEndpointId P r.endpointId) update.revocations := by
  obtain ⟨_, _, hids, hdistinct⟩ := validateRevocations_eq_ok.1 h
  have hparsed : update.revocations.map (fun r => parseEndpointId P r.endpointId) =
      (ids.map Prod.fst).map some := by
    rw [← map_fst_revocationEntry, ← hids]
    simp
  unfold Keyed.Distinct
  rw [hparsed]
  exact hdistinct.map (Option.some_injective _)

end Valid

/-! ## Merging -/

variable {p : EndpointId P × Revocation}

theorem keyedRevocation_eq_some :
    keyedRevocation P r = some p ↔ parseEndpointId P p.2.endpointId = some p.1 ∧ p.2 = r := by
  obtain ⟨id, r'⟩ := p
  simp only [keyedRevocation, Option.map_eq_some_iff, Prod.mk.injEq]
  constructor
  · rintro ⟨_, hid, rfl, rfl⟩
    exact ⟨hid, rfl⟩
  · rintro ⟨hid, rfl⟩
    exact ⟨id, hid, rfl, rfl⟩

variable {revocations : List Revocation}

theorem mem_keyed :
    p ∈ revocations.filterMap (keyedRevocation P) ↔
      p.2 ∈ revocations ∧ parseEndpointId P p.2.endpointId = some p.1 := by
  rw [List.mem_filterMap]
  constructor
  · rintro ⟨r, hr, hp⟩
    obtain ⟨hid, rfl⟩ := keyedRevocation_eq_some.1 hp
    exact ⟨hr, hid⟩
  · rintro ⟨hr, hid⟩
    exact ⟨p.2, hr, keyedRevocation_eq_some.2 ⟨hid, rfl⟩⟩

/-- Revocations with distinct endpoints stay distinct when keyed by them. -/
theorem distinct_keyed (h : Keyed.Distinct (fun r => parseEndpointId P r.endpointId) revocations) :
    Keyed.Distinct Prod.fst (revocations.filterMap (keyedRevocation P)) := by
  induction revocations with
  | nil => exact List.nodup_nil
  | cons r rest ih =>
    obtain ⟨hhead, htail⟩ := Keyed.distinct_cons.1 h
    cases hr : keyedRevocation P r with
    | none =>
      rw [List.filterMap_cons_none hr]
      exact ih htail
    | some p =>
      rw [List.filterMap_cons_some hr, Keyed.distinct_cons]
      refine ⟨?_, ih htail⟩
      intro q hq hfst
      obtain ⟨hmem, hid⟩ := mem_keyed.1 hq
      obtain ⟨hid', rfl⟩ := keyedRevocation_eq_some.1 hr
      exact hhead q.2 hmem (hid.trans (hfst ▸ hid'.symm))

theorem mergeRevocation_eq_ok {merged merged' : Merged P} :
    mergeRevocation P merged r = .ok merged' ↔ ∃ id, parseEndpointId P r.endpointId = some id ∧
      (∀ existing, Keyed.lookup Prod.fst id merged = some existing →
        existing.2.revokedThroughGeneration ≤ r.revokedThroughGeneration) ∧
      merged' = Keyed.upsert Prod.fst (id, r) merged := by
  unfold mergeRevocation
  rw [bind_eq_ok]
  refine exists_congr (fun id => ?_)
  rw [okOr_eq_ok]
  refine and_congr_right (fun _ => ?_)
  cases Keyed.lookup Prod.fst id merged with
  | none => exact ⟨fun h => ⟨by simp, (pure_eq_ok.1 h).symm⟩, fun h => pure_eq_ok.2 h.2.symm⟩
  | some existing =>
    constructor
    · intro h
      obtain ⟨_, hle, h⟩ := of_bind h
      refine ⟨fun other hother => ?_, (pure_eq_ok.1 h).symm⟩
      exact Option.some.inj hother ▸ ensure_eq_ok.1 hle
    · rintro ⟨hle, rfl⟩
      exact bind_ok (ensure_of (hle existing rfl)) rfl

/-- Merging succeeds when every revocation names an endpoint and lowers no generation; the received
    revocations then replace the ones of the same endpoints. -/
theorem foldAll_mergeRevocation_eq_ok {merged merged' : Merged P}
    (h : Keyed.Distinct (fun r => parseEndpointId P r.endpointId) revocations) :
    foldAll (mergeRevocation P) merged revocations = .ok merged' ↔
      (∀ r ∈ revocations, ∃ id, parseEndpointId P r.endpointId = some id ∧
        ∀ existing, Keyed.lookup Prod.fst id merged = some existing →
          existing.2.revokedThroughGeneration ≤ r.revokedThroughGeneration) ∧
      merged' = (revocations.filterMap (keyedRevocation P)).foldl
        (fun l p => Keyed.upsert Prod.fst p l) merged := by
  induction revocations generalizing merged with
  | nil => simp [foldAll, eq_comm]
  | cons r rest ih =>
    obtain ⟨hhead, htail⟩ := Keyed.distinct_cons.1 h
    rw [foldAll, bind_eq_ok, List.forall_mem_cons]
    -- the entry just written is not the one of any later revocation
    have hkeep : ∀ {id}, parseEndpointId P r.endpointId = some id → ∀ r' ∈ rest, ∀ id',
        parseEndpointId P r'.endpointId = some id' →
        Keyed.lookup Prod.fst id' (Keyed.upsert Prod.fst (id, r) merged) =
          Keyed.lookup Prod.fst id' merged := by
      intro id hid r' hr' id' hid'
      rw [Keyed.lookup_upsert, if_neg]
      rintro rfl
      exact hhead r' hr' (hid'.trans hid.symm)
    have hpair : ∀ {id}, parseEndpointId P r.endpointId = some id →
        keyedRevocation P r = some (id, r) :=
      fun hid => keyedRevocation_eq_some.2 ⟨hid, rfl⟩
    constructor
    · rintro ⟨next, hnext, hrest⟩
      obtain ⟨id, hid, hforward, rfl⟩ := mergeRevocation_eq_ok.1 hnext
      obtain ⟨hall, rfl⟩ := (ih htail).1 hrest
      refine ⟨⟨⟨id, hid, hforward⟩, ?_⟩, ?_⟩
      · intro r' hr'
        obtain ⟨id', hid', hforward'⟩ := hall r' hr'
        exact ⟨id', hid', fun existing he =>
          hforward' existing ((hkeep hid r' hr' id' hid').trans he)⟩
      · rw [List.filterMap_cons_some (hpair hid), List.foldl_cons]
    · rintro ⟨⟨⟨id, hid, hforward⟩, hall⟩, rfl⟩
      refine ⟨_, mergeRevocation_eq_ok.2 ⟨id, hid, hforward, rfl⟩, (ih htail).2 ⟨?_, ?_⟩⟩
      · intro r' hr'
        obtain ⟨id', hid', hforward'⟩ := hall r' hr'
        exact ⟨id', hid', fun existing he =>
          hforward' existing ((hkeep hid r' hr' id' hid').symm.trans he)⟩
      · rw [List.filterMap_cons_some (hpair hid), List.foldl_cons]

theorem distinct_activeRevocations (now : Int) (revocations : List Revocation) :
    Keyed.Distinct Prod.fst (activeRevocations P now revocations) :=
  Keyed.distinct_collect _ _

theorem mem_activeRevocations {now : Int}
    (h : Keyed.Distinct (fun r => parseEndpointId P r.endpointId) revocations) :
    p ∈ activeRevocations P now revocations ↔
      p.2 ∈ revocations ∧ now < p.2.expiresAt ∧ parseEndpointId P p.2.endpointId = some p.1 := by
  rw [activeRevocations, Keyed.mem_collect (distinct_keyed (h.sublist List.filter_sublist)), mem_keyed,
    List.mem_filter, decide_eq_true_iff, and_assoc]

variable {merged : Merged P}

/-- What is in a merged table: the received revocations, and the unexpired old ones of the endpoints
    they do not mention. -/
theorem mem_merged {now : Int} {old received : List Revocation}
    (hold : Keyed.Distinct (fun r => parseEndpointId P r.endpointId) old)
    (hreceived : Keyed.Distinct (fun r => parseEndpointId P r.endpointId) received)
    (h : foldAll (mergeRevocation P) (activeRevocations P now old) received = .ok merged) :
    p ∈ merged ↔ parseEndpointId P p.2.endpointId = some p.1 ∧
      (p.2 ∈ received ∨ (p.2 ∈ old ∧ now < p.2.expiresAt ∧
        ∀ r ∈ received, parseEndpointId P r.endpointId ≠ some p.1)) := by
  obtain ⟨_, rfl⟩ := (foldAll_mergeRevocation_eq_ok hreceived).1 h
  rw [Keyed.mem_foldl_upsert (distinct_activeRevocations now old) (distinct_keyed hreceived), mem_keyed,
    mem_activeRevocations hold]
  have hfree : (∀ q ∈ received.filterMap (keyedRevocation P), q.1 ≠ p.1) ↔
      ∀ r ∈ received, parseEndpointId P r.endpointId ≠ some p.1 := by
    constructor
    · intro hq r hr hid
      exact hq (p.1, r) (mem_keyed.2 ⟨hr, hid⟩) rfl
    · intro hr q hq hfst
      obtain ⟨hmem, hid⟩ := mem_keyed.1 hq
      exact hr q.2 hmem (hfst ▸ hid)
  rw [hfree]
  tauto

theorem distinct_merged {now : Int} {old received : List Revocation}
    (hreceived : Keyed.Distinct (fun r => parseEndpointId P r.endpointId) received)
    (h : foldAll (mergeRevocation P) (activeRevocations P now old) received = .ok merged) :
    Keyed.Distinct Prod.fst merged := by
  obtain ⟨_, rfl⟩ := (foldAll_mergeRevocation_eq_ok hreceived).1 h
  exact (distinct_activeRevocations now old).foldl_upsert

/-! ## Accepted updates -/

variable {host host' : Host P} {memory : Memory P} {now : Int} {ioError : Option String}
  {update : RevocationUpdate}

/-- The update without the revocations that have expired. -/
def pruned (now : Int) (update : RevocationUpdate) : RevocationUpdate :=
  { update with revocations := update.revocations.filter (fun r => decide (now < r.expiresAt)) }

theorem reapply_eq_ok (h : reapply P host memory now ioError update = .ok host') :
    (∀ r ∈ update.revocations, r ∈ memory.current.revocations) ∧
      (host' = host ∨ ∃ active,
        validateRevocations P (pruned now memory.current) host.audience = .ok active ∧
        host' = { host with
          file := some (pruned now memory.current)
          process := some { memory with
            current := pruned now memory.current, revoked := active } }) := by
  obtain ⟨_, hknown, h⟩ := of_bind h
  refine ⟨ensure_eq_ok.1 hknown, ?_⟩
  split at h
  · obtain ⟨active, hactive, h⟩ := of_bind h
    obtain ⟨_, _, h⟩ := of_bind h
    exact .inr ⟨active, mapError_eq_ok.1 hactive, (pure_eq_ok.1 h).symm⟩
  · exact .inl (pure_eq_ok.1 h).symm

/-- The update that a Relay keeps after merging. -/
def accumulated (update : RevocationUpdate) (merged : Merged P) : RevocationUpdate :=
  { protocolVersion := RELAY_PROTOCOL_VERSION, audience := update.audience,
    version := update.version, issuedAt := update.issuedAt,
    revocations := (merged.map Prod.snd).insertionSort (fun a b => a.endpointId ≤ b.endpointId) }

theorem mem_accumulated :
    r ∈ (accumulated update merged).revocations ↔ ∃ id, (id, r) ∈ merged := by
  simp [accumulated, List.mem_insertionSort]

theorem accumulate_eq_ok {delta : RevocationIndex P} :
    accumulate P host memory now ioError update delta = .ok host' ↔
      (I64.saturatingSub now update.issuedAt).natAbs ≤ MAX_CLOCK_SKEW_SECS.natAbs ∧
      (∀ r ∈ update.revocations, memory.current.version < r.revision) ∧ ioError = none ∧
      ∃ merged next, foldAll (mergeRevocation P)
          (activeRevocations P now memory.current.revocations) update.revocations = .ok merged ∧
        validateRevocations P (accumulated update merged) host.audience = .ok next ∧
        host' = { host with
          file := some (accumulated update merged)
          process := some { memory with
            current := accumulated update merged
            revoked := next
            sessions := disconnectRevoked memory.revoked now delta memory.sessions } } := by
  constructor
  · intro h
    obtain ⟨_, hage, h⟩ := of_bind h
    obtain ⟨_, hoverlap, h⟩ := of_bind h
    obtain ⟨merged, hmerged, h⟩ := of_bind h
    obtain ⟨next, hnext, h⟩ := of_bind h
    obtain ⟨_, hio, h⟩ := of_bind h
    exact ⟨ensure_eq_ok.1 hage, ensure_eq_ok.1 hoverlap, ensure_eq_ok.1 hio, merged, next, hmerged,
      mapError_eq_ok.1 hnext, (pure_eq_ok.1 h).symm⟩
  · rintro ⟨hage, hoverlap, hio, merged, next, hmerged, hnext, rfl⟩
    exact bind_ok (ensure_of hage) (bind_ok (ensure_of hoverlap)
      (bind_ok hmerged (bind_ok (mapError_eq_ok.2 hnext)
        (bind_ok (ensure_of hio) rfl))))

/-- An accepted update is signed and valid. It repeats the applied version, or it is newer and
    merged. -/
theorem applyRevocationUpdate_eq_ok {signed : SignedRevocationUpdate} :
    applyRevocationUpdate P host memory now ioError signed = .ok host' ↔
      signed.verify P host.authorityId = .ok () ∧ ∃ delta,
        validateRevocations P signed.update host.audience = .ok delta ∧
        ((signed.update.version = memory.current.version ∧
            reapply P host memory now ioError signed.update = .ok host') ∨
          (memory.current.version < signed.update.version ∧
            accumulate P host memory now ioError signed.update delta = .ok host')) := by
  unfold applyRevocationUpdate
  constructor
  · intro h
    obtain ⟨_, hverify, h⟩ := of_bind h
    obtain ⟨delta, hdelta, h⟩ := of_bind h
    refine ⟨mapError_eq_ok.1 hverify, delta, mapError_eq_ok.1 hdelta, ?_⟩
    split at h
    · cases h
    · next hnot =>
      split at h
      · next heq => exact .inl ⟨heq, h⟩
      · next hne => exact .inr ⟨by omega, h⟩
  · rintro ⟨hverify, delta, hdelta, hcases⟩
    refine bind_ok (mapError_eq_ok.2 hverify)
      (bind_ok (mapError_eq_ok.2 hdelta) ?_)
    rcases hcases with ⟨heq, h⟩ | ⟨hlt, h⟩
    · rw [if_neg (by omega), if_pos heq]
      exact h
    · rw [if_neg (by omega), if_neg (by omega)]
      exact h

end AgentScale.Relay
