import AgentScale.Deployment.Tombstones

set_option autoImplicit false

/-! # Tombstones and the registrations that remain

A tombstone names an endpoint and a generation, not a registration. An endpoint that has enrolled both
as a Client and as an Edge has two registrations, and removing the newer one buries the older one with
it (`older_registration_is_buried`). As long as every removal takes the oldest registration of its
endpoint, no tombstone reaches a registration that remains, and a Relay that holds exactly Control's
revocations admits what Control issues (`registered_nodes_are_admitted`). -/

namespace AgentScale

open Checked ControlApi RelayApi Control

/-! ## Removing the oldest registration -/

def Control.Oldest (s : ControlState) (r : Registration) : Prop :=
  ∀ older ∈ s.registrations, older.endpointId = r.endpointId → r.generation ≤ older.generation

/-- The operation asks for the removal of no registration but the oldest of its endpoint. -/
def Control.RemovesOldest {P : Platform} (_ : Ambient) (s : ControlState) (op : Operation P) : Prop :=
  ∀ r ∈ op.asked s, Oldest s r

instance {P : Platform} (amb : Ambient) (s : ControlState) (op : Operation P) :
    Decidable (RemovesOldest amb s op) :=
  inferInstanceAs (Decidable (∀ r ∈ op.asked s, ∀ older ∈ s.registrations,
    older.endpointId = r.endpointId → r.generation ≤ older.generation))

/-- Every registration is newer than the tombstone of its endpoint. -/
def Control.Unburied (s : ControlState) : Prop :=
  ∀ r ∈ s.registrations, ∀ t ∈ s.revocations, t.endpointId = r.endpointId →
    t.revokedThroughGeneration < r.generation

variable {P : Platform} {key : SecretKey} {s s' : ControlState}

theorem Control.Unburied.congr (h : Unburied s) (hs : s'.Same s) : Unburied s' :=
  fun r hr t ht => h r ((hs.mem_registrations r).1 hr) t (hs.revocations.mem_iff.1 ht)

/-- **One step.** A new generation is above every tombstone, and the tombstone of a removed oldest
    registration is below the others of its endpoint. -/
theorem Control.Unburied.step {now : Int} (h : Unburied s) (hacc : Accounted P s) (hk : s.Keyed)
    (he : Effect P (Oldest s) now s s') : Unburied s' := by
  cases he with
  | enrol r canonical generation revision relayRevision registrations revocations =>
    intro x hx t ht hid
    rw [revocations] at ht
    rcases (registrations x).1 hx with rfl | hx
    · have := (hacc.tombstone_le t ht).1
      omega
    · exact h x hx t ht hid
  | remove r mem revision relayRevision registrations revocations oldest =>
    intro x hx t ht hid
    obtain ⟨hx, hne⟩ := (registrations x).1 hx
    rw [revocations] at ht
    rcases (Keyed.mem_upsert hk.revocations).1 ht with rfl | ⟨ht, _⟩
    · rw [revocationRecord_endpointId] at hid
      have hle := oldest x hx hid.symm
      have hgen : r.generation ≠ x.generation := fun heq =>
        hne (hacc.generation_inj x hx r mem heq.symm)
      rcases revocationRecord_generation s r.endpointId r.generation r.expiresAt with
        heq | ⟨old, hold, holdId, heq⟩
      · omega
      · have := h x hx old hold (holdId.trans hid)
        omega
    · exact h x hx t ht hid
  | extend r r' mem kind endpointId generation expiresAt revision relayRevision registrations
      revocations =>
      intro x hx t ht hid
      rw [revocations] at ht
      rcases (registrations x).1 hx with rfl | ⟨hx, _⟩
      · rw [generation]
        exact h r mem t ht (hid.trans endpointId)
      · exact h x hx t ht hid
  | collect revision relayRevision registrations revocations =>
    intro x hx t ht
    rw [revocations] at ht
    exact h x ((registrations x).1 hx) t (List.mem_filter.1 ht).1
  | keep revision relayRevision registrations revocations =>
    intro x hx t ht
    rw [revocations] at ht
    exact h x ((registrations x).1 hx) t ht

/-- **Every run.** When only oldest registrations are removed, none that remains is buried. -/
theorem Control.Ledger.unburied_of_reachable {l : Ledger}
    (h : (ledgerWhere P key RemovesOldest).Reachable l) : Unburied l.state := by
  refine h.invariant (P := fun l => Unburied l.state) ?_ ?_
  · rintro l ⟨⟨audience, publicUrl, relayCaDer, hstate⟩, _⟩
    rw [hstate]
    exact fun r hr => absurd hr (by simp [ControlState.registrations, initialState])
  · intro l l' hr hunburied hstep
    cases hstep with
    | tick | draw | issue => exact hunburied
    | reorder s same wellFormed => exact hunburied.congr same
    | commit amb delta tokens enrolled received clock draws decision =>
      have hk := (Ledger.wellFormed_of_reachable hr).keyed
      have hmutation : Mutation P ⟨Oldest l.state, fun _ => True, fun _ _ => True, True⟩ amb
          l.state delta :=
        decision.mutation (fun op allows =>
          ⟨allows, fun _ _ => trivial, fun _ _ => trivial, fun _ => trivial⟩) trivial
      exact hunburied.step (Ledger.accounted_of_reachable hr) hk (hmutation.effect hk)

/-! ## Admission -/

def HoldsExactly (s : ControlState) (revoked : Relay.RevocationIndex P) : Prop :=
  ∀ entry, entry ∈ revoked ↔ ∃ t ∈ s.revocations,
    parseEndpointId P t.endpointId = some entry.1 ∧
      entry.2 = (t.revokedThroughGeneration, t.expiresAt)

/-- A Relay that holds exactly the revocations of a state lets its registrations pass. -/
theorem HoldsExactly.revokedThrough_lt {revoked : Relay.RevocationIndex P}
    (h : HoldsExactly s revoked) (hacc : Accounted P s) (hunburied : Unburied s) {r : Registration}
    (hr : r ∈ s.registrations) (hpositive : 0 < r.generation) {endpointId : EndpointId P}
    (hid : r.endpointId = endpointId.text) (now : Int) :
    Relay.revokedThrough revoked endpointId now < r.generation := by
  unfold Relay.revokedThrough
  cases hlookup : Keyed.lookup Prod.fst endpointId revoked with
  | none => exact hpositive
  | some entry =>
    obtain ⟨hmem, hentry⟩ := Keyed.mem_of_lookup hlookup
    obtain ⟨t, ht, hparse, hvalue⟩ := (h entry).1 hmem
    rw [parseEndpointId_of_canonical (hacc.canonicalTombstones t ht)] at hparse
    have htext : t.endpointId = r.endpointId := by
      rw [hid, ← hentry]
      exact congrArg EndpointId.text (Option.some.inj hparse)
    have hlt := hunburied r hr t ht htext
    obtain ⟨id, generation, expiresAt⟩ := entry
    obtain ⟨rfl, rfl⟩ := Prod.mk.inj hvalue
    simp only
    split
    · exact hlt
    · exact hpositive

/-- What a signed map says about its credential. -/
theorem signedMap_credential {now : Int} {recipient : EndpointId P} {signed : SignedNodeMap}
    (h : signedMap P s key now recipient = .ok signed) {c : RelayCredential}
    (hc : issuedCredential P key s signed.map = some c) :
    signed.map.relayCredential = some (P.encodeRelayCredential
        ⟨c, P.sign key (canonicalBytes CREDENTIAL_DOMAIN c)⟩) ∧
      c.validate P = .ok () ∧ c.audience = s.audience ∧ c.controlId = (key.public P).text ∧
      c.endpointId = recipient.text := by
  obtain ⟨role, token, hrole, htoken, hmap⟩ := signedMap_eq_ok h
  have hcredential : role.credential P s key recipient = some c := by
    rw [hmap] at hc
    obtain ⟨recipient', hparse, hbind⟩ := Option.bind_eq_some_iff.1 hc
    obtain ⟨role', hrole', hrecord⟩ := Option.bind_eq_some_iff.1 hbind
    cases hparse.symm.trans (parseEndpointId_text P recipient)
    cases hrole'.symm.trans hrole
    exact hrecord
  refine ⟨?_, signCredential_validate htoken hcredential, ?_⟩
  · rw [hmap]
    exact (signCredential_eq_ok htoken).trans (by rw [hcredential]; rfl)
  · cases role with
    | relay => exact absurd hcredential (by simp [Role.credential])
    | edge record | client record =>
      cases hcredential
      exact ⟨rfl, rfl, rfl⟩

/-- A credential in a signed map was issued in the past and ends in the `i64` range. -/
theorem Control.Timely.issuedCredential {now : Int} (h : Timely now s) {map : NodeMap}
    {c : RelayCredential} (hc : issuedCredential P key s map = some c) :
    c.issuedAt ≤ now ∧ c.expiresAt ≤ I64.maxValue := by
  obtain ⟨recipient, _, hbind⟩ := Option.bind_eq_some_iff.1 hc
  obtain ⟨role, hrole, hcredential⟩ := Option.bind_eq_some_iff.1 hbind
  cases role with
  | relay => exact absurd hcredential (by simp [Role.credential])
  | edge record =>
    cases hcredential
    exact h.edges record (roleOf_edge hrole).1
  | client record =>
    cases hcredential
    exact h.clients record (roleOf_client hrole).1

/-- **Registered nodes are admitted.** In every run in which each removal takes the oldest registration
    of its endpoint, no unexpired tombstone covers a registration, and a Relay that holds exactly
    Control's revocations admits the unexpired credential of every map Control signs. -/
theorem registered_nodes_are_admitted {w : World}
    (hr : (controlWhere P key RemovesOldest).Reachable w) (hs : w.Shows s) :
    (∀ r ∈ s.registrations, ∀ t ∈ s.revocations, ∀ now : Int,
      ¬ (now < t.expiresAt ∧ t.endpointId = r.endpointId ∧
        r.generation ≤ t.revokedThroughGeneration)) ∧
    ∀ (host : Relay.Host P) (memory : Relay.Memory P) (now issuedAt : Int)
      (recipient : EndpointId P) (signed : SignedNodeMap) (credential : RelayCredential),
      w.clock ≤ now → host.authorityId = key.public P → host.audience = s.audience →
      memory.enrollmentRevoked = false → HoldsExactly s memory.revoked →
      signedMap P s key issuedAt recipient = .ok signed →
      issuedCredential P key s signed.map = some credential → now < credential.expiresAt →
      P.decodeRelayCredential (P.encodeRelayCredential
          ⟨credential, P.sign key (canonicalBytes CREDENTIAL_DOMAIN credential)⟩) =
        .ok ⟨credential, P.sign key (canonicalBytes CREDENTIAL_DOMAIN credential)⟩ →
      Relay.onConnect P host memory now recipient signed.map.relayCredential = .allow := by
  obtain ⟨l, hl, href, hsame, hrep⟩ := hs.ledgerWhere hr
  have hunburied := (Ledger.unburied_of_reachable hl).congr hsame
  have hacc := (Ledger.accounted_of_reachable hl).congr hsame
  have htimely : Timely w.clock s := href.clock ▸ (Ledger.timely_of_reachable hl).congr hsame
  refine ⟨?_, ?_⟩
  · intro r hmem t ht now hcovered
    have hlt := hunburied r hmem t ht hcovered.2.1
    omega
  · intro host memory now issuedAt recipient signed c hnow hauthority haudience hrevoked hholds
      hsigned hc hlive hdecode
    obtain ⟨htoken, hvalid, hcaudience, hcontrol, hsubject⟩ := signedMap_credential hsigned hc
    obtain ⟨hissued, hbound⟩ := htimely.issuedCredential hc
    obtain ⟨r, hmem, hgranted⟩ := issuedCredential_registered hc
    have hgeneration : r.generation = c.generation :=
      congrArg Tombstone.Credential.generation hgranted
    have hid : r.endpointId = recipient.text :=
      (congrArg Tombstone.Credential.key hgranted).trans hsubject
    have hpositive : 0 < r.generation := by
      obtain ⟨_, _, hvalid⟩ := of_bind hvalid
      obtain ⟨_, _, hvalid⟩ := of_bind hvalid
      obtain ⟨_, hpos, _⟩ := of_bind hvalid
      exact hgeneration ▸ ensure_eq_ok.1 hpos
    have hunrevoked := hholds.revokedThrough_lt hacc hunburied hmem hpositive hid now
    have hverify : SignedRelayCredential.verify P
        ⟨c, P.sign key (canonicalBytes CREDENTIAL_DOMAIN c)⟩ (key.public P) = .ok () :=
      bind_ok (ensure_of hcontrol) (ensure_of (P.verify_sign key _))
    have hskew : c.issuedAt ≤ I64.saturatingAdd now Relay.MAX_CLOCK_SKEW_SECS := by
      unfold I64.saturatingAdd I64.clamp Relay.MAX_CLOCK_SKEW_SECS
      have hlast : now + 300 ≤ I64.maxValue ∨ I64.maxValue < now + 300 := le_or_gt _ _
      omega
    rw [htoken, Relay.onConnect, hrevoked, hauthority, haudience, ← hcaudience]
    rw [Relay.validateCredential_succeeds hdecode hverify hvalid
      (hsubject ▸ parseEndpointId_text P recipient) hskew hlive (hgeneration ▸ hunrevoked)]
    rfl

section Example

open Reference

/-- An endpoint enrols as a Client and then as an Edge; removing the Edge buries the Client, whose
    credential is still valid. -/
theorem older_registration_is_buried :
    ∃ w s, (control (platform []) controlKey).Reachable w ∧ w.Shows s ∧
      ∃ r ∈ s.registrations, ∃ t ∈ s.revocations, w.clock < t.expiresAt ∧
        w.clock < r.expiresAt ∧ t.endpointId = r.endpointId ∧
          r.generation ≤ t.revokedThroughGeneration := by
  obtain ⟨w, hr, hcheck⟩ := World.exists_after (P := platform []) controlKey (fun _ _ _ => True)
    (enrolEdge (platform []) controlKey nodeKey nodeKey ++
      [.operate (fun _ => .localAdmin (.removeEdge "a/e")) "remove-e"])
    (fun w => w.process.any (fun (s : ControlState) => decide (∃ r ∈ s.registrations, ∃ t ∈ s.revocations,
      w.clock < t.expiresAt ∧ w.clock < r.expiresAt ∧ t.endpointId = r.endpointId ∧
        r.generation ≤ t.revokedThroughGeneration))) (by decide +kernel)
  obtain ⟨s, hs, hcheck⟩ := (Option.any_eq_true _ _).1 hcheck
  exact ⟨w, s, hr, .inl hs, of_decide_eq_true hcheck⟩

/-- The credential of the edge that has enrolled again. -/
def edgeCredential : SignedRelayCredential :=
  ⟨⟨RELAY_PROTOCOL_VERSION, "agents", publicKey controlKey, publicKey otherKey, .edge, 7, 0, 604800⟩,
    ⟨publicKey controlKey⟩⟩

def edgePlatform : Platform := platform [("edge-token", edgeCredential)]

/-- A Relay with the one revocation of that run. -/
def edgeMemory : Relay.Memory edgePlatform :=
  ⟨⟨RELAY_PROTOCOL_VERSION, "agents", 2, 0, [⟨publicKey otherKey, 4, 604800, 2⟩]⟩,
    [(otherKey.public _, 4, 604800)], [], false⟩

/-- An edge that has been removed and enrolled again is admitted. -/
theorem reenrolled_edge_is_admitted :
    ∃ w s signed, (controlWhere edgePlatform controlKey RemovesOldest).Reachable w ∧ w.Shows s ∧
      s.revocations ≠ [] ∧ signedMap edgePlatform s controlKey 0 (otherKey.public _) = .ok signed ∧
      Relay.onConnect edgePlatform ⟨"agents", controlKey.public _, none, false, some edgeMemory⟩
        edgeMemory 100 (otherKey.public _) signed.map.relayCredential = .allow := by
  obtain ⟨w, hr, hcheck⟩ := World.exists_after controlKey RemovesOldest
    (reenrolEdge edgePlatform controlKey nodeKey otherKey)
    (fun w => w.clock = 0 && w.process.any (fun s => s.audience = "agents" &&
      s.revocations = [⟨publicKey otherKey, 4, 604800, 2⟩] &&
      (signedMap edgePlatform s controlKey 0 (otherKey.public _)).toOption.any (fun signed =>
        issuedCredential edgePlatform controlKey s signed.map = some edgeCredential.credential)))
    (by decide +kernel)
  simp only [Bool.and_eq_true, decide_eq_true_eq] at hcheck
  obtain ⟨hclock, hcheck⟩ := hcheck
  obtain ⟨s, hs, hcheck⟩ := (Option.any_eq_true _ _).1 hcheck
  simp only [Bool.and_eq_true, decide_eq_true_eq] at hcheck
  obtain ⟨⟨haudience, hrevocations⟩, hsigned⟩ := hcheck
  obtain ⟨signed, hsigned, hc⟩ := (Option.any_eq_true _ _).1 hsigned
  have hsigned := toOption_eq_some.1 hsigned
  have hholds : HoldsExactly s edgeMemory.revoked := by
    intro entry
    rw [hrevocations]
    constructor
    · intro h
      obtain rfl := List.mem_singleton.1 h
      exact ⟨_, List.mem_singleton.2 rfl, by decide +kernel, rfl⟩
    · rintro ⟨t, ht, hparse, hvalue⟩
      obtain rfl := List.mem_singleton.1 ht
      have hid : some entry.1 = some (otherKey.public edgePlatform) :=
        hparse.symm.trans (by decide +kernel)
      exact List.mem_singleton.2 (Prod.ext (Option.some.inj hid) hvalue)
  refine ⟨w, s, signed, hr, .inl hs, by simp [hrevocations], hsigned, ?_⟩
  exact (registered_nodes_are_admitted hr (.inl hs)).2 _ edgeMemory 100 0 _ signed _
    (by omega) rfl haudience.symm rfl hholds hsigned (of_decide_eq_true hc) (by decide)
    (by decide +kernel)

end Example

end AgentScale
