import AgentScale.Control.Execution
import AgentScale.Control.Registrations

set_option autoImplicit false

/-! # The representation invariant

What holds of every state a Control shows, in memory or on disk. The uniqueness, ownership and
validity conditions are the schema's (`Represents.wellFormed`); that generations and tombstone
revisions never run ahead of the revisions is an invariant of the ledger (`Accounted`). Together they
make `signed_map` and the signing of revocation updates succeed. -/

namespace AgentScale.Control

open Checked ControlApi RelayApi

variable (P : Platform)

/-- A text that is what `Display` prints of a key. -/
def Canonical (id : String) : Prop := P.parseKey id = some id

/-- Generations and tombstone revisions are accounted for by the revisions, no two registrations share
    a generation, and identities are in canonical form. -/
structure Accounted (s : ControlState) : Prop where
  generation_le : ∀ r ∈ s.registrations, r.generation ≤ s.revision
  generation_inj : ∀ r ∈ s.registrations, ∀ r' ∈ s.registrations,
    r.generation = r'.generation → r = r'
  canonical : ∀ r ∈ s.registrations, Canonical P r.endpointId
  tombstone_le : ∀ t ∈ s.revocations, t.revokedThroughGeneration ≤ s.revision ∧
    t.revision ≤ s.relayRevision
  canonicalTombstones : ∀ t ∈ s.revocations, Canonical P t.endpointId

variable {P} {key : SecretKey} {amb : Ambient} {s s' : ControlState} {delta : StateDelta}
  {asked : Demand} {allowed : Ambient → ControlState → Operation P → Prop}

theorem ControlState.Same.mem_registrations (h : s.Same s') (r : Registration) :
    r ∈ s.registrations ↔ r ∈ s'.registrations := by
  simp only [Control.mem_registrations, h.clients.mem_iff, h.edges.mem_iff]

namespace Accounted

theorem congr (h : Accounted P s) (hs : s'.Same s) : Accounted P s' where
  generation_le := fun r hr => hs.revision ▸ h.generation_le r ((hs.mem_registrations r).1 hr)
  generation_inj := fun r hr r' hr' =>
    h.generation_inj r ((hs.mem_registrations r).1 hr) r' ((hs.mem_registrations r').1 hr')
  canonical := fun r hr => h.canonical r ((hs.mem_registrations r).1 hr)
  tombstone_le := fun t ht =>
    hs.revision ▸ hs.relayRevision ▸ h.tombstone_le t (hs.revocations.mem_iff.1 ht)
  canonicalTombstones := fun t ht => h.canonicalTombstones t (hs.revocations.mem_iff.1 ht)

/-- A tombstone after a commit that changes none but keeps the revisions growing. -/
theorem tombstone_mono (h : Accounted P s) (hrev : s.revision ≤ s'.revision)
    (hrelay : s.relayRevision ≤ s'.relayRevision) {t : RevocationRecord} (ht : t ∈ s.revocations) :
    t.revokedThroughGeneration ≤ s'.revision ∧ t.revision ≤ s'.relayRevision :=
  ⟨(h.tombstone_le t ht).1.trans hrev, (h.tombstone_le t ht).2.trans hrelay⟩

/-- **One step.** Every effect keeps the accounts. -/
theorem step {now : Int} (h : Accounted P s) (hk : s.Keyed) (he : Effect P asked.removes now s s') :
    Accounted P s' := by
  cases he with
  | enrol r canonical generation revision relayRevision registrations revocations =>
    refine ⟨?_, ?_, ?_, ?_, ?_⟩
    · intro x hx
      rcases (registrations x).1 hx with rfl | hx
      · omega
      · have := h.generation_le x hx
        omega
    · -- the new generation is above every old one
      intro x hx y hy hxy
      rcases (registrations x).1 hx with rfl | hx <;> rcases (registrations y).1 hy with rfl | hy
      · rfl
      · have := h.generation_le y hy
        omega
      · have := h.generation_le x hx
        omega
      · exact h.generation_inj x hx y hy hxy
    · intro x hx
      rcases (registrations x).1 hx with rfl | hx
      · exact canonical
      · exact h.canonical x hx
    · intro t ht
      exact h.tombstone_mono (by omega) (by omega) (revocations ▸ ht)
    · exact fun t ht => h.canonicalTombstones t (revocations ▸ ht)
  | remove r mem revision relayRevision registrations revocations =>
    have hnew : ∀ t ∈ s'.revocations, t = revocationRecord s r.endpointId r.generation r.expiresAt ∨
        t ∈ s.revocations := by
      intro t ht
      rw [revocations] at ht
      exact ((Keyed.mem_upsert hk.revocations).1 ht).imp_right And.left
    have hgen := h.generation_le r mem
    refine ⟨?_, ?_, ?_, ?_, ?_⟩
    · intro x hx
      have := h.generation_le x ((registrations x).1 hx).1
      omega
    · exact fun x hx y hy =>
        h.generation_inj x ((registrations x).1 hx).1 y ((registrations y).1 hy).1
    · exact fun x hx => h.canonical x ((registrations x).1 hx).1
    · intro t ht
      rcases hnew t ht with rfl | ht
      · have hrevision := revocationRecord_revision s r.endpointId r.generation r.expiresAt
        have hsat : U64.saturatingAdd s.relayRevision 1 ≤ s.relayRevision + 1 := min_le_left _ _
        refine ⟨?_, by omega⟩
        rcases revocationRecord_generation s r.endpointId r.generation r.expiresAt with
          heq | ⟨old, hold, _, heq⟩
        · omega
        · have := (h.tombstone_le old hold).1
          omega
      · exact h.tombstone_mono (by omega) (by omega) ht
    · intro t ht
      rcases hnew t ht with rfl | ht
      · rw [revocationRecord_endpointId]
        exact h.canonical r mem
      · exact h.canonicalTombstones t ht
  | extend r r' mem kind endpointId generation expiresAt revision relayRevision registrations
      revocations =>
      refine ⟨?_, ?_, ?_, ?_, ?_⟩
      · intro x hx
        rcases (registrations x).1 hx with rfl | ⟨hx, _⟩
        · have := h.generation_le r mem
          omega
        · have := h.generation_le x hx
          omega
      · intro x hx y hy hxy
        rcases (registrations x).1 hx with rfl | ⟨hx, hxr⟩ <;>
          rcases (registrations y).1 hy with rfl | ⟨hy, hyr⟩
        · rfl
        · exact absurd (h.generation_inj y hy r mem (hxy.symm.trans generation)) hyr
        · exact absurd (h.generation_inj x hx r mem (hxy.trans generation)) hxr
        · exact h.generation_inj x hx y hy hxy
      · intro x hx
        rcases (registrations x).1 hx with rfl | ⟨hx, _⟩
        · exact endpointId ▸ h.canonical r mem
        · exact h.canonical x hx
      · intro t ht
        exact h.tombstone_mono (by omega) (by omega) (revocations ▸ ht)
      · exact fun t ht => h.canonicalTombstones t (revocations ▸ ht)
  | collect revision relayRevision registrations revocations =>
    have hold : ∀ t ∈ s'.revocations, t ∈ s.revocations := by
      intro t ht
      rw [revocations] at ht
      exact (List.mem_filter.1 ht).1
    exact ⟨fun x hx => revision ▸ h.generation_le x ((registrations x).1 hx),
      fun x hx y hy => h.generation_inj x ((registrations x).1 hx) y ((registrations y).1 hy),
      fun x hx => h.canonical x ((registrations x).1 hx),
      fun t ht => h.tombstone_mono (by omega) (by omega) (hold t ht),
      fun t ht => h.canonicalTombstones t (hold t ht)⟩
  | keep revision relayRevision registrations revocations =>
    exact ⟨fun x hx => (h.generation_le x ((registrations x).1 hx)).trans revision,
      fun x hx y hy => h.generation_inj x ((registrations x).1 hx) y ((registrations y).1 hy),
      fun x hx => h.canonical x ((registrations x).1 hx),
      fun t ht => h.tombstone_mono revision relayRevision (revocations ▸ ht),
      fun t ht => h.canonicalTombstones t (revocations ▸ ht)⟩

end Accounted

theorem accounted_initialState (audience publicUrl : String) (relayCaDer : List UInt8) :
    Accounted P (initialState audience publicUrl relayCaDer) := by
  refine ⟨?_, ?_, ?_, ?_, ?_⟩ <;>
    simp [ControlState.registrations, initialState]

variable {l : Ledger}

/-- **Every run.** The accounts are in order in every reachable ledger. -/
theorem Ledger.accounted_of_reachable (h : (ledgerWhere P key allowed).Reachable l) :
    Accounted P l.state := by
  refine h.invariant (P := fun l => Accounted P l.state) ?_ ?_
  · rintro l ⟨⟨audience, publicUrl, relayCaDer, hstate⟩, _⟩
    rw [hstate]
    exact accounted_initialState audience publicUrl relayCaDer
  · intro l l' hr hacc hstep
    cases hstep with
    | tick | draw | issue => exact hacc
    | reorder s same wellFormed => exact hacc.congr same
    | commit amb delta tokens enrolled received clock draws decision =>
      exact hacc.step (wellFormed_of_reachable hr).keyed
        (decision.mutation_any.effect (wellFormed_of_reachable hr).keyed)

/-! ## Relay identities and claimed invitations -/

/-- A Relay record after a commit is an old one, possibly with another port, or a newly enrolled
    one. -/
theorem Mutation.mem_relays (h : Mutation P asked amb s delta) (hk : s.Keyed) {relay : RelayRecord}
    (hmem : relay ∈ (delta.commit s).relays) :
    (∃ old ∈ s.relays, old.endpointId = relay.endpointId) ∨ Canonical P relay.endpointId := by
  cases h with
  | claim invite endpointId port change mem pending node =>
    rcases claimedNodeChange_eq_ok P node with ⟨_, _, rfl⟩ | ⟨_, _, _, rfl⟩ | ⟨_, _, _, rfl⟩
    · exact .inl ⟨relay, hmem, rfl⟩
    · exact .inl ⟨relay, hmem, rfl⟩
    · rcases (Keyed.mem_upsert hk.relays).1 hmem with rfl | ⟨hold, _⟩
      · exact .inr endpointId.display
      · exact .inl ⟨relay, hold, rfl⟩
  | newInvite | revokeInvite | removeClient | removeEdge | transferEdge | addProvisioner
  | removeProvisioner | renewClient | renewEdge => exact .inl ⟨relay, hmem, rfl⟩
  | removeRelay => exact .inl ⟨relay, (Keyed.mem_discard.1 hmem).1, rfl⟩
  | qadPort old port mem =>
    rcases (Keyed.mem_upsert hk.relays).1 hmem with rfl | ⟨hold, _⟩
    · exact .inl ⟨old, mem, rfl⟩
    · exact .inl ⟨relay, hold, rfl⟩
  | cleanup =>
    rw [cleanup_commit hk] at hmem
    exact .inl ⟨relay, hmem, rfl⟩
  | bootstrap record id =>
    rw [bootstrap_commit_invites] at hmem
    exact .inl ⟨relay, hmem, rfl⟩

/-- Relay identities are canonical, and a claimed invitation names who claimed it. -/
structure NodesAccounted (P : Platform) (s : ControlState) : Prop where
  relays : ∀ relay ∈ s.relays, Canonical P relay.endpointId
  claimed : ∀ invite ∈ s.invites, invite.state = .claimed → invite.claimedBy.isSome = true

theorem NodesAccounted.step (h : NodesAccounted P s) (hk : s.Keyed)
    (hm : Mutation P asked amb s delta) : NodesAccounted P (delta.commit s) where
  relays := by
    intro relay hrelay
    rcases hm.mem_relays hk hrelay with ⟨old, hold, hid⟩ | hcanonical
    · exact hid ▸ h.relays old hold
    · exact hcanonical
  claimed := by
    intro invite hinvite hclaimed
    rcases hm.mem_invites P hk hinvite with ⟨old, hold, hevolves⟩ | ⟨_, hpending, _⟩
    · cases hevolves with
      | same => exact h.claimed invite hold hclaimed
      | claim => rfl
      | revoke => exact absurd hclaimed (by simp [InviteRecord.revoke])
    · cases hclaimed.symm.trans hpending

theorem Ledger.nodesAccounted_of_reachable (h : (ledgerWhere P key allowed).Reachable l) :
    NodesAccounted P l.state := by
  refine h.invariant (P := fun l => NodesAccounted P l.state) ?_ ?_
  · rintro l ⟨⟨audience, publicUrl, relayCaDer, hstate⟩, _⟩
    rw [hstate]
    constructor <;> simp [initialState]
  · intro l l' hr hacc hstep
    cases hstep with
    | tick | draw | issue => exact hacc
    | reorder s same wellFormed =>
      exact ⟨fun relay hrelay => hacc.relays relay (same.relays.mem_iff.1 hrelay),
        fun invite hinvite => hacc.claimed invite (same.invites.mem_iff.1 hinvite)⟩
    | commit amb delta tokens enrolled received clock draws decision =>
      exact hacc.step (wellFormed_of_reachable hr).keyed decision.mutation_any

/-! ## Credential periods -/

/-- No credential was issued in the future, and none expires after the last `i64` second. -/
structure Timely (now : Int) (s : ControlState) : Prop where
  clients : ∀ client ∈ s.clients,
    client.credentialIssuedAt ≤ now ∧ client.credentialExpiresAt ≤ I64.maxValue
  edges : ∀ edge ∈ s.edges,
    edge.credentialIssuedAt ≤ now ∧ edge.credentialExpiresAt ≤ I64.maxValue

theorem Issued.timely {now issuedAt expiresAt : Int} (h : Issued now issuedAt expiresAt) :
    issuedAt ≤ now ∧ expiresAt ≤ I64.maxValue := by
  obtain ⟨rfl, rfl⟩ := h
  exact ⟨le_rfl, max_le (by decide) (min_le_right _ _)⟩

theorem Timely.later {now now' : Int} (h : Timely now s) (hle : now ≤ now') : Timely now' s where
  clients := fun client hclient => ⟨(h.clients client hclient).1.trans hle, (h.clients client hclient).2⟩
  edges := fun edge hedge => ⟨(h.edges edge hedge).1.trans hle, (h.edges edge hedge).2⟩

theorem Timely.congr {now : Int} (h : Timely now s) (hs : s'.Same s) : Timely now s' where
  clients := fun client hclient => h.clients client (hs.clients.mem_iff.1 hclient)
  edges := fun edge hedge => h.edges edge (hs.edges.mem_iff.1 hedge)

theorem Timely.step {now : Int} (h : Timely now s) (hk : s.Keyed) (hreceived : amb.received ≤ now)
    (hm : Mutation P asked amb s delta) : Timely now (delta.commit s) where
  clients := by
    intro client hclient
    rcases hm.mem_clients hk hclient with hold | ⟨hnew, _⟩
    · exact h.clients client hold
    · exact ⟨hnew.timely.1.trans hreceived, hnew.timely.2⟩
  edges := by
    intro edge hedge
    rcases hm.mem_edges hk hedge with ⟨old, hold, hsame⟩ | ⟨hnew, _⟩
    · rw [hsame]
      exact h.edges old hold
    · exact ⟨hnew.timely.1.trans hreceived, hnew.timely.2⟩

theorem Ledger.timely_of_reachable (h : (ledgerWhere P key allowed).Reachable l) :
    Timely l.clock l.state := by
  refine h.invariant (P := fun l => Timely l.clock l.state) ?_ ?_
  · rintro l ⟨⟨audience, publicUrl, relayCaDer, hstate⟩, _⟩
    rw [hstate]
    constructor <;> simp [initialState]
  · intro l l' hr htimely hstep
    cases hstep with
    | tick now later => exact htimely.later later
    | draw | issue => exact htimely
    | reorder s same wellFormed => exact htimely.congr same
    | commit amb delta tokens enrolled received clock draws decision =>
      exact htimely.step (wellFormed_of_reachable hr).keyed received decision.mutation_any

/-! ## Signing succeeds -/

theorem parseEndpointId_of_canonical {id : String} (h : Canonical P id) :
    parseEndpointId P id = some ⟨id, h⟩ :=
  parseEndpointId_text P ⟨id, h⟩

theorem signRelayCredential_succeeds (key : SecretKey) (recipient : EndpointId P)
    (kind : RelaySubjectKind) {generation : Nat} {issuedAt expiresAt : Int}
    (haudience : s.audience ≠ "") (hgen : 0 < generation) (htimes : issuedAt < expiresAt) :
    ∃ token, signRelayCredential P s key recipient kind generation issuedAt expiresAt = .ok token := by
  have hvalid : (relayCredential P s key recipient kind generation issuedAt expiresAt).validate P =
      .ok () := by
    refine bind_ok (ensure_of rfl) (bind_ok (ensure_of haudience)
      (bind_ok (ensure_of hgen) (bind_ok (ensure_of htimes) ?_)))
    refine bind_ok (okOr_eq_ok.2 (parseEndpointId_text P recipient)) ?_
    exact bind_ok (okOr_eq_ok.2 (parseEndpointId_text P (key.public P))) rfl
  exact ⟨_, bind_ok (bind_ok hvalid rfl) rfl⟩

/-- An endpoint that is registered in some role. -/
def Registered (s : ControlState) (id : String) : Prop :=
  (∃ client ∈ s.clients, client.endpointId = id) ∨ (∃ edge ∈ s.edges, edge.endpointId = id) ∨
    ∃ relay ∈ s.relays, relay.endpointId = id

theorem roleOf_of_registered {id : String} (h : Registered s id) : ∃ role, roleOf s id = some role := by
  unfold roleOf
  split
  · exact ⟨_, rfl⟩
  · next hedge =>
    split
    · exact ⟨_, rfl⟩
    · next hclient =>
      rcases h with ⟨client, hmem, hid⟩ | ⟨edge, hmem, hid⟩ | ⟨relay, hmem, hid⟩
      · exact absurd hid (Keyed.lookup_eq_none.1 hclient client hmem)
      · exact absurd hid (Keyed.lookup_eq_none.1 hedge edge hmem)
      · refine ⟨.relay, if_pos (List.any_eq_true.2 ⟨relay, hmem, ?_⟩)⟩
        exact decide_eq_true hid

theorem signedMap_succeeds (hwf : s.WellFormed) (key : SecretKey) (now : Int)
    {recipient : EndpointId P} (h : Registered s recipient.text) :
    ∃ signed, signedMap P s key now recipient = .ok signed := by
  obtain ⟨role, hrole⟩ := roleOf_of_registered h
  have hcredential : ∃ token, role.signCredential P s key recipient = .ok token := by
    cases role with
    | edge edge =>
      obtain ⟨hgen, htimes⟩ := hwf.edgeCredentials edge (roleOf_edge hrole).1
      obtain ⟨token, htoken⟩ :=
        signRelayCredential_succeeds key recipient .edge hwf.audience hgen htimes
      exact ⟨some token, bind_ok htoken rfl⟩
    | client client =>
      obtain ⟨hgen, htimes⟩ := hwf.clientCredentials client (roleOf_client hrole).1
      obtain ⟨token, htoken⟩ :=
        signRelayCredential_succeeds key recipient .client hwf.audience hgen htimes
      exact ⟨some token, bind_ok htoken rfl⟩
    | relay => exact ⟨none, rfl⟩
  obtain ⟨token, htoken⟩ := hcredential
  exact ⟨_, bind_ok (okOr_eq_ok.2 hrole) (bind_ok htoken rfl)⟩

/-- The update for any known revision passes its own validation. -/
theorem revocationUpdate_validate (hwf : s.WellFormed) (hacc : Accounted P s) (now : Int)
    (known : Nat) : (revocationUpdate s now known).validate P = .ok () := by
  have hmem : ∀ r ∈ (revocationUpdate s now known).revocations,
      ∃ t ∈ s.revocations, t.revocation = r := by
    intro r hr
    obtain ⟨t, ht, rfl⟩ := List.mem_map.1 hr
    exact ⟨t, (List.mem_filter.1 ht).1, rfl⟩
  obtain ⟨checks, hchecks⟩ : ∃ checks,
      (revocationUpdate s now known).revocations.mapM (checkRevocation s.relayRevision) =
        .ok checks := by
    refine mapM_eq_ok.2 (fun r hr => ?_)
    obtain ⟨t, ht, rfl⟩ := hmem r hr
    exact ⟨(), bind_ok (ensure_of (hwf.tombstones t ht).1)
      (ensure_of ⟨(hwf.tombstones t ht).2, (hacc.tombstone_le t ht).2⟩)⟩
  obtain ⟨entries, hentries⟩ : ∃ entries,
      (revocationUpdate s now known).entries P = .ok entries := by
    refine mapM_eq_ok.2 (fun r hr => ?_)
    obtain ⟨t, ht, rfl⟩ := hmem r hr
    exact ⟨_, bind_ok (okOr_eq_ok.2
      (parseEndpointId_of_canonical (hacc.canonicalTombstones t ht))) rfl⟩
  exact bind_ok (ensure_of rfl) (bind_ok (ensure_of hwf.audience)
    (bind_ok hchecks (bind_ok hentries rfl)))

/-! ## The invariant -/

/-- A state a Control shows: the one in memory, or the one it would load. -/
def World.Shows (w : World) (s : ControlState) : Prop :=
  w.process = some s ∨ w.database.load = .ok s

/-- What a world shows is, up to order, the state of its ledger. -/
theorem World.Shows.represents {w : World} (h : w.Shows s) (href : Refines w l) :
    s.Same l.state ∧ Represents w.database.tables s := by
  rcases h with hprocess | hload
  · obtain rfl := href.process s hprocess
    exact ⟨.refl _, href.represents⟩
  · have hrep := (w.database.load_represents hload href.represents.keys).1
    exact ⟨hrep.same href.represents, hrep⟩

/-- What a reachable world shows is, up to order, the state of a reachable ledger. -/
theorem World.Shows.ledgerWhere {w : World} (h : w.Shows s)
    (hr : (controlWhere P key allowed).Reachable w) :
    ∃ l, (Control.ledgerWhere P key allowed).Reachable l ∧ Refines w l ∧ s.Same l.state ∧
      Represents w.database.tables s := by
  obtain ⟨l, hl, href⟩ := (controlWhere_simulates_ledgerWhere P key allowed).reachable hr
  exact ⟨l, hl, href, h.represents href⟩

theorem World.Shows.ledger {w : World} (h : w.Shows s) (hr : (control P key).Reachable w) :
    ∃ l, (Control.ledger P key).Reachable l ∧ Refines w l ∧ s.Same l.state ∧
      Represents w.database.tables s :=
  h.ledgerWhere hr

structure RepresentationInvariant (s : ControlState) : Prop where
  clientIds : Keyed.Distinct ClientRecord.endpointId s.clients
  edgeIds : Keyed.Distinct EdgeRecord.endpointId s.edges
  relayIds : Keyed.Distinct RelayRecord.endpointId s.relays
  provisionerIds : Keyed.Distinct ProvisionerRecord.endpointId s.provisioners
  revocationIds : Keyed.Distinct RevocationRecord.endpointId s.revocations
  inviteIds : Keyed.Distinct InviteRecord.id s.invites
  clientNames : Keyed.Distinct ClientRecord.name s.clients
  provisionerNames : Keyed.Distinct ProvisionerRecord.name s.provisioners
  relayNames : Keyed.Distinct RelayRecord.name s.relays
  relayUrls : Keyed.Distinct RelayRecord.url s.relays
  edgeNames : Keyed.Distinct (fun edge : EdgeRecord => (edge.ownerId, edge.name)) s.edges
  owners : ∀ edge ∈ s.edges, ∃ client ∈ s.clients, client.endpointId = edge.ownerId
  clientCredentials : ∀ client ∈ s.clients, 1 ≤ client.credentialGeneration ∧
    client.credentialGeneration ≤ s.revision ∧
    client.credentialIssuedAt < client.credentialExpiresAt
  edgeCredentials : ∀ edge ∈ s.edges, 1 ≤ edge.credentialGeneration ∧
    edge.credentialGeneration ≤ s.revision ∧ edge.credentialIssuedAt < edge.credentialExpiresAt
  tombstones : ∀ t ∈ s.revocations, 1 ≤ t.revokedThroughGeneration ∧
    t.revokedThroughGeneration ≤ s.revision ∧ 1 ≤ t.revision ∧ t.revision ≤ s.relayRevision
  pending : ∀ invite ∈ s.invites, invite.state = .pending ↔ invite.terminalAt = none
  claimed : ∀ invite ∈ s.invites, invite.state = .claimed → invite.claimedBy.isSome = true

theorem representationInvariant (hwf : s.WellFormed) (hacc : Accounted P s)
    (hnodes : NodesAccounted P s) : RepresentationInvariant s where
  clientIds := hwf.keyed.clients
  edgeIds := hwf.keyed.edges
  relayIds := hwf.keyed.relays
  provisionerIds := hwf.keyed.provisioners
  revocationIds := hwf.keyed.revocations
  inviteIds := hwf.keyed.invites
  clientNames := hwf.clientNames
  provisionerNames := hwf.provisionerNames
  relayNames := hwf.relayNames
  relayUrls := hwf.relayUrls
  edgeNames := hwf.edgeNames
  owners := hwf.owners
  clientCredentials := fun client hclient =>
    ⟨(hwf.clientCredentials client hclient).1,
      hacc.generation_le _ (mem_registrations.2 (.inl ⟨client, hclient, rfl⟩)),
      (hwf.clientCredentials client hclient).2⟩
  edgeCredentials := fun edge hedge =>
    ⟨(hwf.edgeCredentials edge hedge).1,
      hacc.generation_le _ (mem_registrations.2 (.inr ⟨edge, hedge, rfl⟩)),
      (hwf.edgeCredentials edge hedge).2⟩
  tombstones := fun t ht =>
    ⟨(hwf.tombstones t ht).1, (hacc.tombstone_le t ht).1, (hwf.tombstones t ht).2,
      (hacc.tombstone_le t ht).2⟩
  pending := hwf.terminal
  claimed := hnodes.claimed

theorem canonical_of_registered (hacc : Accounted P s) (hnodes : NodesAccounted P s) {id : String}
    (h : Registered s id) : Canonical P id := by
  rcases h with ⟨client, hmem, rfl⟩ | ⟨edge, hmem, rfl⟩ | ⟨relay, hmem, rfl⟩
  · exact hacc.canonical _ (mem_registrations.2 (.inl ⟨client, hmem, rfl⟩))
  · exact hacc.canonical _ (mem_registrations.2 (.inr ⟨edge, hmem, rfl⟩))
  · exact hnodes.relays relay hmem

/-- **The representation invariant.** Every state that a run from a fresh Control shows satisfies the
    invariant; a map can be signed for every registered endpoint, and an update for every known
    revision. -/
theorem state_invariant {w : World} (hr : (control P key).Reachable w) (hs : w.Shows s) :
    RepresentationInvariant s ∧
      (∀ id, Registered s id → ∃ recipient : EndpointId P, recipient.text = id ∧
        ∀ now, ∃ signed, signedMap P s key now recipient = .ok signed) ∧
      ∀ now known, ∃ signed,
        SignedRevocationUpdate.sign P (revocationUpdate s now known) key = .ok signed := by
  obtain ⟨l, hl, _, hsame, hrep⟩ := hs.ledger hr
  have hwf := hrep.wellFormed
  have hacc : Accounted P s := (Ledger.accounted_of_reachable hl).congr hsame
  have hledger := Ledger.nodesAccounted_of_reachable hl
  have hnodes : NodesAccounted P s :=
    ⟨fun relay hrelay => hledger.relays relay (hsame.relays.mem_iff.1 hrelay),
      fun invite hinvite => hledger.claimed invite (hsame.invites.mem_iff.1 hinvite)⟩
  refine ⟨representationInvariant hwf hacc hnodes, ?_, ?_⟩
  · intro id hid
    exact ⟨⟨id, canonical_of_registered hacc hnodes hid⟩, rfl,
      fun now => signedMap_succeeds hwf key now hid⟩
  · intro now known
    exact ⟨_, bind_ok (revocationUpdate_validate hwf hacc now known) rfl⟩

open Reference in
/-- The invariant of a state with a client, its edge and a tombstone. -/
theorem state_invariant_of_reenrolled_edge : ∃ w s,
    (control (platform []) controlKey).Reachable w ∧ w.Shows s ∧
      (s.clients.length = 1 ∧ s.edges.length = 1 ∧ s.revocations.length = 1) ∧
      RepresentationInvariant s ∧
      (∀ id, Registered s id → ∃ recipient : EndpointId (platform []), recipient.text = id ∧
        ∀ now, ∃ signed, signedMap (platform []) s controlKey now recipient = .ok signed) ∧
      ∀ now known, ∃ signed, SignedRevocationUpdate.sign (platform [])
        (revocationUpdate s now known) controlKey = .ok signed := by
  obtain ⟨w, hr, hcheck⟩ := World.exists_after controlKey (fun _ _ _ => True)
    (reenrolEdge (platform []) controlKey nodeKey otherKey)
    (fun w => w.process.any (fun s =>
      s.clients.length = 1 ∧ s.edges.length = 1 ∧ s.revocations.length = 1)) (by decide +kernel)
  obtain ⟨s, hs, hcheck⟩ := (Option.any_eq_true _ _).1 hcheck
  exact ⟨w, s, hr, .inl hs, of_decide_eq_true hcheck, state_invariant hr (.inl hs)⟩

end AgentScale.Control
