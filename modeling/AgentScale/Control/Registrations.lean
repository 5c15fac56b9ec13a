import AgentScale.Control.Refinement

set_option autoImplicit false

/-! # Registrations and tombstones

What a commit can do to the registrations and the tombstones, as far as Relays can tell: enrol one,
remove one with its tombstone, extend one, collect expired tombstones, or neither. The generation of
a registration is the revision of its claim, so no two registrations ever share one. -/

namespace AgentScale.Control

open Checked ControlApi RelayApi

variable (P : Platform)

theorem mem_registrations {s : ControlState} {r : Registration} :
    r ∈ s.registrations ↔
      (∃ c ∈ s.clients, c.registration = r) ∨ ∃ e ∈ s.edges, e.registration = r := by
  simp [ControlState.registrations]

/-- The effect of a commit on registrations and tombstones. -/
inductive Effect (asked : Registration → Prop) (now : Int) (s s' : ControlState) : Prop
  | enrol (r : Registration) (canonical : P.parseKey r.endpointId = some r.endpointId)
      (generation : r.generation = s.revision + 1) (revision : s'.revision = s.revision + 1)
      (relayRevision : s'.relayRevision = s.relayRevision)
      (registrations : ∀ x, x ∈ s'.registrations ↔ x = r ∨ x ∈ s.registrations)
      (revocations : s'.revocations = s.revocations)
  | remove (r : Registration) (mem : r ∈ s.registrations) (revision : s'.revision = s.revision + 1)
      (relayRevision : s'.relayRevision = s.relayRevision + 1)
      (registrations : ∀ x, x ∈ s'.registrations ↔ x ∈ s.registrations ∧ x ≠ r)
      (revocations : s'.revocations = Keyed.upsert RevocationRecord.endpointId
        (revocationRecord s r.endpointId r.generation r.expiresAt) s.revocations)
      (named : asked r)
  | extend (r r' : Registration) (mem : r ∈ s.registrations) (kind : r'.kind = r.kind)
      (endpointId : r'.endpointId = r.endpointId) (generation : r'.generation = r.generation)
      (expiresAt : r.expiresAt ≤ r'.expiresAt) (revision : s'.revision = s.revision)
      (relayRevision : s'.relayRevision = s.relayRevision)
      (registrations : ∀ x, x ∈ s'.registrations ↔ x = r' ∨ (x ∈ s.registrations ∧ x ≠ r))
      (revocations : s'.revocations = s.revocations)
  | collect (revision : s'.revision = s.revision) (relayRevision : s'.relayRevision = s.relayRevision)
      (registrations : ∀ x, x ∈ s'.registrations ↔ x ∈ s.registrations)
      (revocations : s'.revocations = s.revocations.filter (fun r => decide (now < r.expiresAt)))
  | keep (revision : s.revision ≤ s'.revision)
      (relayRevision : s.relayRevision ≤ s'.relayRevision)
      (registrations : ∀ x, x ∈ s'.registrations ↔ x ∈ s.registrations)
      (revocations : s'.revocations = s.revocations)

variable {P} {amb : Ambient} {s s' : ControlState} {delta : StateDelta}
  {asked : Demand}

/-! ## The effect of each list operation -/

/-- Putting a record under a key nobody has adds its registration. -/
theorem mem_registrations_enrolClient {c : ClientRecord} (hk : s.Keyed)
    (hnew : ∀ x ∈ s.clients, x.endpointId ≠ c.endpointId) (hedges : s'.edges = s.edges)
    (hclients : s'.clients = Keyed.upsert ClientRecord.endpointId c s.clients) (r : Registration) :
    r ∈ s'.registrations ↔ r = c.registration ∨ r ∈ s.registrations := by
  simp only [mem_registrations, hedges, hclients, Keyed.mem_upsert hk.clients]
  constructor
  · rintro (⟨x, rfl | ⟨hx, _⟩, rfl⟩ | he)
    · exact .inl rfl
    · exact .inr (.inl ⟨x, hx, rfl⟩)
    · exact .inr (.inr he)
  · rintro (rfl | ⟨x, hx, rfl⟩ | he)
    · exact .inl ⟨c, .inl rfl, rfl⟩
    · exact .inl ⟨x, .inr ⟨hx, hnew x hx⟩, rfl⟩
    · exact .inr he

theorem mem_registrations_enrolEdge {e : EdgeRecord} (hk : s.Keyed)
    (hnew : ∀ x ∈ s.edges, x.endpointId ≠ e.endpointId) (hclients : s'.clients = s.clients)
    (hedges : s'.edges = Keyed.upsert EdgeRecord.endpointId e s.edges) (r : Registration) :
    r ∈ s'.registrations ↔ r = e.registration ∨ r ∈ s.registrations := by
  simp only [mem_registrations, hedges, hclients, Keyed.mem_upsert hk.edges]
  constructor
  · rintro (hc | ⟨x, rfl | ⟨hx, _⟩, rfl⟩)
    · exact .inr (.inl hc)
    · exact .inl rfl
    · exact .inr (.inr ⟨x, hx, rfl⟩)
  · rintro (rfl | hc | ⟨x, hx, rfl⟩)
    · exact .inr ⟨e, .inl rfl, rfl⟩
    · exact .inl hc
    · exact .inr ⟨x, .inr ⟨hx, hnew x hx⟩, rfl⟩

/-- Within one role, the registration with a given endpoint is the one of the record with it. -/
theorem client_registration_ne_iff (hk : s.Keyed) {c x : ClientRecord} (hc : c ∈ s.clients)
    (hx : x ∈ s.clients) : x.registration ≠ c.registration ↔ x.endpointId ≠ c.endpointId := by
  refine not_congr ⟨fun h => congrArg Registration.endpointId h, fun h => ?_⟩
  rw [hk.clients.eq_of_key hx hc h]

theorem edge_registration_ne_iff (hk : s.Keyed) {e x : EdgeRecord} (he : e ∈ s.edges)
    (hx : x ∈ s.edges) : x.registration ≠ e.registration ↔ x.endpointId ≠ e.endpointId := by
  refine not_congr ⟨fun h => congrArg Registration.endpointId h, fun h => ?_⟩
  rw [hk.edges.eq_of_key hx he h]

theorem client_edge_registration_ne (c : ClientRecord) (e : EdgeRecord) :
    c.registration ≠ e.registration := by
  intro h
  exact absurd (congrArg Registration.kind h)
    (by simp [ClientRecord.registration, EdgeRecord.registration])

theorem mem_registrations_removeClient {c : ClientRecord} (hk : s.Keyed) (hc : c ∈ s.clients)
    (hedges : s'.edges = s.edges)
    (hclients : s'.clients = Keyed.discard ClientRecord.endpointId c.endpointId s.clients)
    (r : Registration) :
    r ∈ s'.registrations ↔ r ∈ s.registrations ∧ r ≠ c.registration := by
  simp only [mem_registrations, hedges, hclients, Keyed.mem_discard]
  constructor
  · rintro (⟨x, ⟨hx, hne⟩, rfl⟩ | ⟨e, he, rfl⟩)
    · exact ⟨.inl ⟨x, hx, rfl⟩, (client_registration_ne_iff hk hc hx).2 hne⟩
    · exact ⟨.inr ⟨e, he, rfl⟩, (client_edge_registration_ne c e).symm⟩
  · rintro ⟨⟨x, hx, rfl⟩ | he, hne⟩
    · exact .inl ⟨x, ⟨hx, (client_registration_ne_iff hk hc hx).1 hne⟩, rfl⟩
    · exact .inr he

theorem mem_registrations_removeEdge {e : EdgeRecord} (hk : s.Keyed) (he : e ∈ s.edges)
    (hclients : s'.clients = s.clients)
    (hedges : s'.edges = Keyed.discard EdgeRecord.endpointId e.endpointId s.edges)
    (r : Registration) :
    r ∈ s'.registrations ↔ r ∈ s.registrations ∧ r ≠ e.registration := by
  simp only [mem_registrations, hedges, hclients, Keyed.mem_discard]
  constructor
  · rintro (⟨c, hc, rfl⟩ | ⟨x, ⟨hx, hne⟩, rfl⟩)
    · exact ⟨.inl ⟨c, hc, rfl⟩, client_edge_registration_ne c e⟩
    · exact ⟨.inr ⟨x, hx, rfl⟩, (edge_registration_ne_iff hk he hx).2 hne⟩
  · rintro ⟨hc | ⟨x, hx, rfl⟩, hne⟩
    · exact .inl hc
    · exact .inr ⟨x, ⟨hx, (edge_registration_ne_iff hk he hx).1 hne⟩, rfl⟩

theorem mem_registrations_replaceClient {c c' : ClientRecord} (hk : s.Keyed) (hc : c ∈ s.clients)
    (hid : c'.endpointId = c.endpointId) (hedges : s'.edges = s.edges)
    (hclients : s'.clients = Keyed.upsert ClientRecord.endpointId c' s.clients) (r : Registration) :
    r ∈ s'.registrations ↔ r = c'.registration ∨ (r ∈ s.registrations ∧ r ≠ c.registration) := by
  simp only [mem_registrations, hedges, hclients, Keyed.mem_upsert hk.clients, hid]
  constructor
  · rintro (⟨x, rfl | ⟨hx, hne⟩, rfl⟩ | ⟨e, he, rfl⟩)
    · exact .inl rfl
    · exact .inr ⟨.inl ⟨x, hx, rfl⟩, (client_registration_ne_iff hk hc hx).2 hne⟩
    · exact .inr ⟨.inr ⟨e, he, rfl⟩, (client_edge_registration_ne c e).symm⟩
  · rintro (rfl | ⟨⟨x, hx, rfl⟩ | he, hne⟩)
    · exact .inl ⟨c', .inl rfl, rfl⟩
    · exact .inl ⟨x, .inr ⟨hx, (client_registration_ne_iff hk hc hx).1 hne⟩, rfl⟩
    · exact .inr he

theorem mem_registrations_replaceEdge {e e' : EdgeRecord} (hk : s.Keyed) (he : e ∈ s.edges)
    (hid : e'.endpointId = e.endpointId) (hclients : s'.clients = s.clients)
    (hedges : s'.edges = Keyed.upsert EdgeRecord.endpointId e' s.edges) (r : Registration) :
    r ∈ s'.registrations ↔ r = e'.registration ∨ (r ∈ s.registrations ∧ r ≠ e.registration) := by
  simp only [mem_registrations, hedges, hclients, Keyed.mem_upsert hk.edges, hid]
  constructor
  · rintro (⟨c, hc, rfl⟩ | ⟨x, rfl | ⟨hx, hne⟩, rfl⟩)
    · exact .inr ⟨.inl ⟨c, hc, rfl⟩, client_edge_registration_ne c e⟩
    · exact .inl rfl
    · exact .inr ⟨.inr ⟨x, hx, rfl⟩, (edge_registration_ne_iff hk he hx).2 hne⟩
  · rintro (rfl | ⟨hc | ⟨x, hx, rfl⟩, hne⟩)
    · exact .inr ⟨e', .inl rfl, rfl⟩
    · exact .inl hc
    · exact .inr ⟨x, .inr ⟨hx, (edge_registration_ne_iff hk he hx).1 hne⟩, rfl⟩

theorem mem_registrations_congr (hclients : s'.clients = s.clients) (hedges : s'.edges = s.edges)
    (r : Registration) : r ∈ s'.registrations ↔ r ∈ s.registrations := by
  simp only [mem_registrations, hclients, hedges]

/-- **Every mutation has one of the effects.** -/
theorem Mutation.effect (h : Mutation P asked amb s delta) (hk : s.Keyed) :
    Effect P asked.removes amb.clock s (delta.commit s) := by
  cases h with
  | claim invite endpointId port change mem pending node =>
    rcases claimedNodeChange_eq_ok P node with
      ⟨_, hnew, rfl⟩ | ⟨_, _, hnew, rfl⟩ | ⟨_, _, _, rfl⟩
    · exact .enrol _ endpointId.display rfl rfl rfl
        (mem_registrations_enrolClient hk hnew rfl rfl) rfl
    · exact .enrol _ endpointId.display rfl rfl rfl
        (mem_registrations_enrolEdge hk hnew rfl rfl) rfl
    · exact .keep (Nat.le_succ _) le_rfl (mem_registrations_congr rfl rfl) rfl
  | newInvite | revokeInvite | addProvisioner | removeProvisioner | qadPort =>
    exact .keep (Nat.le_succ _) le_rfl (mem_registrations_congr rfl rfl) rfl
  | removeRelay =>
    exact .keep (Nat.le_succ _) (Nat.le_succ _) (mem_registrations_congr rfl rfl) rfl
  | removeClient client mem named =>
    exact .remove client.registration (mem_registrations.2 (.inl ⟨client, mem, rfl⟩)) rfl rfl
      (mem_registrations_removeClient hk mem rfl rfl) rfl named
  | removeEdge edge mem named =>
    exact .remove edge.registration (mem_registrations.2 (.inr ⟨edge, mem, rfl⟩)) rfl rfl
      (mem_registrations_removeEdge hk mem rfl rfl) rfl named
  | transferEdge edge newOwner mem =>
    -- the registration does not name the owner
    let moved : EdgeRecord := { edge with ownerId := newOwner }
    have hmoved : ∀ x, x ∈ ((StateDelta.topology [.putEdge moved]).commit s).registrations ↔
        x = moved.registration ∨ (x ∈ s.registrations ∧ x ≠ edge.registration) :=
      mem_registrations_replaceEdge hk mem rfl rfl rfl
    refine .keep (Nat.le_succ _) le_rfl (fun x => (hmoved x).trans ⟨?_, fun hx => ?_⟩) rfl
    · rintro (rfl | ⟨hx, _⟩)
      · exact mem_registrations.2 (.inr ⟨edge, mem, rfl⟩)
      · exact hx
    · by_cases hxe : x = edge.registration
      · exact .inl hxe
      · exact .inr ⟨hx, hxe⟩
  | renewClient client mem due =>
    exact .extend client.registration (client.renew amb.received).registration
      (mem_registrations.2 (.inl ⟨client, mem, rfl⟩)) rfl rfl rfl (le_renewed due) rfl rfl
      (mem_registrations_replaceClient hk mem rfl rfl rfl) rfl
  | renewEdge edge mem due =>
    exact .extend edge.registration (edge.renew amb.received).registration
      (mem_registrations.2 (.inr ⟨edge, mem, rfl⟩)) rfl rfl rfl (le_renewed due) rfl rfl
      (mem_registrations_replaceEdge hk mem rfl rfl rfl) rfl
  | cleanup =>
    rw [cleanup_commit hk]
    exact .collect rfl rfl (mem_registrations_congr rfl rfl) rfl
  | bootstrap record id =>
    rw [bootstrap_commit_invites]
    exact .keep le_rfl le_rfl (mem_registrations_congr rfl rfl) rfl

/-! ## Credential periods -/

/-- The validity period of a credential issued at `now`. -/
def Issued (now issuedAt expiresAt : Int) : Prop :=
  issuedAt = now ∧ expiresAt = I64.saturatingAdd now RELAY_CREDENTIAL_LIFETIME_SECS

/-- A client after a commit is a client from before it, or has a new credential period: it was
    enrolled as somebody asked, or its credential has been extended. -/
theorem Mutation.mem_clients (h : Mutation P asked amb s delta) (hk : s.Keyed) {client : ClientRecord}
    (hmem : client ∈ (delta.commit s).clients) :
    client ∈ s.clients ∨
      (Issued amb.received client.credentialIssuedAt client.credentialExpiresAt ∧
        ((∃ invite, asked.enrols invite) ∨ ∃ old ∈ s.clients,
          old.endpointId = client.endpointId ∧
            old.credentialExpiresAt ≤ client.credentialExpiresAt)) := by
  cases h with
  | claim invite endpointId port change mem pending node inTime validPort named =>
    rcases claimedNodeChange_eq_ok P node with ⟨_, _, rfl⟩ | ⟨_, _, _, rfl⟩ | ⟨_, _, _, rfl⟩
    · rcases (Keyed.mem_upsert hk.clients).1 hmem with rfl | ⟨hold, _⟩
      · exact .inr ⟨⟨rfl, rfl⟩, .inl ⟨_, named⟩⟩
      · exact .inl hold
    · exact .inl hmem
    · exact .inl hmem
  | newInvite | revokeInvite | removeEdge | transferEdge | removeRelay | addProvisioner
  | removeProvisioner | qadPort | renewEdge => exact .inl hmem
  | removeClient => exact .inl (Keyed.mem_discard.1 hmem).1
  | renewClient record mem due =>
    rcases (Keyed.mem_upsert hk.clients).1 hmem with rfl | ⟨hold, _⟩
    · exact .inr ⟨⟨rfl, rfl⟩, .inr ⟨record, mem, rfl, le_renewed due⟩⟩
    · exact .inl hold
  | cleanup =>
    rw [cleanup_commit hk] at hmem
    exact .inl hmem
  | bootstrap record id =>
    rw [bootstrap_commit_invites] at hmem
    exact .inl hmem

/-- An edge after a commit is, up to its owner, an edge from before it, or has a new credential
    period: it was enrolled as somebody asked, or its credential has been extended. -/
theorem Mutation.mem_edges (h : Mutation P asked amb s delta) (hk : s.Keyed) {edge : EdgeRecord}
    (hmem : edge ∈ (delta.commit s).edges) :
    (∃ old ∈ s.edges, edge = { old with ownerId := edge.ownerId }) ∨
      (Issued amb.received edge.credentialIssuedAt edge.credentialExpiresAt ∧
        ((∃ invite, asked.enrols invite) ∨ ∃ old ∈ s.edges,
          old.endpointId = edge.endpointId ∧
            old.credentialExpiresAt ≤ edge.credentialExpiresAt)) := by
  have hkept : edge ∈ s.edges → ∃ old ∈ s.edges, edge = { old with ownerId := edge.ownerId } :=
    fun hold => ⟨edge, hold, rfl⟩
  cases h with
  | claim invite endpointId port change mem pending node inTime validPort named =>
    rcases claimedNodeChange_eq_ok P node with ⟨_, _, rfl⟩ | ⟨_, _, _, rfl⟩ | ⟨_, _, _, rfl⟩
    · exact .inl (hkept hmem)
    · rcases (Keyed.mem_upsert hk.edges).1 hmem with rfl | ⟨hold, _⟩
      · exact .inr ⟨⟨rfl, rfl⟩, .inl ⟨_, named⟩⟩
      · exact .inl (hkept hold)
    · exact .inl (hkept hmem)
  | newInvite | revokeInvite | removeClient | removeRelay | addProvisioner | removeProvisioner
  | qadPort | renewClient => exact .inl (hkept hmem)
  | removeEdge => exact .inl (hkept (Keyed.mem_discard.1 hmem).1)
  | transferEdge record newOwner mem =>
    rcases (Keyed.mem_upsert hk.edges).1 hmem with rfl | ⟨hold, _⟩
    · exact .inl ⟨record, mem, rfl⟩
    · exact .inl (hkept hold)
  | renewEdge record mem due =>
    rcases (Keyed.mem_upsert hk.edges).1 hmem with rfl | ⟨hold, _⟩
    · exact .inr ⟨⟨rfl, rfl⟩, .inr ⟨record, mem, rfl, le_renewed due⟩⟩
    · exact .inl (hkept hold)
  | cleanup =>
    rw [cleanup_commit hk] at hmem
    exact .inl (hkept hmem)
  | bootstrap record id =>
    rw [bootstrap_commit_invites] at hmem
    exact .inl (hkept hmem)

/-- A registration after a commit runs at least as long as one of the same endpoint before it, or has
    been enrolled as somebody asked. -/
theorem Mutation.registration_cases (h : Mutation P asked amb s delta) (hk : s.Keyed)
    {r : Registration} (hr : r ∈ (delta.commit s).registrations) :
    (∃ old ∈ s.registrations, old.endpointId = r.endpointId ∧ old.expiresAt ≤ r.expiresAt) ∨
      ((∃ invite, asked.enrols invite) ∧
        r.expiresAt = I64.saturatingAdd amb.received RELAY_CREDENTIAL_LIFETIME_SECS) := by
  rcases mem_registrations.1 hr with ⟨client, hclient, rfl⟩ | ⟨edge, hedge, rfl⟩
  · rcases h.mem_clients hk hclient with hold | ⟨hissued, henrols | ⟨old, hold, hid, hle⟩⟩
    · exact .inl ⟨_, mem_registrations.2 (.inl ⟨client, hold, rfl⟩), rfl, le_rfl⟩
    · exact .inr ⟨henrols, hissued.2⟩
    · exact .inl ⟨_, mem_registrations.2 (.inl ⟨old, hold, rfl⟩), hid, hle⟩
  · rcases h.mem_edges hk hedge with ⟨old, hold, hsame⟩ | ⟨hissued, henrols | ⟨old, hold, hid, hle⟩⟩
    · rw [hsame]
      exact .inl ⟨_, mem_registrations.2 (.inr ⟨old, hold, rfl⟩), rfl, le_rfl⟩
    · exact .inr ⟨henrols, hissued.2⟩
    · exact .inl ⟨_, mem_registrations.2 (.inr ⟨old, hold, rfl⟩), hid, hle⟩

end AgentScale.Control
