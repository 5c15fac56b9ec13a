import AgentScale.Control.Maps

set_option autoImplicit false

/-! # The stream of topologies

Seen from its nodes, a Control is a sequence of topologies, one for each revision; a signed map shows
its recipient the topology of the map's revision. `Published` relates a ledger to such a sequence: the
last topology is the current one, all are well formed, and every map that was ever signed reflects the
topology of its revision. Nodes that have heard of the same revision therefore agree, whenever and in
whatever order their maps were signed. -/

namespace AgentScale.Control

open Checked ControlApi RelayApi

variable {P : Platform} {key : SecretKey} {s s' : ControlState} {m : NodeMap} {l l' : Ledger}
  {allowed : Ambient → ControlState → Operation P → Prop}

/-- The topologies a Control has published, by revision. -/
structure Published (P : Platform) (key : SecretKey) (l : Ledger) (topology : Nat → ControlState) :
    Prop where
  current : (topology l.state.revision).SameTopology l.state
  wellFormed : ∀ r ≤ l.state.revision, (topology r).WellFormed
  canonical : ∀ r ≤ l.state.revision, ∀ client ∈ (topology r).clients, Canonical P client.endpointId
  fixed : ∀ r ≤ l.state.revision, (topology r).audience = l.state.audience ∧
    (topology r).publicUrl = l.state.publicUrl
  maps : ∀ m ∈ l.history.maps, m.revision ≤ l.state.revision ∧ Reflects P key (topology m.revision) m

/-! ## Steps of the ledger -/

/-- A commit leaves the names of the deployment alone. -/
theorem StateDelta.commit_names (delta : StateDelta) (s : ControlState) :
    (delta.commit s).audience = s.audience ∧ (delta.commit s).publicUrl = s.publicUrl := by
  have hmetadata := delta.apply_metadata s
  exact ⟨congrArg MetadataRow.audience hmetadata, congrArg MetadataRow.publicUrl hmetadata⟩

theorem Ledger.Step.names (h : Ledger.Step P key allowed l l') :
    l'.state.audience = l.state.audience ∧ l'.state.publicUrl = l.state.publicUrl := by
  cases h with
  | tick | draw | issue => exact ⟨rfl, rfl⟩
  | reorder s same =>
    have htopology := ControlState.SameTopology.of_same same
    exact ⟨htopology.audience, htopology.publicUrl⟩
  | commit amb delta => exact delta.commit_names l.state

theorem Ledger.names_of_steps (h : (ledgerWhere P key allowed).Steps l l') :
    l'.state.audience = l.state.audience ∧ l'.state.publicUrl = l.state.publicUrl := by
  induction h with
  | refl => exact ⟨rfl, rfl⟩
  | tail _ hlast ih =>
    obtain ⟨haudience, hurl⟩ := Ledger.Step.names hlast
    exact ⟨haudience.trans ih.1, hurl.trans ih.2⟩

namespace Published

variable {topology : Nat → ControlState}

/-- A new state that keeps the revision shows the same topology. -/
theorem keep (h : Published P key l topology) (hmaps : l'.history.maps = l.history.maps)
    (hsame : l.state.SameTopology l'.state) : Published P key l' topology where
  current := hsame.revision ▸ h.current.trans hsame
  wellFormed := fun r hr => h.wellFormed r (hr.trans_eq hsame.revision.symm)
  canonical := fun r hr => h.canonical r (hr.trans_eq hsame.revision.symm)
  fixed := fun r hr => by
    obtain ⟨haudience, hurl⟩ := h.fixed r (hr.trans_eq hsame.revision.symm)
    exact ⟨haudience.trans hsame.audience, hurl.trans hsame.publicUrl⟩
  maps := fun m hm => by
    obtain ⟨hle, hreflects⟩ := h.maps m (hmaps ▸ hm)
    exact ⟨hle.trans_eq hsame.revision, hreflects⟩

/-- A new revision is appended to the sequence. -/
theorem publish (h : Published P key l topology) (hmaps : l'.history.maps = l.history.maps)
    (hlater : l.state.revision < l'.state.revision) (hwf : l'.state.WellFormed)
    (hcanonical : ∀ client ∈ l'.state.clients, Canonical P client.endpointId)
    (hnames : l'.state.audience = l.state.audience ∧ l'.state.publicUrl = l.state.publicUrl) :
    Published P key l' (fun r => if r ≤ l.state.revision then topology r else l'.state) where
  current := by
    simp only [Nat.not_le.2 hlater, if_false]
    exact .refl _
  wellFormed := by
    intro r _
    by_cases hr : r ≤ l.state.revision
    · simpa only [hr, if_true] using h.wellFormed r hr
    · simpa only [hr, if_false] using hwf
  canonical := by
    intro r _
    by_cases hr : r ≤ l.state.revision
    · simpa only [hr, if_true] using h.canonical r hr
    · simpa only [hr, if_false] using hcanonical
  fixed := by
    intro r _
    by_cases hr : r ≤ l.state.revision
    · obtain ⟨haudience, hurl⟩ := h.fixed r hr
      simp only [hr, if_true]
      exact ⟨haudience.trans hnames.1.symm, hurl.trans hnames.2.symm⟩
    · simp [hr]
  maps := by
    intro m hm
    obtain ⟨hle, hreflects⟩ := h.maps m (hmaps ▸ hm)
    simp only [hle, if_true]
    exact ⟨hle.trans hlater.le, hreflects⟩

/-- A map is signed in the current state. -/
theorem issue (h : Published P key l topology) (hk : l.state.Keyed) {recipient : EndpointId P}
    {signed : SignedNodeMap} (hsigned : signedMap P l.state key l.clock recipient = .ok signed) :
    Published P key { l with history := l.history.issue P key l.state signed.map } topology := by
  obtain ⟨role, credential, hrole, _, hmap⟩ := signedMap_eq_ok hsigned
  have hnew : Reflects P key l.state signed.map :=
    ⟨l.state, l.clock, recipient, role, credential, .refl _, hk, hrole, hmap⟩
  have hrevision : signed.map.revision = l.state.revision := by
    rw [hmap]
    rfl
  refine { h with maps := ?_ }
  intro m hm
  rcases List.mem_cons.1 hm with rfl | hm
  · rw [hrevision]
    exact ⟨le_rfl, hnew.congr h.current.symm⟩
  · exact h.maps m hm

theorem step (hr : (ledgerWhere P key allowed).Reachable l) (h : Published P key l topology)
    (hstep : Ledger.Step P key allowed l l') : ∃ topology', Published P key l' topology' := by
  have hnames := hstep.names
  have hr' := hr.step hstep
  cases hstep with
  | tick | draw => exact ⟨topology, h.keep rfl (.refl _)⟩
  | reorder s same => exact ⟨topology, h.keep rfl (.of_same same.symm)⟩
  | issue recipient signed signs =>
    exact ⟨topology, h.issue (Ledger.wellFormed_of_reachable hr).keyed signs⟩
  | commit amb delta tokens enrolled received clock draws decision wellFormed =>
    cases hpublish : delta.publish with
    | none =>
      have hk := (Ledger.wellFormed_of_reachable hr).keyed
      exact ⟨topology, h.keep rfl (decision.mutation_any.sameTopology hk hpublish).symm⟩
    | nodes | nodesAndRelays =>
      have hlater : l.state.revision < (delta.commit l.state).revision := by
        simp only [StateDelta.commit, hpublish, Publish.revisions]
        omega
      refine ⟨_, h.publish rfl hlater wellFormed ?_ hnames⟩
      intro client hclient
      exact (Ledger.accounted_of_reachable hr').canonical _
        (mem_registrations.2 (.inl ⟨client, hclient, rfl⟩))

end Published

theorem Ledger.published_of_reachable (h : (ledgerWhere P key allowed).Reachable l) :
    ∃ topology, Published P key l topology := by
  refine h.invariant (P := fun l => ∃ topology, Published P key l topology) ?_ ?_
  · rintro l ⟨⟨audience, publicUrl, relayCaDer, hstate⟩, hwf, _, hhistory⟩
    refine ⟨fun _ => l.state, .refl _, fun _ _ => hwf, ?_, fun _ _ => ⟨rfl, rfl⟩, ?_⟩
    · simp [hstate, initialState]
    · simp [hhistory, History.empty]
  · rintro l l' hr ⟨topology, hpublished⟩ hstep
    exact hpublished.step hr hstep

/-! ## What a map says of a well-formed topology -/

namespace Reflects

/-- A client that a map allows owns the edge the map is for. -/
theorem owner_of_allowed (h : Reflects P key s m) {x : String} (hx : x ∈ m.allowedClients) :
    m.allowedClients = [x] ∧
      ∃ site ∈ s.edges.map EdgeRecord.site, site.endpointId = m.recipientId ∧ site.ownerId = x := by
  obtain ⟨s₀, _, recipient, role, _, hs, _, hrole, rfl⟩ := h
  cases role with
  | client | relay => exact absurd hx (by simp [nodeMap, Role.allowedClients])
  | edge edge =>
    obtain rfl : x = edge.ownerId := by simpa [nodeMap, Role.allowedClients] using hx
    obtain ⟨hmem, hid⟩ := roleOf_edge hrole
    exact ⟨rfl, edge.site, hs.edges.mem_iff.1 (List.mem_map_of_mem hmem), hid, rfl⟩

/-- The map of a client that is not itself an edge lists every edge the client owns. -/
theorem listed_of_site (h : Reflects P key s m) (hwf : s.WellFormed) {site : EdgeSite}
    (hsite : site ∈ s.edges.map EdgeRecord.site) (howner : site.ownerId = m.recipientId)
    (hclient : m.allowedClients = []) : ∃ info ∈ m.edges, info.endpointId = site.endpointId := by
  obtain ⟨s₀, _, recipient, role, _, hs, _, hrole, rfl⟩ := h
  cases role with
  | edge edge => exact absurd hclient (by simp [nodeMap, Role.allowedClients])
  | client client =>
    obtain ⟨edge, hedge, rfl⟩ := List.mem_map.1 (hs.edges.mem_iff.2 hsite)
    refine ⟨edgeInfo s₀ edge, List.mem_map_of_mem (List.mem_filter.2 ⟨hedge, ?_⟩), rfl⟩
    exact decide_eq_true howner
  | relay =>
    -- the owner is registered as a client, so it is not served as a Relay
    exfalso
    obtain ⟨edge, hedge, rfl⟩ := List.mem_map.1 hsite
    obtain ⟨client, hmem, hid⟩ := hwf.owners edge hedge
    obtain ⟨client₀, hmem₀, hsame⟩ :=
      List.mem_map.1 (hs.clients.mem_iff.2 (List.mem_map_of_mem hmem))
    rcases roleOf_eq_some hrole with ⟨_, hrole, _⟩ | ⟨_, ⟨_, hrole, _⟩ | ⟨_, hnone⟩⟩
    · cases hrole
    · cases hrole
    · refine Keyed.lookup_eq_none.1 hnone client₀ hmem₀ ?_
      exact (congrArg Prod.fst hsame).trans (hid.trans howner)

end Reflects

/-- The only client a signed map allows is named in canonical form. -/
theorem Published.allowed_canonical {topology : Nat → ControlState} (h : Published P key l topology)
    (hm : m ∈ l.history.maps) {x : String} (hx : x ∈ m.allowedClients) : Canonical P x := by
  obtain ⟨hle, hreflects⟩ := h.maps m hm
  obtain ⟨_, site, hsite, _, rfl⟩ := hreflects.owner_of_allowed hx
  obtain ⟨edge, hedge, rfl⟩ := List.mem_map.1 hsite
  obtain ⟨client, hclient, hid⟩ := (h.wellFormed _ hle).owners edge hedge
  rw [EdgeRecord.site, ← hid]
  exact h.canonical _ hle client hclient

/-- Every map carries the names of the deployment. -/
theorem Published.map_names {topology : Nat → ControlState} (h : Published P key l topology)
    (hm : m ∈ l.history.maps) :
    m.audience = l.state.audience ∧ m.controlUrl = l.state.publicUrl := by
  obtain ⟨hle, s₀, _, recipient, role, _, hs, _, _, hmap⟩ := h.maps m hm
  obtain ⟨haudience, hurl⟩ := h.fixed _ hle
  rw [hmap]
  rw [hmap] at hs haudience hurl
  exact ⟨hs.audience.trans haudience, hs.publicUrl.trans hurl⟩

end AgentScale.Control
