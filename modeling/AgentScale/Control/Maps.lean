import AgentScale.Control.Invariant

set_option autoImplicit false

/-! # Maps of one revision

A renewal, a cleanup, an offline `bootstrap` and a restart change the durable state without a new
revision. None of them can be seen in a map, except that a restart loads the records in another order
(`maps_of_one_revision_differ_in_order`). Up to order, the revision determines what every recipient is
told, and the maps of an edge and of its owner agree (`maps_of_one_revision_agree`). -/

namespace AgentScale.Control

open Checked ControlApi RelayApi

variable {P : Platform} {key : SecretKey} {amb : Ambient} {s s' : ControlState} {delta : StateDelta}

/-! ## Topology -/

/-- An edge without its credential. -/
structure EdgeSite where
  name : String
  endpointId : String
  ownerId : String

def EdgeRecord.site (edge : EdgeRecord) : EdgeSite := ⟨edge.name, edge.endpointId, edge.ownerId⟩

/-- A client without its credential and its manager, by id and name. -/
def ClientRecord.site (client : ClientRecord) : String × String := (client.endpointId, client.name)

/-- The part of the state that maps are made of is the same, up to order. -/
structure ControlState.SameTopology (a b : ControlState) : Prop where
  audience : a.audience = b.audience
  publicUrl : a.publicUrl = b.publicUrl
  relayCaDer : a.relayCaDer = b.relayCaDer
  revision : a.revision = b.revision
  clients : (a.clients.map ClientRecord.site).Perm (b.clients.map ClientRecord.site)
  edges : (a.edges.map EdgeRecord.site).Perm (b.edges.map EdgeRecord.site)
  relays : a.relays.Perm b.relays

namespace ControlState.SameTopology

variable {a b c : ControlState}

theorem refl (a : ControlState) : a.SameTopology a := ⟨rfl, rfl, rfl, rfl, .rfl, .rfl, .rfl⟩

theorem symm (h : a.SameTopology b) : b.SameTopology a :=
  ⟨h.audience.symm, h.publicUrl.symm, h.relayCaDer.symm, h.revision.symm, h.clients.symm,
    h.edges.symm, h.relays.symm⟩

theorem trans (h : a.SameTopology b) (h' : b.SameTopology c) : a.SameTopology c :=
  ⟨h.audience.trans h'.audience, h.publicUrl.trans h'.publicUrl, h.relayCaDer.trans h'.relayCaDer,
    h.revision.trans h'.revision, h.clients.trans h'.clients, h.edges.trans h'.edges,
    h.relays.trans h'.relays⟩

theorem of_same (h : a.Same b) : a.SameTopology b where
  audience := h.audience
  publicUrl := congrArg MetadataRow.publicUrl h.metadata
  relayCaDer := congrArg MetadataRow.relayCaDer h.metadata
  revision := h.revision
  clients := h.clients.map _
  edges := h.edges.map _
  relays := h.relays

theorem edge_site (h : a.SameTopology b) (ha : a.Keyed) (id : String) :
    (Keyed.lookup EdgeRecord.endpointId id a.edges).map EdgeRecord.site =
      (Keyed.lookup EdgeRecord.endpointId id b.edges).map EdgeRecord.site :=
  Keyed.lookup_map_congr EdgeSite.endpointId (fun _ => rfl) ha.edges h.edges

theorem client_site (h : a.SameTopology b) (ha : a.Keyed) (id : String) :
    (Keyed.lookup ClientRecord.endpointId id a.clients).map ClientRecord.site =
      (Keyed.lookup ClientRecord.endpointId id b.clients).map ClientRecord.site :=
  Keyed.lookup_map_congr Prod.fst (fun _ => rfl) ha.clients h.clients

theorem clientName (h : a.SameTopology b) (ha : a.Keyed) (id : String) :
    Control.clientName a id = Control.clientName b id := by
  have hname := congrArg (Option.map Prod.snd) (h.client_site ha id)
  rw [Option.map_map, Option.map_map] at hname
  exact hname

/-- The edges of an owner, as its map lists them. -/
theorem edgeInfos (h : a.SameTopology b) (ha : a.Keyed) (ownerId : String) :
    ((a.edges.filter (fun item => item.ownerId = ownerId)).map (edgeInfo a)).Perm
      ((b.edges.filter (fun item => item.ownerId = ownerId)).map (edgeInfo b)) := by
  -- both lists are the same function of the sites
  have hinfos : ∀ s : ControlState,
      (∀ id, Control.clientName s id = Control.clientName a id) →
      (s.edges.filter (fun item => item.ownerId = ownerId)).map (edgeInfo s) =
        ((s.edges.map EdgeRecord.site).filter (fun site => site.ownerId = ownerId)).map
          (fun site => (⟨site.name, site.endpointId, site.ownerId,
            (Control.clientName a site.ownerId).getD "unknown"⟩ : EdgeInfo)) := by
    intro s hnames
    rw [List.filter_map, List.map_map]
    refine List.map_congr_left (fun edge _ => ?_)
    simp only [edgeInfo, EdgeRecord.site, Function.comp_apply, hnames]
  rw [hinfos a (fun _ => rfl), hinfos b (fun id => (h.clientName ha id).symm)]
  exact (h.edges.filter _).map _

end ControlState.SameTopology

/-! ## Maps from states with the same topology -/

/-- What a map says of the role of its recipient. -/
theorem roleOf_congr (h : s.SameTopology s') (hk : s.Keyed) {id : String} {role role' : Role}
    (hrole : roleOf s id = some role) (hrole' : roleOf s' id = some role') :
    role.allowedClients = role'.allowedClients ∧ (role.edges s id).Perm (role'.edges s' id) := by
  have hedge := h.edge_site hk id
  have hclient := h.client_site hk id
  rcases roleOf_eq_some hrole with ⟨edge, rfl, he⟩ | ⟨he, ⟨client, rfl, hc⟩ | ⟨rfl, hc⟩⟩ <;>
    rcases roleOf_eq_some hrole' with ⟨edge', rfl, he'⟩ | ⟨he', ⟨client', rfl, hc'⟩ | ⟨rfl, hc'⟩⟩ <;>
    simp only [he, he', Option.map_some, Option.map_none, reduceCtorEq, Option.some.injEq] at hedge
  · exact ⟨congrArg (fun site => [EdgeSite.ownerId site]) hedge, .rfl⟩
  · exact ⟨rfl, h.edgeInfos hk id⟩
  · simp [hc, hc'] at hclient
  · simp [hc, hc'] at hclient
  · exact ⟨rfl, .rfl⟩

/-- Two maps tell their common recipient the same, up to order, whenever they were issued and whatever
    credential they carry. -/
structure MapsAgree (m m' : NodeMap) : Prop where
  protocolVersion : m.protocolVersion = m'.protocolVersion
  audience : m.audience = m'.audience
  controlUrl : m.controlUrl = m'.controlUrl
  controlId : m.controlId = m'.controlId
  relayCaDer : m.relayCaDer = m'.relayCaDer
  relays : m.relays.Perm m'.relays
  allowedClients : m.allowedClients = m'.allowedClients
  edges : m.edges.Perm m'.edges

/-- The map is what a state with the topology of `s` tells its recipient. -/
def Reflects (P : Platform) (key : SecretKey) (s : ControlState) (m : NodeMap) : Prop :=
  ∃ (s₀ : ControlState) (now : Int) (recipient : EndpointId P) (role : Role)
    (credential : Option String), s₀.SameTopology s ∧ s₀.Keyed ∧
      roleOf s₀ recipient.text = some role ∧ m = nodeMap P s₀ key now recipient role credential

namespace Reflects

variable {m m' : NodeMap}

theorem congr (h : Reflects P key s m) (hs : s.SameTopology s') : Reflects P key s' m := by
  obtain ⟨s₀, now, recipient, role, credential, hsame, hrest⟩ := h
  exact ⟨s₀, now, recipient, role, credential, hsame.trans hs, hrest⟩

theorem agrees (h : Reflects P key s m) (h' : Reflects P key s m')
    (hid : m.recipientId = m'.recipientId) : MapsAgree m m' := by
  obtain ⟨s₁, _, recipient, role, _, hs, hk, hrole, rfl⟩ := h
  obtain ⟨s₂, _, recipient', role', _, hs', _, hrole', rfl⟩ := h'
  have hsame := hs.trans hs'.symm
  have hid : recipient.text = recipient'.text := hid
  obtain ⟨hallowed, hedges⟩ := roleOf_congr hsame hk hrole (hid.symm ▸ hrole')
  refine ⟨rfl, hsame.audience, hsame.publicUrl, rfl, hsame.relayCaDer, hsame.relays.map _,
    hallowed, ?_⟩
  simpa only [nodeMap, hid] using hedges

/-- An edge that a map lists belongs to the recipient of the map. -/
theorem site_of_listed (h : Reflects P key s m) {info : EdgeInfo} (hinfo : info ∈ m.edges) :
    ∃ site ∈ s.edges.map EdgeRecord.site, site.endpointId = info.endpointId ∧
      site.ownerId = m.recipientId := by
  obtain ⟨s₀, _, recipient, role, _, hs, _, hrole, rfl⟩ := h
  cases role with
  | edge | relay => exact absurd hinfo (by simp [nodeMap, Role.edges])
  | client client =>
    obtain ⟨edge, hedge, rfl⟩ := List.mem_map.1 hinfo
    obtain ⟨hmem, howner⟩ := List.mem_filter.1 hedge
    exact ⟨edge.site, hs.edges.mem_iff.1 (List.mem_map_of_mem hmem), rfl,
      of_decide_eq_true howner⟩

/-- The map of a registered edge allows its owner. -/
theorem allowed_of_site (h : Reflects P key s m) {site : EdgeSite}
    (hsite : site ∈ s.edges.map EdgeRecord.site) (hid : site.endpointId = m.recipientId) :
    m.allowedClients = [site.ownerId] := by
  obtain ⟨s₀, _, recipient, role, _, hs, hk₀, hrole, rfl⟩ := h
  obtain ⟨edge, hedge, rfl⟩ := List.mem_map.1 (hs.edges.mem_iff.2 hsite)
  have hlookup := (Keyed.lookup_eq_some hk₀.edges).2 ⟨hedge, hid⟩
  have hrole' : roleOf s₀ recipient.text = some (.edge edge) := by
    unfold roleOf
    simp only [nodeMap] at hlookup
    rw [hlookup]
  cases hrole.symm.trans hrole'
  rfl

end Reflects

/-! ## Runs -/

/-- A commit that publishes no revision cannot be seen in any map. -/
theorem Mutation.sameTopology {asked : Demand} (h : Mutation P asked amb s delta) (hk : s.Keyed)
    (hquiet : delta.publish = .none) : (delta.commit s).SameTopology s := by
  have hrefl := ControlState.SameTopology.refl s
  cases h with
  | claim | newInvite | revokeInvite | transferEdge | addProvisioner | removeProvisioner | qadPort =>
    exact absurd hquiet (by simp [StateDelta.topology])
  | removeClient | removeEdge | removeRelay =>
    exact absurd hquiet (by simp [StateDelta.revocation])
  | renewClient client mem =>
    exact { hrefl with clients := Keyed.map_upsert_perm hk.clients mem rfl rfl }
  | renewEdge edge mem =>
    exact { hrefl with edges := Keyed.map_upsert_perm hk.edges mem rfl rfl }
  | cleanup =>
    rw [cleanup_commit hk]
    exact { hrefl with }
  | bootstrap record =>
    rw [bootstrap_commit_invites]
    exact { hrefl with }

/-- No map is ahead of the state, those of the current revision reflect it, and the maps of every
    revision reflect one state. -/
structure MapsOfRevisions (P : Platform) (key : SecretKey) (l : Ledger) : Prop where
  le : ∀ m ∈ l.history.maps, m.revision ≤ l.state.revision
  current : ∀ m ∈ l.history.maps, m.revision = l.state.revision → Reflects P key l.state m
  past : ∀ m ∈ l.history.maps, ∀ m' ∈ l.history.maps, m.revision = m'.revision →
    ∃ s : ControlState, s.Keyed ∧ Reflects P key s m ∧ Reflects P key s m'

variable {l l' : Ledger} {allowed : Ambient → ControlState → Operation P → Prop}

/-- A new state with an old topology, or with a new revision, keeps what is known of the maps. -/
theorem MapsOfRevisions.advance (h : MapsOfRevisions P key l) (hmaps : l'.history.maps = l.history.maps)
    (hnext : l.state.SameTopology l'.state ∨ l.state.revision < l'.state.revision) :
    MapsOfRevisions P key l' where
  le := by
    intro m hm
    have hle := h.le m (hmaps ▸ hm)
    rcases hnext with hsame | hlt
    · exact hle.trans_eq hsame.revision
    · omega
  current := by
    intro m hm hrevision
    have hle := h.le m (hmaps ▸ hm)
    rcases hnext with hsame | hlt
    · exact (h.current m (hmaps ▸ hm) (hrevision.trans hsame.revision.symm)).congr hsame
    · omega
  past := hmaps ▸ h.past

theorem MapsOfRevisions.step (hr : (ledgerWhere P key allowed).Reachable l)
    (h : MapsOfRevisions P key l) (hstep : Ledger.Step P key allowed l l') :
    MapsOfRevisions P key l' := by
  have hk := (Ledger.wellFormed_of_reachable hr).keyed
  cases hstep with
  | tick | draw => exact h.advance rfl (.inl (.refl _))
  | reorder s same => exact h.advance rfl (.inl (.of_same same.symm))
  | commit amb delta tokens enrolled received clock draws decision =>
    refine h.advance rfl ?_
    cases hpublish : delta.publish with
    | none => exact .inl (decision.mutation_any.sameTopology hk hpublish).symm
    | nodes | nodesAndRelays =>
      right
      simp only [StateDelta.commit, hpublish, Publish.revisions]
      omega
  | issue recipient signed signs =>
    obtain ⟨role, credential, hrole, _, hmap⟩ := signedMap_eq_ok signs
    have hnew : Reflects P key l.state signed.map :=
      ⟨l.state, l.clock, recipient, role, credential, .refl _, hk, hrole, hmap⟩
    have hrevision : signed.map.revision = l.state.revision := by rw [hmap]; rfl
    refine ⟨?_, ?_, ?_⟩
    · intro m hm
      rcases List.mem_cons.1 hm with rfl | hm
      · exact hrevision.le
      · exact h.le m hm
    · intro m hm heq
      rcases List.mem_cons.1 hm with rfl | hm
      · exact hnew
      · exact h.current m hm heq
    · -- a map of the current revision reflects the current state
      intro m hm m' hm' heq
      rcases List.mem_cons.1 hm with rfl | hm <;> rcases List.mem_cons.1 hm' with rfl | hm'
      · exact ⟨l.state, hk, hnew, hnew⟩
      · exact ⟨l.state, hk, hnew, h.current m' hm' (heq.symm.trans hrevision)⟩
      · exact ⟨l.state, hk, h.current m hm (heq.trans hrevision), hnew⟩
      · exact h.past m hm m' hm' heq

theorem Ledger.mapsOfRevisions_of_reachable (h : (ledgerWhere P key allowed).Reachable l) :
    MapsOfRevisions P key l := by
  refine h.invariant (P := MapsOfRevisions P key) ?_ (fun l l' hr hmaps hstep => hmaps.step hr hstep)
  rintro l ⟨_, _, _, hhistory⟩
  have hempty : l.history.maps = [] := congrArg History.maps hhistory
  exact ⟨by simp [hempty], by simp [hempty], by simp [hempty]⟩

/-- **Maps of one revision agree**, up to order: two maps for one recipient say the same; an edge that
    a client's map lists is allowed to that client by its own map, and no other map lists it. -/
theorem maps_of_one_revision_agree {w : World} (hr : (control P key).Reachable w) {m m' : NodeMap}
    (hm : m ∈ w.history.maps) (hm' : m' ∈ w.history.maps) (hrevision : m.revision = m'.revision) :
    (m.recipientId = m'.recipientId → MapsAgree m m') ∧
    (∀ info ∈ m.edges, info.endpointId = m'.recipientId → m'.allowedClients = [m.recipientId]) ∧
    (∀ info ∈ m.edges, ∀ info' ∈ m'.edges, info.endpointId = info'.endpointId →
      m.recipientId = m'.recipientId) := by
  obtain ⟨l, hl, href⟩ := exists_ledger hr
  rw [← href.history] at hm hm'
  obtain ⟨s, hk, hreflects, hreflects'⟩ :=
    (Ledger.mapsOfRevisions_of_reachable hl).past m hm m' hm' hrevision
  refine ⟨fun hid => hreflects.agrees hreflects' hid, ?_, ?_⟩
  · intro info hinfo hid
    obtain ⟨site, hsite, hsiteId, howner⟩ := hreflects.site_of_listed hinfo
    rw [hreflects'.allowed_of_site hsite (hsiteId.trans hid), howner]
  · intro info hinfo info' hinfo' hid
    obtain ⟨site, hsite, hsiteId, howner⟩ := hreflects.site_of_listed hinfo
    obtain ⟨site', hsite', hsiteId', howner'⟩ := hreflects'.site_of_listed hinfo'
    -- edge identities are distinct, so both maps list the same site
    obtain ⟨edge, hedge, rfl⟩ := List.mem_map.1 hsite
    obtain ⟨edge', hedge', rfl⟩ := List.mem_map.1 hsite'
    have hsame := hk.edges.eq_of_key hedge hedge' (hsiteId.trans (hid.trans hsiteId'.symm))
    rw [← howner, ← howner', hsame]

section Example

open Reference

/-- The maps of the owner and of its edge at the revision at which the edge has enrolled. -/
theorem maps_of_owner_and_edge_agree : ∃ (w : World) (m m' : NodeMap),
    (control (platform []) controlKey).Reachable w ∧ m ∈ w.history.maps ∧ m' ∈ w.history.maps ∧
      m.revision = m'.revision ∧ m.recipientId = publicKey nodeKey ∧
      m'.recipientId = publicKey otherKey ∧ m.edges ≠ [] ∧
      m'.allowedClients = [publicKey nodeKey] := by
  obtain ⟨w, hr, hcheck⟩ := World.exists_after controlKey (fun _ _ _ => True)
    (enrolEdge (platform []) controlKey nodeKey otherKey ++
      [.operate (fun _ => .watch (watchRequest (platform []) nodeKey 0 2) false) "watch-a"])
    (fun w => w.history.maps.any (fun m => w.history.maps.any (fun m' =>
      m.revision = m'.revision && m.recipientId = publicKey nodeKey &&
        m'.recipientId = publicKey otherKey &&
        m.edges.any (fun info => info.endpointId = publicKey otherKey)))) (by decide +kernel)
  obtain ⟨m, hm, hcheck⟩ := List.any_eq_true.1 hcheck
  obtain ⟨m', hm', hcheck⟩ := List.any_eq_true.1 hcheck
  simp only [Bool.and_eq_true, decide_eq_true_eq] at hcheck
  obtain ⟨⟨⟨hrevision, hid⟩, hid'⟩, hlisted⟩ := hcheck
  obtain ⟨info, hinfo, hedge⟩ := List.any_eq_true.1 hlisted
  have hallowed := (maps_of_one_revision_agree hr hm hm' hrevision).2.1 info hinfo
    ((of_decide_eq_true hedge).trans hid'.symm)
  exact ⟨w, m, m', hr, hm, hm', hrevision, hid, hid', List.ne_nil_of_mem hinfo, hid ▸ hallowed⟩

/-- Two Relays enrol, the second with the smaller name; after a restart the second repeats its claim
    and is told of them in the other order. -/
theorem maps_of_one_revision_differ_in_order : ∃ (w : World) (m m' : NodeMap),
    (control (platform []) controlKey).Reachable w ∧ m ∈ w.history.maps ∧ m' ∈ w.history.maps ∧
      m.revision = m'.revision ∧ m.recipientId = m'.recipientId ∧ m.relays ≠ m'.relays := by
  obtain ⟨w, hr, hcheck⟩ := World.exists_after controlKey (fun _ _ _ => True)
    ([.start relayCa] ++
      enrolRelay (platform []) controlKey nodeKey "b" "https://relay-b.example/" ++
      enrolRelay (platform []) controlKey otherKey "a" "https://relay-a.example/" ++
      [.crash, .start relayCa,
        .operate (claimRequest (platform []) controlKey otherKey 0 "invite-a") "claim-a-again"])
    (fun w => w.history.maps.any (fun m => w.history.maps.any (fun m' =>
      m.revision = m'.revision && m.recipientId = m'.recipientId && m.relays ≠ m'.relays)))
    (by decide +kernel)
  obtain ⟨m, hm, hcheck⟩ := List.any_eq_true.1 hcheck
  obtain ⟨m', hm', hcheck⟩ := List.any_eq_true.1 hcheck
  simp only [Bool.and_eq_true, decide_eq_true_eq] at hcheck
  exact ⟨w, m, m', hr, hm, hm', hcheck.1.1, hcheck.1.2, hcheck.2⟩

end Example

end AgentScale.Control
