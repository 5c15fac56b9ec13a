import AgentScale.Deployment.Fleet

set_option autoImplicit false

/-! # Control, Clients and Edges agree

What the nodes make of the stream of topologies that Control publishes. An Edge serves the owner of the
revision it runs on and nobody else (`sessions_belong_to_registered_owner`); it does not fall back
behind what it has cached (`replaced_owner_stays_out`); a Client and an Edge at the same revision agree
about each other (`client_and_edge_agree`); and an Edge that is behind accepts what Control tells it
(`edge_catches_up`). -/

namespace AgentScale

open Checked ControlApi Control Transition

variable {P : Platform} {ι κ : Type} [DecidableEq ι] [DecidableEq κ] {key : SecretKey}
  {f f' : Fleet P ι κ}

/-! ## What an Edge that follows Control runs on -/

/-- The Edge follows the Control with the given key, on the map of the given profile. -/
structure Edge.Agent.Follows (key : SecretKey) (a : Edge.Agent P) (p : Edge.Process P)
    (watch : Edge.ControlWatch) : Prop where
  running : a.process = some p
  watched : p.watch = some watch
  control : watch.profile.controlId = (key.public P).text

/-! ## A run in which an edge changes hands -/

section Example

open Reference

/-- The edge `e` enrolls, runs and serves its owner `a`; it is transferred to `b`, who has enrolled as
    well; both of them hear of it. -/
def transferEdge : List (Fleet.Event (platform [])) :=
  (enrolEdge (platform []) controlKey nodeKey otherKey).map .control ++
    [.control (.operate (fun _ => .localAdmin (.inviteClient "b" 3600)) "invite-b"),
      .control (.operate (claimRequest (platform []) controlKey controlKey 0 "invite-b") "claim-b"),
      .join "invite-e", .start, .connect (Edge.connectionOf 0 nodeKey),
      .control (.operate (fun _ => .localAdmin (.transferEdge "a/e" "b")) "move-e"),
      .control (.operate (fun _ => .watch (watchRequest (platform []) otherKey 0 0) false) "watch-e"),
      .control (.operate (fun _ => .watch (watchRequest (platform []) controlKey 0 0) false) "watch-b"),
      .hear,
      .client (fun signed => .begin (.join
        ⟨"b", "https://control.example/", publicKey controlKey, "agents", signed⟩)),
      .respond, .client (fun _ => .commit)]

/-- What the run leads to: the edge runs on the map of revision 7, in which `b` is its owner. -/
structure Transferred (f f' : Fleet (platform []) Unit Unit) (profile : Edge.ControlProfile)
    (p : Edge.Process (platform [])) (watch : Edge.ControlWatch) (config : Client.Config) (control : Client.ControlCfg)
    (s : ControlState) : Prop where
  cached : profile.map.map.revision = 7
  followed : watch.profile.controlId = publicKey controlKey
  revision : watch.profile.map.map.revision = 7 ∧ control.map.map.revision = 7 ∧ s.revision = 7
  keys : (f.edges ()).key = otherKey ∧ (f'.edges ()).key = otherKey ∧ (f'.clients ()).key = controlKey
  sessions : p.service.sessions =
    [⟨Edge.connectionOf 1 controlKey, false, false⟩, ⟨Edge.connectionOf 0 nodeKey, true, false⟩]
  ours : control.controlId = publicKey controlKey
  listed : ∃ edge ∈ config.edges, edge.managed = true ∧ edge.endpointId = publicKey otherKey
  allowed : control.map.map.allowedClients = []
  replaced : ∀ m ∈ f'.control.history.maps, m.recipientId = publicKey otherKey → 7 ≤ m.revision →
    m.allowedClients ≠ [publicKey nodeKey]
  registered : ∃ edge ∈ s.edges, edge.endpointId = publicKey otherKey ∧
    edge.ownerId = publicKey controlKey
  relays : s.relays = []

instance (f f' : Fleet (platform []) Unit Unit) (profile : Edge.ControlProfile)
    (p : Edge.Process (platform [])) (watch : Edge.ControlWatch) (config : Client.Config) (control : Client.ControlCfg)
    (s : ControlState) : Decidable (Transferred f f' profile p watch config control s) :=
  decidable_of_iff
    (profile.map.map.revision = 7 ∧
      watch.profile.controlId = publicKey controlKey ∧
      (watch.profile.map.map.revision = 7 ∧ control.map.map.revision = 7 ∧ s.revision = 7) ∧
      ((f.edges ()).key = otherKey ∧ (f'.edges ()).key = otherKey ∧
        (f'.clients ()).key = controlKey) ∧
      p.service.sessions = [⟨Edge.connectionOf 1 controlKey, false, false⟩,
        ⟨Edge.connectionOf 0 nodeKey, true, false⟩] ∧
      control.controlId = publicKey controlKey ∧
      (∃ edge ∈ config.edges, edge.managed = true ∧ edge.endpointId = publicKey otherKey) ∧
      control.map.map.allowedClients = [] ∧
      (∀ m ∈ f'.control.history.maps, m.recipientId = publicKey otherKey → 7 ≤ m.revision →
        m.allowedClients ≠ [publicKey nodeKey]) ∧
      (∃ edge ∈ s.edges, edge.endpointId = publicKey otherKey ∧
        edge.ownerId = publicKey controlKey) ∧
      s.relays = [])
    ⟨fun ⟨a, b, c, d, e, f, g, h, i, j, k⟩ => ⟨a, b, c, d, e, f, g, h, i, j, k⟩,
      fun ⟨a, b, c, d, e, f, g, h, i, j, k⟩ => ⟨a, b, c, d, e, f, g, h, i, j, k⟩⟩

/-- The check of `Transferred` on what the nodes of a fleet hold. -/
def transferred (f f' : Fleet (platform []) Unit Unit) : Bool :=
  (f.edges ()).controlJson.any (fun profile =>
    (f'.edges ()).process.any (fun p => p.watch.any (fun watch =>
      (f'.clients ()).file.any (fun config => config.control.any (fun control =>
        f'.control.process.any (fun s => Transferred f f' profile p watch config control s))))))

theorem exists_transferred : ∃ f f' profile p watch config control s,
    (fleet (platform []) controlKey Unit Unit).Reachable f ∧
      (fleet (platform []) controlKey Unit Unit).Steps f f' ∧
      (f.edges ()).controlJson = some profile ∧ (f'.edges ()).Follows controlKey p watch ∧
      (f'.clients ()).file = some config ∧ config.control = some control ∧
      f'.control.process = some s ∧
      Transferred f f' profile p watch config control s := by
  have hafter := Fleet.exists_after controlKey otherKey controlKey transferEdge
    [.connect (Edge.connectionOf 1 controlKey)] transferred (by decide +kernel)
  obtain ⟨f, f', hr, hsteps, hcheck⟩ := hafter
  obtain ⟨profile, hprofile, hcheck⟩ := (Option.any_eq_true _ _).1 hcheck
  obtain ⟨p, hrun, hcheck⟩ := (Option.any_eq_true _ _).1 hcheck
  obtain ⟨watch, hwatch, hcheck⟩ := (Option.any_eq_true _ _).1 hcheck
  obtain ⟨config, hfile, hcheck⟩ := (Option.any_eq_true _ _).1 hcheck
  obtain ⟨control, hcontrol, hcheck⟩ := (Option.any_eq_true _ _).1 hcheck
  obtain ⟨s, hs, hcheck⟩ := (Option.any_eq_true _ _).1 hcheck
  have h := of_decide_eq_true hcheck
  exact ⟨f, f', profile, p, watch, config, control, s, hr, hsteps, hprofile,
    ⟨hrun, hwatch, h.followed⟩, hfile, hcontrol, hs, h⟩

end Example

/-! ## Who is served -/

omit [DecidableEq ι] [DecidableEq κ] in
/-- The map an Edge runs on, and who may connect. -/
theorem Fleet.Informed.follows (h : f.Informed key) {i : ι} {p : Edge.Process P}
    {watch : Edge.ControlWatch} (hfollows : (f.edges i).Follows key p watch) :
    watch.profile.map.map ∈ f.control.history.maps ∧
      watch.profile.map.map.recipientId = ((f.edges i).key.public P).text ∧ p.Allows watch := by
  obtain ⟨hinformed, hallows, _⟩ :=
    (h.edges i).watched p watch hfollows.running hfollows.watched
  refine ⟨hinformed.source (key.public P) ?_ rfl, hinformed.recipient, hallows⟩
  rw [hfollows.control, parseEndpointId_text]

/-- Whoever an Edge lets in is the one client its map allows. -/
theorem allowed_of_authorized {l : Ledger} {topology : Nat → ControlState} {p : Edge.Process P}
    {watch : Edge.ControlWatch} (hpublished : Published P key l topology)
    (hsigned : watch.profile.map.map ∈ l.history.maps) (hallows : p.Allows watch)
    {client : EndpointId P} (hclient : p.service.pin.auth.IsAuthorized client) :
    watch.profile.map.map.allowedClients = [client.text] := by
  rcases hallows with ⟨_, allowed, hparse, hpin⟩ | ⟨hpin, _⟩
  · rw [hpin] at hclient
    have hmem : some client ∈ watch.profile.map.map.allowedClients.map (parseEndpointId P) := by
      rw [Edge.parseClients_eq_ok.1 hparse]
      exact List.mem_map_of_mem hclient
    obtain ⟨x, hx, hparsed⟩ := List.mem_map.1 hmem
    -- the owner is named in canonical form, so the text is the client's own
    rw [parseEndpointId_of_canonical (hpublished.allowed_canonical hsigned hx)] at hparsed
    cases hparsed
    obtain ⟨_, hreflects⟩ := hpublished.maps _ hsigned
    exact (hreflects.owner_of_allowed hx).1
  · rw [hpin] at hclient
    cases hclient

omit [DecidableEq ι] [DecidableEq κ] in
/-- An open session belongs to a client that may connect. -/
theorem Fleet.Informed.session_authorized (h : f.Informed key) {i : ι} {p : Edge.Process P}
    (hrun : (f.edges i).process = some p) {x : Edge.Session P} (hx : x ∈ p.service.sessions)
    (hopen : x.closed = false) : p.service.pin.auth.IsAuthorized x.connection.remoteId := by
  have hsound := Edge.Service.sound_of_reachable ((h.edges i).served p hrun)
  exact hsound.allowed _ (hsound.recorded x hx hopen)

/-- **Sessions belong to the registered owner.** Every open session of an Edge that follows Control is
    one of the client that Control has named as the owner of this Edge in the map the Edge runs on; if
    this map is of the current revision, it is the owner in Control's state. -/
theorem sessions_belong_to_registered_owner (hf : (fleet P key ι κ).Reachable f) {i : ι}
    {p : Edge.Process P} {watch : Edge.ControlWatch} (hfollows : (f.edges i).Follows key p watch)
    {x : Edge.Session P} (hx : x ∈ p.service.sessions) (hopen : x.closed = false) :
    watch.profile.map.map ∈ f.control.history.maps ∧
      watch.profile.map.map.recipientId = ((f.edges i).key.public P).text ∧
      watch.profile.map.map.allowedClients = [x.connection.remoteId.text] ∧
      ∀ s, f.control.Shows s → s.revision = watch.profile.map.map.revision →
        ∃ edge ∈ s.edges, edge.endpointId = ((f.edges i).key.public P).text ∧
          edge.ownerId = x.connection.remoteId.text := by
  have hinformed := Fleet.informed_of_reachable hf
  obtain ⟨hsigned, hrecipient, hallows⟩ := hinformed.follows hfollows
  obtain ⟨l, hl, href⟩ := exists_ledger (Fleet.control_reachable hf)
  obtain ⟨topology, hpublished⟩ := Ledger.published_of_reachable hl
  have hsigned' : watch.profile.map.map ∈ l.history.maps := href.history ▸ hsigned
  have hallowed := allowed_of_authorized hpublished hsigned' hallows
    (hinformed.session_authorized hfollows.running hx hopen)
  refine ⟨hsigned, hrecipient, hallowed, ?_⟩
  intro s hshows hcurrent
  obtain ⟨hsame, _⟩ := hshows.represents href
  obtain ⟨_, hreflects⟩ := hpublished.maps _ hsigned'
  rw [← hcurrent, hsame.revision] at hreflects
  have hreflects' := (hreflects.congr hpublished.current).congr (.of_same hsame.symm)
  obtain ⟨_, site, hsite, hid, howner⟩ :=
    hreflects'.owner_of_allowed (hallowed ▸ List.mem_singleton_self _)
  obtain ⟨edge, hedge, rfl⟩ := List.mem_map.1 hsite
  exact ⟨edge, hedge, hid.trans hrecipient, howner⟩

open Reference in
/-- The open session on the transferred edge is the new owner's. -/
theorem session_belongs_to_new_owner : ∃ (f : Fleet (platform []) Unit Unit)
    (p : Edge.Process (platform [])) (watch : Edge.ControlWatch) (x : Edge.Session (platform [])),
    (fleet (platform []) controlKey Unit Unit).Reachable f ∧
      (f.edges ()).Follows controlKey p watch ∧ x ∈ p.service.sessions ∧ x.closed = false ∧
      watch.profile.map.map.allowedClients = [publicKey controlKey] ∧
      ∃ s, f.control.Shows s ∧ ∃ edge ∈ s.edges, edge.ownerId = publicKey controlKey := by
  obtain ⟨f, f', profile, p, watch, config, control, s, hr, hsteps, hprofile, hfollows, hfile,
    hcontrol, hs, h⟩ := exists_transferred
  have hr' := hr.steps hsteps
  have hx : ⟨Edge.connectionOf 1 controlKey, false, false⟩ ∈ p.service.sessions := by
    simp [h.sessions]
  obtain ⟨_, _, hallowed, howner⟩ := sessions_belong_to_registered_owner hr' hfollows hx rfl
  obtain ⟨edge, hedge, _, howns⟩ :=
    howner s (.inl hs) (h.revision.2.2.trans h.revision.1.symm)
  exact ⟨f', p, watch, _, hr', hfollows, hx, rfl, hallowed, s, .inl hs, edge, hedge, howns⟩

/-! ## An Edge does not fall back -/

/-- What an Edge has cached of Control is never replaced by something older. -/
theorem Fleet.cached_le_of_steps (hf : (fleet P key ι κ).Reachable f)
    (hsteps : (fleet P key ι κ).Steps f f') {i : ι} {profile : Edge.ControlProfile}
    (hcached : (f.edges i).controlJson = some profile) :
    ∃ profile', (f'.edges i).controlJson = some profile' ∧ profile'.controlId = profile.controlId ∧
      profile.map.map.revision ≤ profile'.map.map.revision := by
  refine hsteps.preserves (P := fun f' => ∃ profile', (f'.edges i).controlJson = some profile' ∧
    profile'.controlId = profile.controlId ∧
      profile.map.map.revision ≤ profile'.map.map.revision) hf ?_ ⟨profile, hcached, rfl, le_rfl⟩
  rintro g g' hg ⟨current, hcurrent, hcontrol, hle⟩ hstep
  cases hstep with
  | control | client => exact ⟨current, hcurrent, hcontrol, hle⟩
  | edge j a step =>
    by_cases hj : i = j
    · subst hj
      simp only [Function.update_self]
      obtain ⟨next, hnext, hcontrol', hle'⟩ :=
        step.cached_le ((Fleet.informed_of_reachable hg).edges i) hcurrent
      exact ⟨next, hnext, hcontrol'.trans hcontrol, hle.trans hle'⟩
    · simp only [Function.update_of_ne hj]
      exact ⟨current, hcurrent, hcontrol, hle⟩

theorem Fleet.edge_key_of_steps (hsteps : (fleet P key ι κ).Steps f f') (i : ι) :
    (f'.edges i).key = (f.edges i).key := by
  induction hsteps with
  | refl => rfl
  | tail _ hlast ih =>
    cases hlast with
    | control | client => exact ih
    | edge j a step =>
      by_cases hj : i = j
      · subst hj
        simp only [Function.update_self]
        exact step.key_eq.trans ih
      · simpa only [Function.update_of_ne hj] using ih

/-- **A replaced owner stays out.** Once an Edge has cached a map, through all later crashes and
    restarts it has no open session of a client that Control has not named as its owner in any map of
    this revision or a later one. -/
theorem replaced_owner_stays_out (hf : (fleet P key ι κ).Reachable f)
    (hsteps : (fleet P key ι κ).Steps f f') {i : ι} {profile : Edge.ControlProfile}
    (hcached : (f.edges i).controlJson = some profile) {client : EndpointId P}
    (hreplaced : ∀ m ∈ f'.control.history.maps, m.recipientId = ((f.edges i).key.public P).text →
      profile.map.map.revision ≤ m.revision → m.allowedClients ≠ [client.text])
    {p : Edge.Process P} {watch : Edge.ControlWatch} (hfollows : (f'.edges i).Follows key p watch) :
    ∀ x ∈ p.service.sessions, x.connection.remoteId = client → x.closed = true := by
  intro x hx hclient
  have hf' := hf.steps hsteps
  have hinformed := Fleet.informed_of_reachable hf'
  by_contra hopen
  rw [Bool.not_eq_true] at hopen
  obtain ⟨hsigned, hrecipient, hallows⟩ := hinformed.follows hfollows
  obtain ⟨l, hl, href⟩ := exists_ledger (Fleet.control_reachable hf')
  obtain ⟨topology, hpublished⟩ := Ledger.published_of_reachable hl
  have hallowed := allowed_of_authorized hpublished (href.history ▸ hsigned) hallows
    (hinformed.session_authorized hfollows.running hx hopen)
  -- what the Edge runs on is no older than its cache, which is no older than it was
  obtain ⟨cached, hcached', _, hle⟩ := Fleet.cached_le_of_steps hf hsteps hcached
  obtain ⟨_, _, _, _, cached', hcached'', _, hrunning⟩ :=
    (hinformed.edges i).watched p watch hfollows.running hfollows.watched
  cases hcached'.symm.trans hcached''
  refine hreplaced _ hsigned ?_ (hle.trans hrunning) (hclient ▸ hallowed)
  rw [hrecipient, Fleet.edge_key_of_steps hsteps i]

open Reference in
/-- The session of the old owner has been closed. -/
theorem session_of_replaced_owner_is_closed : ∃ (f f' : Fleet (platform []) Unit Unit)
    (profile : Edge.ControlProfile) (p : Edge.Process (platform [])) (watch : Edge.ControlWatch),
    (fleet (platform []) controlKey Unit Unit).Reachable f ∧
      (fleet (platform []) controlKey Unit Unit).Steps f f' ∧
      (f.edges ()).controlJson = some profile ∧ (f'.edges ()).Follows controlKey p watch ∧
      (∃ x ∈ p.service.sessions, x.connection.remoteId = nodeKey.public _) ∧
      ∀ x ∈ p.service.sessions, x.connection.remoteId = nodeKey.public _ → x.closed = true := by
  obtain ⟨f, f', profile, p, watch, config, control, s, hr, hsteps, hprofile, hfollows, hfile,
    hcontrol, hs, h⟩ := exists_transferred
  refine ⟨f, f', profile, p, watch, hr, hsteps, hprofile, hfollows,
    ⟨⟨Edge.connectionOf 0 nodeKey, true, false⟩, by simp [h.sessions], rfl⟩, ?_⟩
  refine replaced_owner_stays_out hr hsteps hprofile ?_ hfollows
  rw [h.keys.1, h.cached]
  exact h.replaced

/-! ## A Client and an Edge agree -/

omit [DecidableEq ι] [DecidableEq κ] in
/-- The map a Client has stored of Control. -/
theorem Fleet.Informed.stored (h : f.Informed key) {k : κ} {config : Client.Config}
    {control : Client.ControlCfg} (hfile : (f.clients k).file = some config)
    (hcontrol : config.control = some control) (hours : control.controlId = (key.public P).text) :
    control.map.map ∈ f.control.history.maps ∧
      control.map.map.recipientId = ((f.clients k).key.public P).text := by
  obtain ⟨hrecipient, hsource⟩ := (h.clients k).stored config hfile control hcontrol
  refine ⟨hsource (key.public P) ?_ rfl, hrecipient⟩
  rw [hours, parseEndpointId_text]

/-- **A Client and an Edge agree.** When both have heard of the same revision, an Edge that the Client's
    configuration lists lets this Client in and nobody else, unless its enrollment has been revoked; and
    if the Edge serves the Client, the Client's map lists the Edge, unless the Client is itself
    registered as an Edge. -/
theorem client_and_edge_agree (hf : (fleet P key ι κ).Reachable f) {k : κ} {config : Client.Config}
    {control : Client.ControlCfg} (hfile : (f.clients k).file = some config)
    (hcontrol : config.control = some control) (hours : control.controlId = (key.public P).text)
    {i : ι} {p : Edge.Process P} {watch : Edge.ControlWatch}
    (hfollows : (f.edges i).Follows key p watch)
    (hrevision : control.map.map.revision = watch.profile.map.map.revision) :
    (∀ edge ∈ config.edges, edge.managed = true →
      edge.endpointId = ((f.edges i).key.public P).text →
      p.service.pin.auth = .managed [(f.clients k).key.public P] ∨
        p.service.pin.auth = .managed [] ∧ watch.running = false) ∧
    ∀ x ∈ p.service.sessions, x.closed = false →
      x.connection.remoteId = (f.clients k).key.public P → control.map.map.allowedClients = [] →
      ∃ info ∈ control.map.map.edges, info.endpointId = ((f.edges i).key.public P).text := by
  have hinformed := Fleet.informed_of_reachable hf
  obtain ⟨hsigned, hrecipient, hallows⟩ := hinformed.follows hfollows
  obtain ⟨hstored, hclient⟩ := hinformed.stored hfile hcontrol hours
  obtain ⟨l, hl, href⟩ := exists_ledger (Fleet.control_reachable hf)
  obtain ⟨topology, hpublished⟩ := Ledger.published_of_reachable hl
  rw [← href.history] at hsigned hstored
  -- both maps show the topology of the one revision
  obtain ⟨_, hreflects⟩ := hpublished.maps _ hsigned
  obtain ⟨hle, hreflects'⟩ := hpublished.maps _ hstored
  rw [hrevision] at hreflects' hle
  constructor
  · intro edge hedge hmanaged hid
    have hsound := Client.Topology.sound_of_reachable (Fleet.client_reachable hf k)
    obtain ⟨control', hcontrol', info, hinfo, _, hinfoId⟩ :=
      hsound.stored config hfile edge hedge hmanaged
    cases hcontrol.symm.trans hcontrol'
    obtain ⟨site, hsite, hsiteId, howner⟩ := hreflects'.site_of_listed hinfo
    have hallowed := hreflects.allowed_of_site hsite
      (hsiteId.trans (hinfoId.trans (hid.trans hrecipient.symm)))
    rcases hallows with ⟨_, allowed, hparse, hpin⟩ | hrevoked
    · left
      rw [Edge.parseClients_eq_ok, hallowed, howner, hclient] at hparse
      rw [hpin]
      have hone : [some ((f.clients k).key.public P)] = allowed.map some := by
        simpa using hparse
      obtain ⟨id, rfl, hid⟩ := List.map_eq_singleton_iff.1 hone.symm
      rw [Option.some.inj hid]
    · exact .inr hrevoked
  · intro x hx hopen hremote hrole
    have hallowed := allowed_of_authorized hpublished hsigned hallows
      (hinformed.session_authorized hfollows.running hx hopen)
    rw [hremote] at hallowed
    obtain ⟨_, site, hsite, hsiteId, howner⟩ :=
      hreflects.owner_of_allowed (hallowed ▸ List.mem_singleton_self _)
    obtain ⟨info, hinfo, hinfoId⟩ := hreflects'.listed_of_site (hpublished.wellFormed _ hle) hsite
      (howner.trans hclient.symm) hrole
    exact ⟨info, hinfo, hinfoId.trans (hsiteId.trans hrecipient)⟩

open Reference in
/-- The new owner lists the edge, and the edge lets the new owner in. -/
theorem new_owner_and_edge_agree : ∃ (f : Fleet (platform []) Unit Unit)
    (p : Edge.Process (platform [])) (watch : Edge.ControlWatch) (config : Client.Config)
    (control : Client.ControlCfg), (fleet (platform []) controlKey Unit Unit).Reachable f ∧
      (f.clients ()).file = some config ∧ config.control = some control ∧
      (f.edges ()).Follows controlKey p watch ∧
      control.map.map.revision = watch.profile.map.map.revision ∧
      (p.service.pin.auth = .managed [controlKey.public _] ∨
        p.service.pin.auth = .managed [] ∧ watch.running = false) ∧
      ∃ info ∈ control.map.map.edges, info.endpointId = publicKey otherKey := by
  obtain ⟨f, f', profile, p, watch, config, control, s, hr, hsteps, hprofile, hfollows, hfile,
    hcontrol, hs, h⟩ := exists_transferred
  have hr' := hr.steps hsteps
  have hrevision := h.revision.2.1.trans h.revision.1.symm
  obtain ⟨hadmits, hlists⟩ := client_and_edge_agree hr' hfile hcontrol h.ours hfollows hrevision
  obtain ⟨edge, hedge, hmanaged, hid⟩ := h.listed
  rw [h.keys.2.1, h.keys.2.2] at hadmits
  rw [h.keys.2.1, h.keys.2.2] at hlists
  exact ⟨f', p, watch, config, control, hr', hfile, hcontrol, hfollows, hrevision,
    hadmits edge hedge hmanaged hid,
    hlists ⟨Edge.connectionOf 1 controlKey, false, false⟩ (by simp [h.sessions]) rfl rfl h.allowed⟩

/-! ## An Edge catches up -/

variable {s : ControlState}

theorem roleOf_of_edge (hk : s.Keyed) {edge : EdgeRecord} (hedge : edge ∈ s.edges) :
    roleOf s edge.endpointId = some (.edge edge) := by
  unfold roleOf
  rw [(Keyed.lookup_eq_some hk.edges).2 ⟨hedge, rfl⟩]

theorem signedMap_of_edge (hk : s.Keyed) {edge : EdgeRecord} (hedge : edge ∈ s.edges)
    {recipient : EndpointId P} (hid : edge.endpointId = recipient.text) {now : Int}
    {signed : SignedNodeMap} (h : signedMap P s key now recipient = .ok signed) :
    ∃ token, signed =
      SignedNodeMap.sign P (nodeMap P s key now recipient (.edge edge) (some token)) key := by
  obtain ⟨role, hrole, h⟩ := of_bind h
  obtain ⟨credential, hcredential, h⟩ := of_bind h
  rw [okOr_eq_ok, ← hid, roleOf_of_edge hk hedge] at hrole
  cases hrole
  obtain ⟨token, _, htoken⟩ := of_bind hcredential
  cases htoken
  exact ⟨token, (pure_eq_ok.1 h).symm⟩

theorem verify_sign {map : NodeMap} {recipient : EndpointId P}
    (hversion : map.protocolVersion = CONTROL_PROTOCOL_VERSION)
    (hcontrol : map.controlId = (key.public P).text) (hrecipient : map.recipientId = recipient.text) :
    (SignedNodeMap.sign P map key).verify P (key.public P) recipient = .ok () :=
  bind_ok (ensure_of hversion) (bind_ok (ensure_of hcontrol)
    (bind_ok (ensure_of hrecipient) (ensure_of (P.verify_sign key _))))

/-- The deployment a node has been told of keeps its names. -/
theorem Fleet.names_of_steps (hf : (fleet P key ι κ).Reachable f) (hs : f.control.process = some s)
    (hsteps : (fleet P key ι κ).Steps f f') {m : NodeMap} (hm : m ∈ f'.control.history.maps) :
    m.audience = s.audience ∧ m.controlUrl = s.publicUrl := by
  obtain ⟨l, hl, href⟩ := exists_ledger (Fleet.control_reachable hf)
  obtain rfl := href.process s hs
  obtain ⟨l', hsteps', href'⟩ := (control_simulates_ledger P key).steps
    (Fleet.control_reachable hf) hl href (Fleet.control_steps hsteps)
  obtain ⟨topology, hpublished⟩ := Ledger.published_of_reachable (hl.steps hsteps')
  obtain ⟨haudience, hurl⟩ := hpublished.map_names (href'.history ▸ hm)
  obtain ⟨hsame, hsameUrl⟩ := Ledger.names_of_steps hsteps'
  exact ⟨haudience.trans hsame, hurl.trans hsameUrl⟩

/-- **An Edge catches up.** The map that Control signs for a registered Edge exists, answers every
    verified and timely watch of this Edge that has renewed its credential or is behind, is the only
    map a watch of this Edge is answered with, and, if the URLs of the registered Relays parse, is
    accepted whenever it arrives and finds the Edge on no newer map: from then on the owner is let in
    and nobody else. -/
theorem edge_catches_up (hf : (fleet P key ι κ).Reachable f) {s : ControlState}
    (hs : f.control.process = some s) {i : ι} {edge : EdgeRecord} (hedge : edge ∈ s.edges)
    (hid : edge.endpointId = ((f.edges i).key.public P).text) :
    ∃ signed owner, signedMap P s key f.control.clock ((f.edges i).key.public P) = .ok signed ∧
      signed.map.revision = s.revision ∧ owner.text = edge.ownerId ∧
      (∀ amb request renewed, amb.clock = f.control.clock →
        request.verify P = .ok ((f.edges i).key.public P) →
        checkTime request.issuedAt amb.received = .ok () →
        -- the wait looks at a state of its own, and finds the Edge registered and behind there
        (renewed = true ∨ amb.earlier.edges.any (·.endpointId = edge.endpointId) ∧
          request.knownRevision < amb.earlier.revision) →
        Control.watch P key amb request renewed s = .ok (some signed)) ∧
      (∀ amb request renewed answer, amb.clock = f.control.clock →
        request.verify P = .ok ((f.edges i).key.public P) →
        Control.watch P key amb request renewed s = .ok (some answer) → answer = signed) ∧
      ((∀ relay ∈ s.relays, (P.parseUrl relay.url).isSome = true) →
        ∀ f', (fleet P key ι κ).Steps f f' → ∀ p watch, (f'.edges i).Follows key p watch →
        watch.profile.map.map.revision ≤ s.revision → ∀ persisted, ∃ p' watch',
          ((f'.edges i).respond p watch (.map signed) persisted).process = some p' ∧
          p'.watch = some watch' ∧ watch'.profile.map = signed ∧
          p'.service.pin.auth = .managed [owner]) := by
  obtain ⟨l, hl, href⟩ := exists_ledger (Fleet.control_reachable hf)
  obtain rfl := href.process s hs
  have hwf := Ledger.wellFormed_of_reachable hl
  have hregistered : Registered l.state ((f.edges i).key.public P).text :=
    .inr (.inl ⟨edge, hedge, hid⟩)
  obtain ⟨signed, hsigned⟩ := signedMap_succeeds hwf key f.control.clock hregistered
  obtain ⟨token, hform⟩ := signedMap_of_edge hwf.keyed hedge hid hsigned
  obtain ⟨client, hclient, howner⟩ := hwf.owners edge hedge
  have hcanonical : Canonical P edge.ownerId :=
    howner ▸ (Ledger.accounted_of_reachable hl).canonical _
      (mem_registrations.2 (.inl ⟨client, hclient, rfl⟩))
  have hverify : signed.verify P (key.public P) ((f.edges i).key.public P) = .ok () :=
    hform ▸ verify_sign rfl rfl rfl
  have hmap : signed.map = nodeMap P l.state key f.control.clock ((f.edges i).key.public P)
      (.edge edge) (some token) := congrArg SignedNodeMap.map hform
  have hallowed : signed.map.allowedClients.map (parseEndpointId P) =
      [(⟨edge.ownerId, hcanonical⟩ : EndpointId P)].map some := by
    rw [hmap]
    exact congrArg (fun id => [id]) (parseEndpointId_of_canonical hcanonical)
  refine ⟨signed, ⟨edge.ownerId, hcanonical⟩, hsigned, congrArg NodeMap.revision hmap, rfl, ?_, ?_,
    ?_⟩
  · intro amb request renewed hclock hrequest htime hready
    refine watch_of_ready hrequest htime ?_ (hclock ▸ hsigned)
    obtain rfl | ⟨hearlier, hbehind⟩ := hready
    · rfl
    · exact watchReady_of_behind renewed (.inr (hid ▸ hearlier)) hbehind
  · intro amb request renewed answer hclock hrequest hanswer
    obtain ⟨recipient, hrequest', hsigned'⟩ := watch_eq_ok hanswer
    cases hrequest.symm.trans hrequest'
    rw [hclock] at hsigned'
    exact Except.ok.inj (hsigned'.symm.trans hsigned)
  intro hrelays f' hsteps p watch hfollows hrevision persisted
  -- whatever has happened since, the map has the names that the Edge was told of
  have hurls : ∀ relay ∈ signed.map.relays, (P.parseUrl relay.url).isSome = true := by
    rw [hmap]
    intro relay hrelay
    obtain ⟨record, hrecord, rfl⟩ := List.mem_map.1 hrelay
    exact hrelays record hrecord
  have hinformed := Fleet.informed_of_reachable (hf.steps hsteps)
  obtain ⟨hknown, _, hallows⟩ := hinformed.follows hfollows
  obtain ⟨_, _, haudience, hurl, _⟩ :=
    (hinformed.edges i).watched p watch hfollows.running hfollows.watched
  obtain ⟨hsameAudience, hsameUrl⟩ := Fleet.names_of_steps hf hs hsteps hknown
  have hvalid : watch.validate P (f'.edges i).key signed = .ok () := by
    refine Edge.ControlWatch.validate_eq_ok.2 ⟨key.public P, ?_, ?_, ?_, ?_⟩
    · rw [hfollows.control, parseEndpointId_text]
    · rw [Fleet.edge_key_of_steps hsteps i]
      exact hverify
    · rw [hmap]
      exact hrevision
    · rw [hmap]
      exact ⟨hsameAudience.symm.trans haudience, hsameUrl.symm.trans hurl⟩
  obtain ⟨ids, hids⟩ := hallows.managed
  obtain ⟨service, relays, happly, hpin⟩ := Edge.applyControlMap_succeeds hids watch.currentRelays
    (congrArg NodeMap.relayCredential hmap) hurls hallowed
  refine ⟨⟨service, some { watch with
    profile := { watch.profile with map := signed }, currentRelays := relays }⟩, _, ?_, rfl, rfl, hpin⟩
  simp only [Edge.Agent.respond, hvalid, happly]

open Reference in
/-- The edge hears of its new owner once more. -/
theorem transferred_edge_catches_up : ∃ (f : Fleet (platform []) Unit Unit) (s : ControlState)
    (p : Edge.Process (platform [])) (watch : Edge.ControlWatch) (signed : SignedNodeMap),
    (fleet (platform []) controlKey Unit Unit).Reachable f ∧ f.control.process = some s ∧
      (f.edges ()).Follows controlKey p watch ∧
      signedMap (platform []) s controlKey f.control.clock (otherKey.public _) = .ok signed ∧
      ∃ p' watch', ((f.edges ()).respond p watch (.map signed) true).process = some p' ∧
        p'.watch = some watch' ∧ watch'.profile.map = signed ∧
        p'.service.pin.auth = .managed [controlKey.public _] := by
  obtain ⟨f, f', profile, p, watch, config, control, s, hr, hsteps, hprofile, hfollows, hfile,
    hcontrol, hs, h⟩ := exists_transferred
  have hr' := hr.steps hsteps
  obtain ⟨edge, hedge, hid, howner⟩ := h.registered
  obtain ⟨signed, owner, hsigned, _, howns, _, _, hhears⟩ := edge_catches_up hr' hs hedge
    (hid.trans (by rw [h.keys.2.1]; rfl))
  obtain rfl : owner = controlKey.public _ := EndpointId.ext_text (howns.trans howner)
  rw [h.keys.2.1] at hsigned
  exact ⟨f', s, p, watch, signed, hr', hs, hfollows, hsigned,
    hhears (by simp [h.relays]) f' .refl p watch hfollows (h.revision.1.trans h.revision.2.2.symm).le true⟩

end AgentScale
