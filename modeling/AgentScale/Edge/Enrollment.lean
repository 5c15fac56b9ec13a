import AgentScale.Edge.Agent

set_option autoImplicit false

/-! # Enrollment of an Edge

`join_control` makes the profile in `control.json` from an invitation and from Control's answer to the
claim. From then on everything an Edge learns about its clients comes from signed maps: the cached one
at each start, and those of the watch. `Agent.Hears` are the steps of one state directory in which
every map that arrives meets a condition; what the Edge knows then goes back to maps that meet the
condition (`Agent.Informed`). -/

namespace AgentScale.Edge

open Checked Transition ControlApi

variable {P : Platform}

/-! ## Joining -/

/-- What comes back for a claim, as far as `join_control` tells answers apart. -/
inductive ClaimResponse where
  | rejected (status body : String)
  | undecodable
  | joined (result : JoinResult)
  | failed

/-- `who_dir`: the names that can be a state directory. -/
def whoDir (who : String) : Except String Unit :=
  ensure (who ≠ "" ∧ who ≠ "." ∧ who ≠ ".." ∧ '/' ∉ who.toList ∧ '\\' ∉ who.toList) "invalid WHO"

variable (P) in
/-- `join_control` up to the profile it stores. `enrolled` says that `control.json` exists. -/
def joinControl (key : SecretKey) (enrolled : Bool) (token : JoinToken) (response : ClaimResponse) :
    Except String ControlProfile := do
  let controlId ← token.verify P
  match token.invite.kind with
  | .edge _ => do
    let who := token.invite.name
    whoDir who
    ensure (enrolled = false) ("edge '" ++ who ++ "' is already enrolled in control")
    match response with
    | .failed => .error "claim edge invitation"
    | .rejected status body =>
      .error ("control rejected edge claim (" ++ status ++ "): " ++ body)
    | .undecodable => .error "decode edge join response"
    | .joined result => do
      result.map.verify P controlId (key.public P)
      return {
        schemaVersion := 1
        name := who
        controlUrl := token.invite.controlUrl
        controlId := controlId.text
        audience := token.invite.audience
        endpointId := (key.public P).text
        map := result.map }
  | _ => .error "this invitation is not for an edge"

/-- The state directory after `persist_profile`, however that went. -/
def Agent.store (a : Agent P) (profile : ControlProfile) (write : WriteOutcome) : Agent P :=
  match write with
  | .failed _ => a
  | .written | .unsynced _ => { a with controlJson := some profile, revoked := false }

/-- One step of a state directory that is neither removed nor given another key, in which every map
    that comes from outside is `genuine`. -/
inductive Agent.Hears (genuine : SignedNodeMap → Prop) : Agent P → Agent P → Prop
  | join (a : Agent P) (token : JoinToken) (response : ClaimResponse) (profile : ControlProfile)
      (write : WriteOutcome) (heard : ∀ result, response = .joined result → genuine result.map)
      (accepted : joinControl P a.key a.controlJson.isSome token response = .ok profile) :
      Hears genuine a (a.store profile write)
  | start (a a' : Agent P) (relayArgs : List String) (client : Option String)
      (stopped : a.process = none) (started : a.start relayArgs client = .ok a') : Hears genuine a a'
  | crash (a : Agent P) (p : Process P) (running : a.process = some p) :
      Hears genuine a { a with process := none, trustedClient := p.service.trustedClient }
  | connect (a : Agent P) (p : Process P) (c : Connection P) (write : WriteOutcome)
      (running : a.process = some p) (fresh : p.service.Fresh c) :
      Hears genuine a { a with process := some { p with service := p.service.connect c write } }
  | close (a : Agent P) (p : Process P) (q : Connection P → Bool) (running : a.process = some p) :
      Hears genuine a { a with process := some { p with service := p.service.close q } }
  | finish (a : Agent P) (p : Process P) (x : Session P) (running : a.process = some p)
      (mem : x ∈ p.service.sessions) (served : x.ended = false)
      (leaving : x.closed = true ∨ x.connection.alpn = .blobs) :
      Hears genuine a { a with process := some { p with service := p.service.finish x.connection } }
  | respond (a : Agent P) (p : Process P) (watch : ControlWatch) (response : WatchResponse)
      (persisted : Bool) (heard : ∀ next, response = .map next → genuine next)
      (running : a.process = some p) (watching : p.watch = some watch)
      (looping : watch.running = true) : Hears genuine a (a.respond p watch response persisted)

/-! ## What the functions check -/

theorem verify_eq_ok {signed : SignedNodeMap} {controlId recipient : EndpointId P}
    (h : signed.verify P controlId recipient = .ok ()) :
    signed.map.controlId = controlId.text ∧ signed.map.recipientId = recipient.text := by
  obtain ⟨_, _, h⟩ := of_bind h
  obtain ⟨_, hcontrol, h⟩ := of_bind h
  obtain ⟨_, hrecipient, _⟩ := of_bind h
  exact ⟨ensure_eq_ok.1 hcontrol, ensure_eq_ok.1 hrecipient⟩

variable {profile : ControlProfile}

/-- A profile is made only of a map that Control has signed for this Edge. -/
theorem joinControl_eq_ok {key : SecretKey} {enrolled : Bool} {token : JoinToken}
    {response : ClaimResponse} (h : joinControl P key enrolled token response = .ok profile) :
    enrolled = false ∧ ∃ controlId result, response = .joined result ∧ profile.map = result.map ∧
      parseEndpointId P profile.controlId = some controlId ∧
      result.map.verify P controlId (key.public P) = .ok () := by
  obtain ⟨controlId, _, h⟩ := of_bind h
  split at h
  · obtain ⟨_, _, h⟩ := of_bind h
    obtain ⟨_, hnew, h⟩ := of_bind h
    split at h
    · cases h
    · cases h
    · cases h
    · obtain ⟨_, hverify, h⟩ := of_bind h
      cases h
      exact ⟨ensure_eq_ok.1 hnew, controlId, _, rfl, rfl, parseEndpointId_text P controlId, hverify⟩
  · cases h

theorem verifyProfile_eq_ok {endpointId : EndpointId P}
    (h : verifyProfile P profile endpointId = .ok ()) :
    profile.map.map.audience = profile.audience ∧ profile.map.map.controlUrl = profile.controlUrl := by
  obtain ⟨_, _, h⟩ := of_bind h
  obtain ⟨_, _, h⟩ := of_bind h
  obtain ⟨_, _, h⟩ := of_bind h
  exact ensure_eq_ok.1 h

/-- A start takes over the cached profile, or there is none and nothing is watched. -/
theorem Agent.start_profile {a a' : Agent P} {relayArgs : List String} {client : Option String}
    (h : a.start relayArgs client = .ok a') : ∃ p, a' = { a with process := some p } ∧
      p.service.Started ∧ ∀ watch, p.watch = some watch →
        a.controlJson = some watch.profile ∧ verifyProfile P watch.profile (a.key.public P) = .ok () ∧
        ∃ error allowed, parseClients P error watch.profile.map.map.allowedClients = .ok allowed ∧
          p.service.pin.auth = .managed allowed := by
  obtain ⟨loaded, hload, h⟩ := of_bind h
  have hfile := loadControlProfile_eq_ok hload
  cases loaded with
  | none =>
    obtain ⟨_, _, h⟩ := of_bind h
    obtain ⟨pin, hpin, h⟩ := of_bind h
    refine ⟨_, (pure_eq_ok.1 h).symm, ⟨rfl, rfl, .inr ⟨client, hpin⟩⟩, ?_⟩
    intro watch hwatch
    cases hwatch
  | some profile =>
    obtain ⟨⟨pin, watch⟩, hmanaged, h⟩ := of_bind h
    obtain ⟨_, _, hmanaged⟩ := of_bind hmanaged
    obtain ⟨credential, _, hmanaged⟩ := of_bind hmanaged
    obtain ⟨_, _, hmanaged⟩ := of_bind hmanaged
    obtain ⟨_, hverify, hmanaged⟩ := of_bind hmanaged
    obtain ⟨allowed, hallowed, hmanaged⟩ := of_bind hmanaged
    cases hmanaged
    refine ⟨_, (pure_eq_ok.1 h).symm, ⟨rfl, rfl, .inl ⟨allowed, rfl⟩⟩, ?_⟩
    intro watch hwatch
    cases hwatch
    exact ⟨hfile, hverify, _, allowed, hallowed, rfl⟩

variable {watch : ControlWatch} {next : SignedNodeMap}

theorem ControlWatch.validate_eq_ok {key : SecretKey} :
    watch.validate P key next = .ok () ↔ ∃ controlId,
      parseEndpointId P watch.profile.controlId = some controlId ∧
      next.verify P controlId (key.public P) = .ok () ∧
      watch.profile.map.map.revision ≤ next.map.revision ∧
      next.map.audience = watch.profile.audience ∧ next.map.controlUrl = watch.profile.controlUrl := by
  constructor
  · intro h
    obtain ⟨controlId, hparse, h⟩ := of_bind h
    obtain ⟨_, hverify, h⟩ := of_bind h
    obtain ⟨_, hrevision, h⟩ := of_bind h
    exact ⟨controlId, okOr_eq_ok.1 hparse, hverify, ensure_eq_ok.1 hrevision, ensure_eq_ok.1 h⟩
  · rintro ⟨controlId, hparse, hverify, hrevision, hbinding⟩
    exact bind_ok (okOr_eq_ok.2 hparse) (bind_ok hverify
      (bind_ok (ensure_of hrevision) (ensure_of hbinding)))

theorem parseClients_eq_ok {error : String} {clients : List String} {allowed : List (EndpointId P)} :
    parseClients P error clients = .ok allowed ↔
      clients.map (parseEndpointId P) = allowed.map some := by
  induction clients generalizing allowed with
  | nil =>
    cases allowed with
    | nil => simp [parseClients, pure, Except.pure]
    | cons id rest => simp [parseClients, pure, Except.pure]
  | cons client clients ih =>
    refine mapM_cons_eq_ok.trans ?_
    constructor
    · rintro ⟨id, rest, hid, hrest, rfl⟩
      simpa using ⟨okOr_eq_ok.1 hid, ih.1 hrest⟩
    · intro h
      cases allowed with
      | nil => cases h
      | cons id rest =>
        obtain ⟨hid, hrest⟩ := List.cons.inj h
        exact ⟨id, rest, okOr_eq_ok.2 hid, ih.2 hrest, rfl⟩

/-- An applied map replaces the clients by those it allows. -/
theorem applyControlMap_eq_ok {s s' : Service P}
    {relays relays' : List (String × Option UInt16 × String)}
    (h : applyControlMap s relays next = .ok (s', relays')) :
    ∃ error allowed, parseClients P error next.map.allowedClients = .ok allowed ∧
      s.replaceManaged allowed = .ok s' ∧ s'.pin.auth = .managed allowed := by
  obtain ⟨_, _, h⟩ := of_bind h
  obtain ⟨_, _, h⟩ := of_bind h
  obtain ⟨allowed, hallowed, h⟩ := of_bind h
  obtain ⟨s'', hreplaced, h⟩ := of_bind h
  obtain ⟨rfl, _⟩ := Prod.mk.inj (pure_eq_ok.1 h)
  obtain ⟨_, _, _, _, _, hnext, rfl⟩ := Service.replaceManaged_eq_ok hreplaced
  exact ⟨_, allowed, hallowed, hreplaced, hnext⟩

/-- A map with a credential and with addresses and clients that parse is applied. -/
theorem applyControlMap_succeeds {s : Service P} {ids : List (EndpointId P)}
    (hpin : s.pin.auth = .managed ids) (relays : List (String × Option UInt16 × String))
    {credential : String} (hcredential : next.map.relayCredential = some credential)
    (hrelays : ∀ relay ∈ next.map.relays, (P.parseUrl relay.url).isSome = true)
    {allowed : List (EndpointId P)}
    (hallowed : next.map.allowedClients.map (parseEndpointId P) = allowed.map some) :
    ∃ s' relays', applyControlMap s relays next = .ok (s', relays') ∧
      s'.pin.auth = .managed allowed := by
  obtain ⟨s', hreplaced, hmanaged⟩ := Service.replaceManaged_of_managed hpin allowed
  have hparsed : ∀ relay ∈ (relaySettings next.map.relays credential).filter (· ∉ relays),
      ∃ url, okOr (P.parseUrl relay.1) ("invalid relay " ++ relay.1 ++ ": " ++ P.urlError relay.1) =
        .ok url := by
    intro relay hrelay
    obtain ⟨info, hinfo, rfl⟩ :=
      List.mem_map.1 (Keyed.mem_of_mem_collect (List.mem_filter.1 hrelay).1)
    obtain ⟨url, hurl⟩ := Option.isSome_iff_exists.1 (hrelays info hinfo)
    exact ⟨url, okOr_eq_ok.2 hurl⟩
  obtain ⟨urls, hurls⟩ := mapM_eq_ok.2 hparsed
  refine ⟨s', _, bind_ok (okOr_eq_ok.2 hcredential) (bind_ok hurls
    (bind_ok (parseClients_eq_ok.2 hallowed) (bind_ok hreplaced rfl))),
    hmanaged⟩

/-- What one round of the watch does, if anything. -/
theorem Agent.respond_outcome (a : Agent P) (p : Process P) (watch : ControlWatch)
    (response : WatchResponse) (persisted : Bool) :
    a.respond p watch response persisted = a ∨
    (∃ next service currentRelays, response = .map next ∧ watch.validate P a.key next = .ok () ∧
      applyControlMap p.service watch.currentRelays next = .ok (service, currentRelays) ∧
      a.respond p watch response persisted = { a with
        process := some ⟨service, some { watch with
          profile := { watch.profile with map := next }, currentRelays := currentRelays }⟩
        controlJson := if persisted then some { watch.profile with map := next } else a.controlJson
        revoked := false }) ∨
    (a.respond p watch response persisted = { a with
      process := some ⟨(p.service.replaceManaged []).toOption.getD p.service,
        some { watch with running := false }⟩
      revoked := true }) := by
  cases response with
  | noContent | undecodable | failed => exact .inl rfl
  | forbidden | gone => exact .inr (.inr rfl)
  | map next =>
    simp only [respond]
    split
    · next service currentRelays hvalid happly =>
      exact .inr (.inl ⟨next, service, currentRelays, rfl, hvalid, happly, rfl⟩)
    · exact .inl rfl

/-! ## What an Edge knows -/

/-- The map of a profile is for the given Edge and goes back to a map that meets a condition, which may
    depend on the Control that the profile names. -/
structure ControlProfile.Informed (source : EndpointId P → NodeMap → Prop) (edge : EndpointId P)
    (profile : ControlProfile) : Prop where
  source : ∀ controlId, parseEndpointId P profile.controlId = some controlId →
    source controlId profile.map.map
  recipient : profile.map.map.recipientId = edge.text

/-- The clients a managed process lets in: those of its map, or none after a revocation. -/
def Process.Allows (p : Process P) (watch : ControlWatch) : Prop :=
  (∃ error allowed, parseClients P error watch.profile.map.map.allowedClients = .ok allowed ∧
    p.service.pin.auth = .managed allowed) ∨
  p.service.pin.auth = .managed [] ∧ watch.running = false

/-- Everything the Edge knows of its clients goes back to maps from the source, and what it runs on is
    no older than what it has cached. -/
structure Agent.Informed (source : EndpointId P → NodeMap → Prop) (a : Agent P) : Prop where
  cached : ∀ profile, a.controlJson = some profile → profile.Informed source (a.key.public P)
  served : ∀ p, a.process = some p → (service P).Reachable p.service
  watched : ∀ p watch, a.process = some p → p.watch = some watch →
    watch.profile.Informed source (a.key.public P) ∧ p.Allows watch ∧
      watch.profile.map.map.audience = watch.profile.audience ∧
      watch.profile.map.map.controlUrl = watch.profile.controlUrl ∧
      ∃ profile, a.controlJson = some profile ∧ profile.controlId = watch.profile.controlId ∧
        profile.map.map.revision ≤ watch.profile.map.map.revision

variable {source source' : EndpointId P → NodeMap → Prop} {genuine : SignedNodeMap → Prop}
  {a a' : Agent P}

theorem ControlProfile.Informed.mono {edge : EndpointId P} (h : profile.Informed source edge)
    (hle : ∀ id m, source id m → source' id m) :
    profile.Informed source' edge :=
  ⟨fun id hid => hle id _ (h.source id hid), h.recipient⟩

theorem Agent.Informed.mono (h : a.Informed source) (hle : ∀ id m, source id m → source' id m) :
    a.Informed source' where
  cached := fun profile hprofile => (h.cached profile hprofile).mono hle
  served := h.served
  watched := fun p watch hrun hwatch => by
    obtain ⟨hinformed, hrest⟩ := h.watched p watch hrun hwatch
    exact ⟨hinformed.mono hle, hrest⟩

theorem ControlProfile.Informed.of_verify {edge controlId : EndpointId P}
    (hgenuine : ∀ id, profile.map.verify P id edge = .ok () → source id profile.map.map)
    (hparse : parseEndpointId P profile.controlId = some controlId)
    (hverify : profile.map.verify P controlId edge = .ok ()) : profile.Informed source edge where
  source := fun id hid => by
    cases hparse.symm.trans hid
    exact hgenuine controlId hverify
  recipient := (verify_eq_ok hverify).2

variable {p : Process P}

/-- Connections come and go without changing what the Edge knows. -/
theorem Agent.Informed.serve {next : Service P} (h : a.Informed source) (hrun : a.process = some p)
    (hstep : (service P).step p.service next)
    (hsame : ∀ ids, p.service.pin.auth = .managed ids → next.pin.auth = .managed ids) :
    Agent.Informed source { a with process := some { p with service := next } } where
  cached := h.cached
  served := by
    intro _ hp
    cases hp
    exact (h.served p hrun).step hstep
  watched := by
    intro _ watch hp hwatch
    cases hp
    obtain ⟨hinformed, hallows, hbound⟩ := h.watched p watch hrun hwatch
    refine ⟨hinformed, ?_, hbound⟩
    rcases hallows with ⟨error, allowed, hparse, hpin⟩ | ⟨hpin, hstopped⟩
    · exact .inl ⟨error, allowed, hparse, hsame allowed hpin⟩
    · exact .inr ⟨hsame [] hpin, hstopped⟩

/-- A profile that is stored while none is cached: nothing is watched yet. -/
theorem Agent.Informed.store (h : a.Informed source) (hnew : a.controlJson = none)
    (hprofile : profile.Informed source (a.key.public P)) (write : WriteOutcome) :
    (a.store profile write).Informed source := by
  have hstored : Agent.Informed source { a with controlJson := some profile, revoked := false } := by
    refine ⟨?_, h.served, ?_⟩
    · intro stored hstored
      cases hstored
      exact hprofile
    · intro p watch hrun hwatch
      obtain ⟨_, _, _, _, cached, hcached, _⟩ := h.watched p watch hrun hwatch
      cases hcached.symm.trans hnew
  cases write with
  | failed error => exact h
  | written => exact hstored
  | unsynced error => exact hstored

theorem Agent.Informed.start {relayArgs : List String} {client : Option String}
    (h : a.Informed source) (hstart : a.start relayArgs client = .ok a') : a'.Informed source := by
  obtain ⟨p, rfl, hstarted, hwatched⟩ := Agent.start_profile hstart
  refine ⟨h.cached, ?_, ?_⟩
  · intro _ hp
    cases hp
    exact ⟨_, hstarted, .refl⟩
  · intro _ watch hp hwatch
    cases hp
    obtain ⟨hfile, hverify, hallowed⟩ := hwatched watch hwatch
    obtain ⟨haudience, hurl⟩ := verifyProfile_eq_ok hverify
    exact ⟨h.cached _ hfile, .inl hallowed, haudience, hurl, watch.profile, hfile, rfl, le_rfl⟩

/-- The clients are taken away after a revocation. -/
theorem Service.replaceManaged_nil {s : Service P} {ids : List (EndpointId P)}
    (h : s.pin.auth = .managed ids) :
    (service P).step s ((s.replaceManaged []).toOption.getD s) ∧
      ((s.replaceManaged []).toOption.getD s).pin.auth = .managed [] := by
  obtain ⟨s', hs', hempty⟩ := Service.replaceManaged_of_managed h []
  rw [hs']
  exact ⟨.replaceManaged s s' [] hs', hempty⟩

theorem Process.Allows.managed (h : p.Allows watch) :
    ∃ ids, p.service.pin.auth = .managed ids := by
  rcases h with ⟨_, allowed, _, hpin⟩ | ⟨hpin, _⟩
  · exact ⟨allowed, hpin⟩
  · exact ⟨[], hpin⟩

theorem Agent.Informed.respond {response : WatchResponse} (h : a.Informed source)
    (hrun : a.process = some p) (hwatch : p.watch = some watch)
    (hgenuine : ∀ next id, response = .map next → next.verify P id (a.key.public P) = .ok () → source id next.map)
    (persisted : Bool) :
    (a.respond p watch response persisted).Informed source := by
  obtain ⟨hinformed, hallows, haudience, hurl, cached, hcached, hsameControl, hrevision⟩ :=
    h.watched p watch hrun hwatch
  rcases a.respond_outcome p watch response persisted with heq |
    ⟨next, service', currentRelays, hresponse, hvalid, happly, heq⟩ | heq
  · rw [heq]
    exact h
  · obtain ⟨controlId, hparse, hverify, hnewer, hbinding⟩ := ControlWatch.validate_eq_ok.1 hvalid
    obtain ⟨error, allowed, hallowed, hreplaced, hpin⟩ := applyControlMap_eq_ok happly
    have hprofile : ControlProfile.Informed source (a.key.public P)
        { watch.profile with map := next } :=
      .of_verify (fun id hid => hgenuine next id hresponse hid) hparse hverify
    rw [heq]
    refine ⟨?_, ?_, ?_⟩
    · intro profile hprofile'
      cases persisted with
      | true =>
        cases hprofile'
        exact hprofile
      | false => exact h.cached profile hprofile'
    · intro _ hp
      cases hp
      exact (h.served p hrun).step (.replaceManaged p.service service' allowed hreplaced)
    · intro _ _ hp hw
      cases hp
      cases hw
      refine ⟨hprofile, .inl ⟨error, allowed, hallowed, hpin⟩, hbinding.1, hbinding.2, ?_⟩
      cases persisted with
      | true => exact ⟨_, rfl, rfl, le_rfl⟩
      | false => exact ⟨cached, hcached, hsameControl, hrevision.trans hnewer⟩
  · obtain ⟨ids, hids⟩ := hallows.managed
    obtain ⟨hstep, hempty⟩ := Service.replaceManaged_nil hids
    rw [heq]
    refine ⟨h.cached, ?_, ?_⟩
    · intro _ hp
      cases hp
      exact (h.served p hrun).step hstep
    · intro _ _ hp hw
      cases hp
      cases hw
      exact ⟨hinformed, .inr ⟨hempty, rfl⟩, haudience, hurl, cached, hcached, hsameControl, hrevision⟩

/-- **One step.** An Edge that hears only genuine maps stays informed by their source. -/
theorem Agent.Informed.hears (h : a.Informed source)
    (hgenuine : ∀ next id recipient, genuine next → next.verify P id recipient = .ok () →
      source id next.map) (hstep : a.Hears genuine a') : a'.Informed source := by
  cases hstep with
  | join token response profile write heard accepted =>
    obtain ⟨hnew, controlId, result, hresponse, hmap, hparse, hverify⟩ := joinControl_eq_ok accepted
    have hheard := heard result hresponse
    rw [← hmap] at hverify hheard
    exact h.store (by simpa using hnew)
      (.of_verify (fun id hid => hgenuine _ id _ hheard hid) hparse hverify) write
  | start _ relayArgs client stopped started => exact h.start started
  | crash p running =>
    refine ⟨h.cached, ?_, ?_⟩
    · intro _ hp
      cases hp
    · intro _ _ hp
      cases hp
  | connect p c write running fresh =>
    exact h.serve running (.connect p.service c write fresh)
      (fun ids hids => Service.connect_managed hids c write)
  | close p q running => exact h.serve running (.close p.service q) (fun ids hids => hids)
  | finish p x running mem served leaving =>
    exact h.serve running (.finish p.service x mem served leaving) (fun ids hids => hids)
  | respond p watch response persisted heard running watching looping =>
    exact h.respond running watching
      (fun next id hresponse hverify => hgenuine next id _ (heard next hresponse) hverify) persisted

/-- The key of a state directory does not change. -/
theorem Agent.Hears.key_eq (h : a.Hears genuine a') : a'.key = a.key := by
  cases h with
  | join token response profile write => cases write <;> rfl
  | start _ relayArgs client stopped started =>
    obtain ⟨p, rfl, _⟩ := Agent.start_profile started
    rfl
  | crash | connect | close | finish => rfl
  | respond p watch response persisted =>
    rcases a.respond_outcome p watch response persisted with heq | ⟨_, _, _, _, _, _, heq⟩ | heq
    all_goals rw [heq]

/-- What is cached is replaced only by something that is no older. -/
theorem Agent.Hears.cached_le (h : a.Hears genuine a') (hinformed : a.Informed source)
    (hcached : a.controlJson = some profile) :
    ∃ profile', a'.controlJson = some profile' ∧ profile'.controlId = profile.controlId ∧
      profile.map.map.revision ≤ profile'.map.map.revision := by
  cases h with
  | join token response new write heard accepted =>
    obtain ⟨hnew, _⟩ := joinControl_eq_ok accepted
    exact absurd hnew (by simp [hcached])
  | start _ relayArgs client stopped started =>
    obtain ⟨p, rfl, _⟩ := Agent.start_profile started
    exact ⟨profile, hcached, rfl, le_rfl⟩
  | crash | connect | close | finish => exact ⟨profile, hcached, rfl, le_rfl⟩
  | respond p watch response persisted heard running watching looping =>
    obtain ⟨_, _, _, _, cached, hcached', hsame, hrevision⟩ :=
      hinformed.watched p watch running watching
    cases hcached.symm.trans hcached'
    rcases a.respond_outcome p watch response persisted with heq |
      ⟨next, _, _, _, hvalid, _, heq⟩ | heq
    · rw [heq]
      exact ⟨profile, hcached, rfl, le_rfl⟩
    · obtain ⟨_, _, _, hnewer, _⟩ := ControlWatch.validate_eq_ok.1 hvalid
      rw [heq]
      cases persisted with
      | true => exact ⟨_, rfl, hsame.symm, hrevision.trans hnewer⟩
      | false => exact ⟨profile, hcached, rfl, le_rfl⟩
    · rw [heq]
      exact ⟨profile, hcached, rfl, le_rfl⟩

end AgentScale.Edge
