import AgentScale.Edge.Authorization

set_option autoImplicit false

/-! # A managed Edge and its restarts

An Edge that is enrolled in Control keeps the last signed map in `control.json`. Each start takes the
allowed clients from this file; the Control watch replaces them as new maps arrive, and takes them all
away when Control answers that the enrollment is revoked. The file is not touched by a revocation, so
a restart brings the clients of the cached map back. -/

namespace AgentScale.Edge

open Checked Transition ControlApi

variable {P : Platform}

structure ControlProfile where
  schemaVersion : Nat
  name : String
  controlUrl : String
  controlId : String
  audience : String
  endpointId : String
  map : SignedNodeMap
deriving DecidableEq

/-- The relays of a map with what is needed to use them, by URL. -/
def relaySettings (relays : List RelayInfo) (credential : String) :
    List (String × Option UInt16 × String) :=
  Keyed.collect Prod.fst (relays.map (fun relay => (relay.url, relay.qadPort, credential)))

/-- The task `spawn_control_watch` starts. -/
structure ControlWatch where
  profile : ControlProfile
  currentRelays : List (String × Option UInt16 × String)
  running : Bool

/-- A running Edge. -/
structure Process (P : Platform) where
  service : Service P
  watch : Option ControlWatch

/-- An Edge over its whole life: its key, the files in its state directory, and its process. -/
structure Agent (P : Platform) where
  key : SecretKey
  controlJson : Option ControlProfile
  trustedClient : Option String
  process : Option (Process P)
  /-- The watch has been told that the enrollment is revoked, and since then no map has been accepted
      and the Edge has not been enrolled again. -/
  revoked : Bool

/-! ## Start -/

def loadControlProfile (file : Option ControlProfile) : Except String (Option ControlProfile) :=
  match file with
  | some profile => do
    ensure (profile.schemaVersion = 1) "unsupported edge profile schema"
    return some profile
  | none => return none

variable (P) in
def verifyProfile (profile : ControlProfile) (endpointId : EndpointId P) : Except String Unit := do
  let controlId ← okOr (parseEndpointId P profile.controlId) "invalid control id in profile"
  ensure (profile.endpointId = endpointId.text) "control profile belongs to another edge key"
  profile.map.verify P controlId endpointId
  ensure (profile.map.map.audience = profile.audience ∧ profile.map.map.controlUrl = profile.controlUrl)
    "control map binding mismatch"

variable (P) in
/-- Parse the clients of a map, each error with the given text in front. -/
def parseClients (error : String) (clients : List String) : Except String (List (EndpointId P)) :=
  clients.mapM (fun value => okOr (parseEndpointId P value) (error ++ P.keyError value))

variable (P) in
/-- The watch that is spawned for a profile; it ends at once if Control has no usable address. -/
def ControlWatch.spawn (profile : ControlProfile) (credential : String) : ControlWatch where
  profile := profile
  currentRelays := relaySettings profile.map.map.relays credential
  running := (parseEndpointId P profile.controlId).isSome &&
    (P.parseUrl (trimEndMatches '/' profile.controlUrl ++ "/")).isSome

variable (P) in
/-- `run_iroh_edge` up to the point where it serves, for an Edge managed by Control. -/
def startManaged (key : SecretKey) (profile : ControlProfile) (relayArgs : List String)
    (client : Option String) : Except String (ClientPin P × ControlWatch) := do
  ensure (relayArgs = [] ∧ client = none) "a control-managed edge cannot override --relay or --client"
  let credential ← okOr profile.map.map.relayCredential "control map is missing its Relay credential"
  let _ ← profile.map.map.relays.mapM (fun relay =>
    okOr (P.parseUrl relay.url) ("bad relay in control map: " ++ P.urlError relay.url))
  verifyProfile P profile (key.public P)
  let allowed ← parseClients P "invalid client in control map: " profile.map.map.allowedClients
  return (.managed allowed, .spawn P profile credential)

/-- `run_iroh_edge`. -/
def Agent.start (a : Agent P) (relayArgs : List String) (client : Option String) :
    Except String (Agent P) := do
  match ← loadControlProfile a.controlJson with
  | some profile =>
    let (pin, watch) ← startManaged P a.key profile relayArgs client
    return { a with process := some ⟨⟨pin, a.trustedClient, [], []⟩, some watch⟩ }
  | none =>
    let _ ← relayArgs.mapM (fun url => okOr (P.parseUrl url) (P.urlError url))
    let pin ← standalonePin P client a.trustedClient
    return { a with process := some ⟨⟨pin, a.trustedClient, [], []⟩, none⟩ }

/-! ## The watch -/

/-- What Control answers to one request of the watch, as far as the watch tells answers apart. -/
inductive WatchResponse where
  | noContent
  | map (next : SignedNodeMap)
  | undecodable
  | forbidden
  | gone
  | failed

variable (P) in
/-- The checks on a map before it is applied. -/
def ControlWatch.validate (watch : ControlWatch) (key : SecretKey) (next : SignedNodeMap) :
    Except String Unit := do
  let controlId ← okOr (parseEndpointId P watch.profile.controlId) "invalid control id"
  next.verify P controlId (key.public P)
  ensure (watch.profile.map.map.revision ≤ next.map.revision) "control map rollback"
  ensure (next.map.audience = watch.profile.audience ∧
    next.map.controlUrl = watch.profile.controlUrl) "control map binding mismatch"

/-- `apply_control_map`: the service with its new clients, and the relays that are now in use. -/
def applyControlMap (s : Service P) (currentRelays : List (String × Option UInt16 × String))
    (next : SignedNodeMap) : Except String (Service P × List (String × Option UInt16 × String)) := do
  let credential ← okOr next.map.relayCredential "control map is missing its Relay credential"
  let nextRelays := relaySettings next.map.relays credential
  let _ ← (nextRelays.filter (· ∉ currentRelays)).mapM (fun relay =>
    okOr (P.parseUrl relay.1) ("invalid relay " ++ relay.1 ++ ": " ++ P.urlError relay.1))
  let allowed ← parseClients P "invalid allowed client: " next.map.allowedClients
  let s ← s.replaceManaged allowed
  return (s, nextRelays)

/-- One round of the watch. `persisted` tells whether the new profile reaches `control.json`. -/
def Agent.respond (a : Agent P) (p : Process P) (watch : ControlWatch) (response : WatchResponse)
    (persisted : Bool) : Agent P :=
  match response with
  | .map next =>
    match watch.validate P a.key next, applyControlMap p.service watch.currentRelays next with
    | .ok (), .ok (service, currentRelays) =>
      let profile := { watch.profile with map := next }
      { a with
        process := some ⟨service, some { watch with profile, currentRelays }⟩
        controlJson := if persisted then some profile else a.controlJson
        revoked := false }
    | _, _ => a
  | .forbidden | .gone =>
    let service := (p.service.replaceManaged []).toOption.getD p.service
    { a with process := some ⟨service, some { watch with running := false }⟩, revoked := true }
  | .noContent | .undecodable | .failed => a

/-- What `join_control` leaves in a new state directory. -/
def Agent.enroll (a : Agent P) (key : SecretKey) (profile : ControlProfile) : Agent P :=
  { a with key, controlJson := some profile, trustedClient := none, revoked := false }

/-! ## Runs -/

/-- One step of an Edge whose starts meet the condition `allowed`. -/
inductive Agent.Step (allowed : Agent P → Prop) : Agent P → Agent P → Prop
  | enroll (a : Agent P) (key : SecretKey) (profile : ControlProfile) (stopped : a.process = none) :
      Step allowed a (a.enroll key profile)
  | start (a a' : Agent P) (relayArgs : List String) (client : Option String)
      (stopped : a.process = none) (permitted : allowed a)
      (started : a.start relayArgs client = .ok a') : Step allowed a a'
  | crash (a : Agent P) (p : Process P) (running : a.process = some p) :
      Step allowed a { a with process := none, trustedClient := p.service.trustedClient }
  | connect (a : Agent P) (p : Process P) (c : Connection P) (write : WriteOutcome)
      (running : a.process = some p) (fresh : p.service.Fresh c) :
      Step allowed a { a with process := some { p with service := p.service.connect c write } }
  | close (a : Agent P) (p : Process P) (q : Connection P → Bool) (running : a.process = some p) :
      Step allowed a { a with process := some { p with service := p.service.close q } }
  | finish (a : Agent P) (p : Process P) (x : Session P) (running : a.process = some p)
      (mem : x ∈ p.service.sessions) (served : x.ended = false)
      (leaving : x.closed = true ∨ x.connection.alpn = .blobs) :
      Step allowed a { a with process := some { p with service := p.service.finish x.connection } }
  | respond (a : Agent P) (p : Process P) (watch : ControlWatch) (response : WatchResponse)
      (persisted : Bool) (running : a.process = some p) (watching : p.watch = some watch)
      (looping : watch.running = true) : Step allowed a (a.respond p watch response persisted)

/-- All runs of an Edge whose starts meet a condition, from a state directory that is not enrolled. -/
def agentWhere (P : Platform) (allowed : Agent P → Prop) : System (Agent P) where
  init := fun a => a.controlJson = none ∧ a.process = none ∧ a.revoked = false
  step := Agent.Step allowed

/-- All runs of an Edge. -/
def agent (P : Platform) : System (Agent P) := agentWhere P (fun _ => True)

/-! ## Revocation -/

/-- If the enrollment is revoked, the cached map allows no client. -/
def Agent.CacheEmptied (a : Agent P) : Prop :=
  a.revoked = true → ∀ profile, a.controlJson = some profile → profile.map.map.allowedClients = []

instance (a : Agent P) : Decidable a.CacheEmptied :=
  decidable_of_iff (a.revoked = true → a.controlJson.all (fun profile =>
    profile.map.map.allowedClients = []) = true) (by simp [Agent.CacheEmptied, Option.all_eq_true])

theorem Service.connect_managed {s : Service P} {ids : List (EndpointId P)}
    (h : s.pin.auth = .managed ids) (c : Connection P) (write : WriteOutcome) :
    (s.connect c write).pin.auth = .managed ids := by
  rcases s.connect_cases c write with ⟨_, heq, _⟩ | ⟨_, heq⟩ | ⟨_, _, hunpinned, _⟩
  · rw [heq]
    exact h
  · rw [heq]
    exact h
  · cases h.symm.trans hunpinned

variable {relayArgs : List String} {client : Option String}

theorem startManaged_eq_ok {key : SecretKey} {profile : ControlProfile} {pin : ClientPin P}
    {watch : ControlWatch} (h : startManaged P key profile relayArgs client = .ok (pin, watch)) :
    ∃ error allowed, parseClients P error profile.map.map.allowedClients = .ok allowed ∧
      pin = .managed allowed := by
  obtain ⟨_, _, h⟩ := of_bind h
  obtain ⟨credential, _, h⟩ := of_bind h
  obtain ⟨_, _, h⟩ := of_bind h
  obtain ⟨_, _, h⟩ := of_bind h
  obtain ⟨allowed, hallowed, h⟩ := of_bind h
  exact ⟨_, allowed, hallowed, (Prod.mk.inj (pure_eq_ok.1 h)).1.symm⟩

theorem loadControlProfile_eq_ok {file loaded : Option ControlProfile}
    (h : loadControlProfile file = .ok loaded) : file = loaded := by
  cases file with
  | none => exact pure_eq_ok.1 h
  | some profile =>
    obtain ⟨_, _, h⟩ := of_bind h
    exact pure_eq_ok.1 h

variable {a a' : Agent P}

theorem Agent.start_eq_ok (h : a.start relayArgs client = .ok a') :
    ∃ p, a' = { a with process := some p } ∧
      (a.controlJson = none → p.watch = none) ∧
      ∀ profile, a.controlJson = some profile → ∃ error allowed,
        parseClients P error profile.map.map.allowedClients = .ok allowed ∧
          p.service.pin.auth = .managed allowed := by
  obtain ⟨loaded, hload, h⟩ := of_bind h
  have hfile := loadControlProfile_eq_ok hload
  cases loaded with
  | none =>
    obtain ⟨_, _, h⟩ := of_bind h
    obtain ⟨pin, _, h⟩ := of_bind h
    exact ⟨_, (pure_eq_ok.1 h).symm, fun _ => rfl, by simp [hfile]⟩
  | some profile =>
    obtain ⟨⟨pin, watch⟩, hmanaged, h⟩ := of_bind h
    obtain ⟨error, allowed, hallowed, rfl⟩ := startManaged_eq_ok hmanaged
    refine ⟨_, (pure_eq_ok.1 h).symm, by simp [hfile], fun profile' hprofile => ?_⟩
    cases hfile.symm.trans hprofile
    exact ⟨error, allowed, hallowed, rfl⟩

/-- What one round of the watch does, if anything. -/
theorem Agent.respond_cases (a : Agent P) {p : Process P} {ids : List (EndpointId P)}
    (hmanaged : p.service.pin.auth = .managed ids) (watch : ControlWatch) (response : WatchResponse)
    (persisted : Bool) :
    a.respond p watch response persisted = a ∨
    (∃ p' file, a.respond p watch response persisted =
        { a with process := some p', controlJson := file, revoked := false } ∧
      (∃ next, p'.service.pin.auth = .managed next) ∧ (file = none → a.controlJson = none)) ∨
    ∃ p', a.respond p watch response persisted = { a with process := some p', revoked := true } ∧
      p'.service.pin.auth = .managed [] := by
  cases response with
  | noContent | undecodable | failed => exact .inl rfl
  | forbidden | gone =>
    obtain ⟨s', hs', hempty⟩ := Service.replaceManaged_of_managed hmanaged []
    refine .inr (.inr ⟨_, rfl, ?_⟩)
    simpa [hs', Except.toOption] using hempty
  | map next =>
    simp only [respond]
    split
    · next service currentRelays _ happly =>
      obtain ⟨_, _, happly⟩ := of_bind happly
      obtain ⟨_, _, happly⟩ := of_bind happly
      obtain ⟨allowed, _, happly⟩ := of_bind happly
      obtain ⟨s', hs', happly⟩ := of_bind happly
      obtain ⟨rfl, _⟩ := Prod.mk.inj (pure_eq_ok.1 happly)
      obtain ⟨_, _, _, _, _, hnext, rfl⟩ := Service.replaceManaged_eq_ok hs'
      refine .inr (.inl ⟨_, _, rfl, ⟨allowed, hnext⟩, ?_⟩)
      cases persisted with
      | true => simp
      | false => exact id
    · exact .inl rfl

/-- A watched process has a managed pin, and nobody is allowed while the enrollment is revoked. -/
structure Agent.Sound (a : Agent P) : Prop where
  watched : ∀ p watch, a.process = some p → p.watch = some watch →
    (∃ ids, p.service.pin.auth = .managed ids) ∧ a.controlJson ≠ none
  cached : a.revoked = true → a.controlJson ≠ none
  revoked : a.revoked = true → ∀ p, a.process = some p → p.service.pin.auth = .managed []

/-- Connections come and go without changing who is allowed. -/
theorem Agent.Sound.serve {a : Agent P} {p : Process P} {service : Service P} (h : a.Sound)
    (hrun : a.process = some p)
    (hsame : ∀ ids, p.service.pin.auth = .managed ids → service.pin.auth = .managed ids) :
    Agent.Sound { a with process := some { p with service } } where
  watched := by
    rintro _ watch ⟨⟩ hwatch
    obtain ⟨⟨ids, hids⟩, hfile⟩ := h.watched p watch hrun hwatch
    exact ⟨⟨ids, hsame ids hids⟩, hfile⟩
  cached := h.cached
  revoked := by
    rintro hrevoked _ ⟨⟩
    exact hsame [] (h.revoked hrevoked p hrun)

theorem Agent.Sound.start (h : a.Sound) (hcache : a.CacheEmptied)
    (hstart : a.start relayArgs client = .ok a') :
    a'.Sound := by
  obtain ⟨p, rfl, hstandalone, hmanaged⟩ := Agent.start_eq_ok hstart
  constructor
  · rintro _ watch ⟨⟩ hwatch
    cases hfile : a.controlJson with
    | none => cases hwatch.symm.trans (hstandalone hfile)
    | some profile =>
      obtain ⟨_, allowed, _, hpin⟩ := hmanaged profile hfile
      exact ⟨⟨allowed, hpin⟩, by simp⟩
  · exact h.cached
  · rintro hrevoked _ ⟨⟩
    obtain ⟨profile, hfile⟩ := Option.ne_none_iff_exists'.1 (h.cached hrevoked)
    obtain ⟨_, allowed, hallowed, hpin⟩ := hmanaged profile hfile
    rw [hcache hrevoked profile hfile] at hallowed
    obtain rfl : [] = allowed := pure_eq_ok.1 hallowed
    exact hpin

theorem Agent.sound_of_reachable {a : Agent P} (hr : (agentWhere P Agent.CacheEmptied).Reachable a) :
    a.Sound := by
  refine hr.invariant ?_ ?_
  · rintro a ⟨_, hstopped, hrevoked⟩
    exact ⟨by simp [hstopped], by simp [hrevoked], by simp [hrevoked]⟩
  · intro a a' _ h hstep
    cases hstep with
    | enroll key profile stopped =>
      exact ⟨by simp [enroll, stopped], by simp [enroll], by simp [enroll]⟩
    | start _ relayArgs client stopped permitted started => exact h.start permitted started
    | crash p running => exact ⟨by simp, h.cached, by simp⟩
    | connect p c write running fresh =>
      exact h.serve running (fun ids hids => Service.connect_managed hids c write)
    | close p q running => exact h.serve running (fun ids hids => hids)
    | finish p x running mem served leaving => exact h.serve running (fun ids hids => hids)
    | respond p watch response persisted running watching looping =>
      obtain ⟨⟨ids, hids⟩, hfile⟩ := h.watched p watch running watching
      rcases a.respond_cases hids watch response persisted with heq | ⟨p', file, heq, hnext, hkept⟩ |
        ⟨p', heq, hempty⟩
      · rw [heq]
        exact h
      · rw [heq]
        refine ⟨?_, by simp, by simp⟩
        rintro _ _ ⟨⟩ _
        exact ⟨hnext, fun hnone => hfile (hkept hnone)⟩
      · rw [heq]
        refine ⟨?_, fun _ => hfile, ?_⟩
        · rintro _ _ ⟨⟩ _
          exact ⟨⟨[], hempty⟩, hfile⟩
        · rintro _ _ ⟨⟩
          exact hempty

/-- **A revoked Edge stays revoked**, in every run in which it is not restarted from a cached map that
    still allows a client: once the watch has received a definitive revocation, nobody is let in until
    a map is accepted or the Edge is enrolled again. -/
theorem revoked_edge_stays_revoked {a : Agent P} {p : Process P}
    (hr : (agentWhere P Agent.CacheEmptied).Reachable a) (hrevoked : a.revoked = true)
    (hrun : a.process = some p) (c : Connection P) (write : WriteOutcome) :
    (p.service.pin.authorizeAndRegister c write).result = .ok false := by
  have hempty := (Agent.sound_of_reachable hr).revoked hrevoked p hrun
  simp [ClientPin.authorizeAndRegister, hempty]

/-! ## Runs that can be computed -/

/-- An event in the life of an Edge. -/
inductive AgentEvent where
  | enroll (profile : ControlProfile)
  | start
  | crash
  | respond (response : WatchResponse)

/-- Perform an event, if it is possible. -/
def Agent.perform (allowed : Agent P → Prop) [DecidablePred allowed] (a : Agent P) :
    AgentEvent → Option (Agent P)
  | .enroll profile => if a.process.isNone then some (a.enroll a.key profile) else none
  | .start => if a.process.isNone ∧ allowed a then (a.start [] none).toOption else none
  | .crash => a.process.map (fun p =>
    { a with process := none, trustedClient := p.service.trustedClient })
  | .respond response => a.process.bind (fun p => p.watch.bind (fun watch =>
    if watch.running then some (a.respond p watch response true) else none))

theorem Agent.perform_step {allowed : Agent P → Prop} [DecidablePred allowed] {e : AgentEvent}
    (h : a.perform allowed e = some a') : Agent.Step allowed a a' := by
  cases e with
  | enroll profile =>
    obtain ⟨hstopped, h⟩ := Option.ite_none_right_eq_some.1 h
    cases h
    exact .enroll a a.key profile (Option.isNone_iff_eq_none.1 hstopped)
  | start =>
    obtain ⟨⟨hstopped, hallowed⟩, h⟩ := Option.ite_none_right_eq_some.1 h
    exact .start a a' [] none (Option.isNone_iff_eq_none.1 hstopped) hallowed (toOption_eq_some.1 h)
  | crash =>
    obtain ⟨p, hrun, rfl⟩ := Option.map_eq_some_iff.1 h
    exact .crash a p hrun
  | respond response =>
    obtain ⟨p, hrun, h⟩ := Option.bind_eq_some_iff.1 h
    obtain ⟨watch, hwatch, h⟩ := Option.bind_eq_some_iff.1 h
    obtain ⟨hlooping, h⟩ := Option.ite_none_right_eq_some.1 h
    cases h
    exact .respond a p watch response true hrun hwatch hlooping

/-- Events that can be performed, from an Edge that is not enrolled, are a run. -/
theorem Agent.exists_after (key : SecretKey) (allowed : Agent P → Prop) [DecidablePred allowed]
    (events : List AgentEvent) (check : Agent P → Bool)
    (h : (runAll (Agent.perform allowed) ⟨key, none, none, none, false⟩ events).any check = true) :
    ∃ a, (agentWhere P allowed).Reachable a ∧ check a = true := by
  obtain ⟨a, hrun, hcheck⟩ := (Option.any_eq_true _ _).1 h
  have hr : (agentWhere P allowed).Reachable ⟨key, none, none, none, false⟩ :=
    ⟨_, ⟨rfl, rfl, rfl⟩, .refl⟩
  exact ⟨a, hr.steps (steps_of_runAll (fun _ _ _ _ => Agent.perform_step) hr hrun), hcheck⟩

section Example

open Reference

/-- The profile of an Edge that one client may use. -/
def enrolledProfile : ControlProfile where
  schemaVersion := 1
  name := "e"
  controlUrl := "https://control.example/"
  controlId := publicKey controlKey
  audience := "agents"
  endpointId := publicKey nodeKey
  map := .sign (platform []) ⟨CONTROL_PROTOCOL_VERSION, "agents", "https://control.example/",
    publicKey controlKey, 1, 0, publicKey nodeKey, [], some "credential", [], [publicKey otherKey], []⟩
    controlKey

/-- The client is turned away as soon as the watch is told of the revocation. -/
theorem revoked_edge_stays_revoked_until_restart : ∃ (a : Agent (platform [])) (p : Process (platform [])),
    (agentWhere (platform []) Agent.CacheEmptied).Reachable a ∧ a.revoked = true ∧
      a.process = some p ∧ a.controlJson = some enrolledProfile ∧
      (p.service.pin.authorizeAndRegister (connectionOf 0 otherKey) .written).result = .ok false := by
  obtain ⟨a, hr, hcheck⟩ := Agent.exists_after (P := platform []) nodeKey Agent.CacheEmptied
    [.enroll enrolledProfile, .start, .respond .forbidden]
    (fun a => a.revoked && a.process.isSome && a.controlJson = some enrolledProfile) (by decide +kernel)
  simp only [Bool.and_eq_true, decide_eq_true_eq] at hcheck
  obtain ⟨⟨hrevoked, hsome⟩, hfile⟩ := hcheck
  obtain ⟨p, hrun⟩ := Option.isSome_iff_exists.1 hsome
  exact ⟨a, p, hr, hrevoked, hrun, hfile, revoked_edge_stays_revoked hr hrevoked hrun _ _⟩

/-- After a restart the client of the cached map is let in again. -/
theorem restart_undoes_revocation : ∃ (a : Agent (platform [])) (p : Process (platform [])),
    (agent (platform [])).Reachable a ∧ a.revoked = true ∧ a.process = some p ∧
      (p.service.pin.authorizeAndRegister (connectionOf 0 otherKey) .written).result = .ok true := by
  obtain ⟨a, hr, hcheck⟩ := Agent.exists_after (P := platform []) nodeKey (fun _ => True)
    [.enroll enrolledProfile, .start, .respond .forbidden, .crash, .start]
    (fun a => a.revoked && a.process.any (fun p =>
      (p.service.pin.authorizeAndRegister (connectionOf 0 otherKey) .written).result.toOption =
        some true)) (by decide +kernel)
  obtain ⟨hrevoked, hcheck⟩ := Bool.and_eq_true_iff.1 hcheck
  obtain ⟨p, hrun, hcheck⟩ := (Option.any_eq_true _ _).1 hcheck
  exact ⟨a, p, hr, hrevoked, hrun, toOption_eq_some.1 (of_decide_eq_true hcheck)⟩

end Example

end AgentScale.Edge
