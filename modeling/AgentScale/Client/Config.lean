import AgentScale.Api.Platform

set_option autoImplicit false

/-! # The Client's configuration

`config.json` holds the edges the Client may use and, in managed mode, the last map that Control has
signed for it. The managed edges are those of the map; `apply_map` replaces both together. -/

namespace AgentScale.Client

open Checked ControlApi

structure EdgeCfg where
  name : String
  endpointId : String
  relays : List String
  /-- Owned by Control. -/
  managed : Bool
deriving DecidableEq

structure ControlCfg where
  name : String
  url : String
  controlId : String
  audience : String
  map : SignedNodeMap
deriving DecidableEq

structure Config where
  schemaVersion : Nat
  edges : List EdgeCfg
  control : Option ControlCfg
deriving DecidableEq

def CONFIG_SCHEMA : Nat := 1

def Config.default : Config := ⟨CONFIG_SCHEMA, [], none⟩

/-- `parse_config` of a file that holds a configuration. -/
def parseConfig (config : Config) : Except String Config := do
  ensure (config.schemaVersion = CONFIG_SCHEMA) ("unsupported config schema " ++
    toString config.schemaVersion ++ "; remove config.json and enroll again")
  return config

def loadConfigOrDefault : Option Config → Except String Config
  | some config => parseConfig config
  | none => .ok .default

/-! ## Maps from Control -/

def applyMap (config : Config) (map : SignedNodeMap) : Except String Config := do
  let relayUrls := map.map.relays.map RelayInfo.url
  let manualNames := (config.edges.filter (fun edge => !edge.managed)).map EdgeCfg.name
  let _ ← map.map.edges.mapM (fun edge => ensure (edge.name ∉ manualNames)
    ("control edge '" ++ edge.name ++ "' conflicts with a manual edge"))
  let edges := config.edges.filter (fun edge => !edge.managed) ++
    map.map.edges.map (fun edge => ⟨edge.name, edge.endpointId, relayUrls, true⟩)
  let control ← okOr config.control "missing control profile"
  return { config with edges := edges, control := some { control with map := map } }

/-- The status codes by which Control says that the enrollment is gone. -/
inductive Refusal where
  | forbidden
  | gone

def Refusal.display : Refusal → String
  | .forbidden => "403 Forbidden"
  | .gone => "410 Gone"

/-- What comes back for a request, as far as the Client tells answers apart. -/
inductive ControlResponse where
  | noContent
  | refused (status : Refusal) (body : String)
  | map (signed : SignedNodeMap)
  | failed (error : String)

def ControlResponse.decode : ControlResponse → Except String SignedNodeMap
  | .map signed => .ok signed
  | .noContent => .error "decode control response"
  | .refused status body => .error ("control request failed (" ++ status.display ++ "): " ++ body)
  | .failed error => .error error

variable (P : Platform)

/-- The checks that every map from Control goes through. -/
def ControlCfg.validate (control : ControlCfg) (key : SecretKey) (map : SignedNodeMap) :
    Except String Unit := do
  let controlId ← okOr (parseEndpointId P control.controlId) "invalid cached control id"
  map.verify P controlId (key.public P)
  ensure (map.map.audience = control.audience ∧ map.map.controlUrl = control.url)
    "control map binding mismatch"

/-- Take over a map that is no older than the one the configuration has. -/
def Config.advance (config : Config) (control : ControlCfg) (key : SecretKey) (map : SignedNodeMap) :
    Except String Config := do
  control.validate P key map
  ensure (control.map.map.revision ≤ map.map.revision) "control map rolled back"
  applyMap config map

inductive WatchOutcome where
  | updated
  | unchanged
  | revoked
deriving DecidableEq

def watchConfig (key : SecretKey) (config : Config) (response : ControlResponse) :
    Except String (WatchOutcome × Config) := do
  let control ← okOr config.control "client is not enrolled in control"
  match response with
  | .noContent => return (.unchanged, config)
  | .refused _ _ => return (.revoked, config)
  | response =>
    let map ← response.decode
    let config ← config.advance P control key map
    return (.updated, config)

def syncConfig (key : SecretKey) (config : Config) (response : ControlResponse) :
    Except String Config := do
  let control ← okOr config.control "client is not enrolled in control"
  let map ← response.decode
  config.advance P control key map

/-- The managed edge that `edge_remove` asks Control to remove. -/
def Config.managedEdge (config : Config) (name : String) : Except String EdgeCfg :=
  okOr (config.edges.find? (fun edge => edge.managed && edge.name = name))
    ("no managed edge named '" ++ name ++ "'")

/-- `edge_remove` from the answer on. -/
def removeConfig (key : SecretKey) (config : Config) (response : ControlResponse) :
    Except String Config := do
  let control ← okOr config.control "client is not enrolled in control"
  let map ← response.decode
  control.validate P key map
  ensure (control.map.map.revision < map.map.revision) "control revision did not advance"
  applyMap config map

/-- `join` from the answer on; `control` is what the invitation says of Control. -/
def joinConfig (key : SecretKey) (config : Config) (control : ControlCfg)
    (response : ControlResponse) : Except String Config := do
  let map ← response.decode
  let controlId ← okOr (parseEndpointId P control.controlId) "invalid control id"
  map.verify P controlId (key.public P)
  applyMap { config with control := some { control with map := map } } map

/-! ## What they keep -/

/-- The revision of the signed map. -/
def Config.revision (config : Config) : Option Nat :=
  config.control.map (fun control => control.map.map.revision)

/-- The managed edges are edges of the signed map. -/
def Config.Consistent (config : Config) : Prop :=
  ∀ edge ∈ config.edges, edge.managed = true → ∃ control, config.control = some control ∧
    ∃ info ∈ control.map.map.edges, info.name = edge.name ∧ info.endpointId = edge.endpointId

/-- The revision has not gone down. -/
def Config.NotOlder (config next : Config) : Prop :=
  ∀ r, config.revision = some r → ∃ r', next.revision = some r' ∧ r ≤ r'

theorem Config.NotOlder.refl (config : Config) : config.NotOlder config :=
  fun r h => ⟨r, h, le_rfl⟩

/-- The new configuration has the edges of the map it was given. -/
theorem applyMap_eq_ok {config next : Config} {map : SignedNodeMap}
    (h : applyMap config map = .ok next) :
    next.Consistent ∧ next.revision = some map.map.revision := by
  obtain ⟨_, _, h⟩ := of_bind h
  obtain ⟨control, _, h⟩ := of_bind h
  cases h
  refine ⟨?_, rfl⟩
  intro edge hedge hmanaged
  rcases List.mem_append.1 hedge with hedge | hedge
  · have hmanual := (List.mem_filter.1 hedge).2
    rw [hmanaged] at hmanual
    cases hmanual
  · obtain ⟨info, hinfo, rfl⟩ := List.mem_map.1 hedge
    exact ⟨_, rfl, info, hinfo, rfl, rfl⟩

variable {P} {key : SecretKey} {config next : Config} {response : ControlResponse}

theorem Config.advance_eq_ok {control : ControlCfg} {map : SignedNodeMap}
    (h : config.advance P control key map = .ok next) (hcontrol : config.control = some control) :
    next.Consistent ∧ config.NotOlder next := by
  obtain ⟨_, _, h⟩ := of_bind h
  obtain ⟨_, hrevision, h⟩ := of_bind h
  obtain ⟨hconsistent, hnext⟩ := applyMap_eq_ok h
  refine ⟨hconsistent, fun r hr => ⟨_, hnext, ?_⟩⟩
  simp only [Config.revision, hcontrol, Option.map_some, Option.some.injEq] at hr
  exact hr ▸ ensure_eq_ok.1 hrevision

theorem watchConfig_eq_ok {outcome : WatchOutcome}
    (h : watchConfig P key config response = .ok (outcome, next)) :
    (outcome = .updated ∧ next.Consistent ∧ config.NotOlder next) ∨
      outcome ≠ .updated ∧ next = config := by
  obtain ⟨control, hcontrol, h⟩ := of_bind h
  rw [okOr_eq_ok] at hcontrol
  have hdecode : ∀ {response : ControlResponse}, (do
      let map ← response.decode
      let config ← config.advance P control key map
      return (.updated, config) : Except String (WatchOutcome × Config)) = .ok (outcome, next) →
      outcome = .updated ∧ next.Consistent ∧ config.NotOlder next := by
    intro response h
    obtain ⟨map, _, h⟩ := of_bind h
    obtain ⟨next', hadvance, h⟩ := of_bind h
    cases h
    exact ⟨rfl, Config.advance_eq_ok hadvance hcontrol⟩
  cases response with
  | noContent =>
    cases h
    exact .inr ⟨by decide, rfl⟩
  | refused status body =>
    cases h
    exact .inr ⟨by decide, rfl⟩
  | map signed => exact .inl (hdecode h)
  | failed error => exact .inl (hdecode h)

theorem syncConfig_eq_ok (h : syncConfig P key config response = .ok next) :
    next.Consistent ∧ config.NotOlder next := by
  obtain ⟨control, hcontrol, h⟩ := of_bind h
  obtain ⟨map, _, h⟩ := of_bind h
  exact Config.advance_eq_ok h (okOr_eq_ok.1 hcontrol)

theorem removeConfig_eq_ok (h : removeConfig P key config response = .ok next) :
    next.Consistent ∧ config.NotOlder next := by
  obtain ⟨control, hcontrol, h⟩ := of_bind h
  obtain ⟨map, _, h⟩ := of_bind h
  obtain ⟨_, _, h⟩ := of_bind h
  obtain ⟨_, hrevision, h⟩ := of_bind h
  obtain ⟨hconsistent, hnext⟩ := applyMap_eq_ok h
  refine ⟨hconsistent, fun r hr => ⟨_, hnext, ?_⟩⟩
  simp only [Config.revision, okOr_eq_ok.1 hcontrol, Option.map_some, Option.some.injEq] at hr
  exact hr ▸ (ensure_eq_ok.1 hrevision).le

theorem joinConfig_eq_ok {control : ControlCfg}
    (h : joinConfig P key config control response = .ok next)
    (hcontrol : config.control = none) : next.Consistent ∧ config.NotOlder next := by
  obtain ⟨map, _, h⟩ := of_bind h
  obtain ⟨_, _, h⟩ := of_bind h
  obtain ⟨_, _, h⟩ := of_bind h
  obtain ⟨hconsistent, _⟩ := applyMap_eq_ok h
  refine ⟨hconsistent, fun r hr => ?_⟩
  simp [Config.revision, hcontrol] at hr

end AgentScale.Client
