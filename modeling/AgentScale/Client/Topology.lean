import AgentScale.Api.Reference
import AgentScale.Client.Config
import AgentScale.Library.Transition

set_option autoImplicit false

/-! # The stored topology

Two writers load `config.json`, wait for Control's answer, and write the whole file back: the daemon's
Control watcher, and the commands of the Client. The commands hold the transaction lock from the load
to the commit, so there is one of them at a time; the watcher does not take the lock. Each compares the
revision of a new map only with what it has loaded itself. -/

namespace AgentScale.Client

open Checked Transition ControlApi

variable (P : Platform)

/-- The commands that write the map of a managed Client. -/
inductive Operation where
  | join (control : ControlCfg)
  | sync
  | refreshCache
  | edgeRemove (name : String)

/-- What a command checks before it asks Control; `refresh_cache` has nothing to do without Control. -/
def Operation.begin (config : Config) : Operation → Except String Unit
  | .join _ => do
    ensure (config.control = none) "this client is already enrolled in control"
    ensure (config.edges = []) "remove standalone edges before joining control"
  | .sync => do
    let _ ← okOr config.control "client is not enrolled in control"
  | .refreshCache => do
    let _ ← okOr config.control ""
  | .edgeRemove name => do
    let _ ← okOr config.control "client is not enrolled in control"
    let _ ← config.managedEdge name

/-- The configuration a command commits after Control's answer. -/
def Operation.finish (key : SecretKey) (config : Config) (response : ControlResponse) :
    Operation → Except String Config
  | .join control => joinConfig P key config control response
  | .sync | .refreshCache => syncConfig P key config response
  | .edgeRemove _ => removeConfig P key config response

/-- A command that holds the transaction lock: what it has loaded, and what it is about to commit. -/
structure Transaction where
  operation : Operation
  loaded : Config
  next : Option Config

/-- One iteration of `spawn_control_watcher`. -/
inductive Watcher where
  | stopped
  | idle
  | polling (loaded : Config)
  /-- About to save `next`; it returns afterwards if the enrollment is revoked. -/
  | saving (loaded next : Config) (revoked : Bool)

structure Topology where
  key : SecretKey
  file : Option Config
  watcher : Watcher
  transaction : Option Transaction

/-- The watcher after Control's answer. -/
def Watcher.answered (key : SecretKey) (loaded : Config) (response : ControlResponse) : Watcher :=
  match watchConfig P key loaded response with
  | .ok (.updated, next) => .saving loaded next false
  | .ok (.unchanged, _) => .idle
  | .ok (.revoked, next) =>
    .saving loaded { next with edges := next.edges.filter (fun edge => !edge.managed) } true
  | .error _ => .idle

/-- The watcher after it has tried to save. -/
def Watcher.saved (revoked : Bool) : Watcher := if revoked then .stopped else .idle

inductive TopologyEvent where
  /-- The daemon starts, or it is restarted. -/
  | spawn
  | load
  | answer (response : ControlResponse)
  | save
  | saveFails
  | begin (operation : Operation)
  | respond (response : ControlResponse)
  | commit
  /-- The command fails or is killed. -/
  | abort

def Topology.perform (s : Topology) : TopologyEvent → Option Topology
  | .spawn => some { s with watcher := .idle }
  | .load =>
    match s.watcher, loadConfigOrDefault s.file with
    | .idle, .ok loaded =>
      some { s with watcher := if loaded.control.isSome then .polling loaded else .stopped }
    | _, _ => none
  | .answer response =>
    match s.watcher with
    | .polling loaded => some { s with watcher := .answered P s.key loaded response }
    | _ => none
  | .save =>
    match s.watcher with
    | .saving _ next revoked => some { s with file := some next, watcher := .saved revoked }
    | _ => none
  | .saveFails =>
    match s.watcher with
    | .saving _ _ revoked => some { s with watcher := .saved revoked }
    | _ => none
  | .begin operation =>
    match s.transaction, loadConfigOrDefault s.file with
    | none, .ok loaded =>
      match operation.begin loaded with
      | .ok () => some { s with transaction := some ⟨operation, loaded, none⟩ }
      | .error _ => none
    | _, _ => none
  | .respond response =>
    match s.transaction with
    | some ⟨operation, loaded, none⟩ =>
      match operation.finish P s.key loaded response with
      | .ok next => some { s with transaction := some ⟨operation, loaded, some next⟩ }
      | .error _ => some { s with transaction := none }
    | _ => none
  | .commit =>
    match s.transaction with
    | some ⟨_, _, some next⟩ => some { s with file := some next, transaction := none }
    | _ => none
  | .abort => some { s with transaction := none }

/-- What the writer of an event has loaded, for events that write the file. -/
def Topology.writes (s : Topology) : TopologyEvent → Option Config
  | .save =>
    match s.watcher with
    | .saving loaded _ _ => some loaded
    | _ => none
  | .commit => s.transaction.map Transaction.loaded
  | _ => none

/-- The file still holds what its writer has loaded. -/
def Topology.Current (s : Topology) (e : TopologyEvent) : Prop :=
  ∀ loaded ∈ s.writes e, loadConfigOrDefault s.file = .ok loaded

instance : DecidableEq (Except String Config) := fun a b =>
  match a, b with
  | .ok a, .ok b => decidable_of_iff (a = b) (by simp)
  | .error a, .error b => decidable_of_iff (a = b) (by simp)
  | .ok _, .error _ => isFalse (by simp)
  | .error _, .ok _ => isFalse (by simp)

instance (s : Topology) (e : TopologyEvent) : Decidable (s.Current e) :=
  inferInstanceAs (Decidable (∀ loaded ∈ s.writes e, loadConfigOrDefault s.file = .ok loaded))

/-- All runs, from a Client that is not enrolled, whose events meet a condition. -/
def topologyWhere (allowed : Topology → TopologyEvent → Prop) : System Topology where
  init s := (∀ config, s.file = some config → config.control = none ∧
    ∀ edge ∈ config.edges, edge.managed = false) ∧ s.watcher = .stopped ∧ s.transaction = none
  step s t := ∃ e, allowed s e ∧ s.perform P e = some t

/-- The revision that is stored. -/
def Topology.revision (s : Topology) : Option Nat := s.file.bind Config.revision

/-! ## What is about to be written -/

/-- What is about to be written is no older than what its writer has loaded, and its managed edges are
    those of its map. -/
structure Topology.Sound (s : Topology) : Prop where
  stored : ∀ config, s.file = some config → config.Consistent
  saving : ∀ loaded next revoked, s.watcher = .saving loaded next revoked →
    next.Consistent ∧ loaded.NotOlder next
  committing : ∀ operation loaded next, s.transaction = some ⟨operation, loaded, some next⟩ →
    next.Consistent ∧ loaded.NotOlder next
  joining : ∀ control loaded next, s.transaction = some ⟨.join control, loaded, next⟩ →
    loaded.control = none

variable {P} {s t : Topology} {e : TopologyEvent}

theorem Watcher.answered_eq_saving {key : SecretKey} {loaded loaded' next : Config} {revoked : Bool}
    {response : ControlResponse}
    (h : Watcher.answered P key loaded response = .saving loaded' next revoked) :
    loaded' = loaded ∧ next.Consistent ∧ loaded.NotOlder next := by
  unfold Watcher.answered at h
  split at h
  · next next' hwatch =>
    obtain ⟨rfl, rfl, _⟩ := Watcher.saving.inj h
    rcases watchConfig_eq_ok hwatch with ⟨_, hnext⟩ | ⟨hne, _⟩
    · exact ⟨rfl, hnext⟩
    · exact absurd rfl hne
  · cases h
  · next next' hwatch =>
    obtain ⟨rfl, rfl, _⟩ := Watcher.saving.inj h
    rcases watchConfig_eq_ok hwatch with ⟨hrevoked, _⟩ | ⟨_, rfl⟩
    · cases hrevoked
    · refine ⟨rfl, fun edge hedge hmanaged => ?_, Config.NotOlder.refl _⟩
      have hmanual := (List.mem_filter.1 hedge).2
      rw [hmanaged] at hmanual
      cases hmanual
  · cases h

theorem Operation.finish_eq_ok {key : SecretKey} {config next : Config} {response : ControlResponse}
    {operation : Operation} (h : operation.finish P key config response = .ok next)
    (hjoin : ∀ control, operation = .join control → config.control = none) :
    next.Consistent ∧ config.NotOlder next := by
  cases operation with
  | join control => exact joinConfig_eq_ok h (hjoin control rfl)
  | sync => exact syncConfig_eq_ok h
  | refreshCache => exact syncConfig_eq_ok h
  | edgeRemove name => exact removeConfig_eq_ok h

theorem Operation.begin_join {control : ControlCfg} {config : Config}
    (h : (Operation.join control).begin config = .ok ()) : config.control = none := by
  obtain ⟨_, hnone, _⟩ := of_bind h
  exact ensure_eq_ok.1 hnone

theorem loadConfigOrDefault_eq_ok {file : Option Config} {config : Config}
    (h : loadConfigOrDefault file = .ok config) :
    file = some config ∨ file = none ∧ config = .default := by
  cases file with
  | none => exact .inr ⟨rfl, (Except.ok.inj h).symm⟩
  | some stored =>
    obtain ⟨_, _, h⟩ := of_bind h
    exact .inl (congrArg some (pure_eq_ok.1 h))

/-- What one event does, if it is performed. -/
theorem Topology.perform_cases (h : s.perform P e = some t) :
    (t.file = s.file ∧ ∃ watcher, t = { s with watcher := watcher } ∧
      ∀ loaded next revoked, watcher = .saving loaded next revoked →
        next.Consistent ∧ loaded.NotOlder next) ∨
    (∃ loaded next revoked, e = .save ∧ s.watcher = .saving loaded next revoked ∧
      t = { s with file := some next, watcher := .saved revoked }) ∨
    (∃ operation loaded, operation.begin loaded = .ok () ∧
      t = { s with transaction := some ⟨operation, loaded, none⟩ }) ∨
    (∃ operation loaded next response, s.transaction = some ⟨operation, loaded, none⟩ ∧
      operation.finish P s.key loaded response = .ok next ∧
      t = { s with transaction := some ⟨operation, loaded, some next⟩ }) ∨
    (∃ operation loaded next, e = .commit ∧ s.transaction = some ⟨operation, loaded, some next⟩ ∧
      t = { s with file := some next, transaction := none }) ∨
    t = { s with transaction := none } := by
  have hsaved : ∀ (r revoked : Bool) (loaded next : Config),
      Watcher.saved r ≠ .saving loaded next revoked := by
    intro r _ _ _
    cases r <;> simp [Watcher.saved]
  cases e with
  | spawn =>
    cases h
    exact .inl ⟨rfl, _, rfl, fun _ _ _ hwatcher => by cases hwatcher⟩
  | load =>
    simp only [perform] at h
    split at h
    · cases h
      refine .inl ⟨rfl, _, rfl, fun _ _ _ hwatcher => ?_⟩
      split at hwatcher <;> cases hwatcher
    · cases h
  | answer response =>
    simp only [perform] at h
    split at h
    · cases h
      exact .inl ⟨rfl, _, rfl, fun _ _ _ hwatcher => by
        obtain ⟨rfl, hnext⟩ := Watcher.answered_eq_saving hwatcher
        exact hnext⟩
    · cases h
  | save =>
    simp only [perform] at h
    split at h
    · next loaded next revoked hwatcher =>
      exact .inr (.inl ⟨loaded, next, revoked, rfl, hwatcher, (Option.some.inj h).symm⟩)
    · cases h
  | saveFails =>
    simp only [perform] at h
    split at h
    · cases h
      exact .inl ⟨rfl, _, rfl, fun _ _ _ hwatcher => absurd hwatcher (hsaved _ _ _ _)⟩
    · cases h
  | begin operation =>
    simp only [perform] at h
    split at h
    · next loaded _ _ =>
      split at h
      · next hbegin =>
        exact .inr (.inr (.inl ⟨operation, loaded, hbegin, (Option.some.inj h).symm⟩))
      · cases h
    · cases h
  | respond response =>
    simp only [perform] at h
    split at h
    · next operation loaded htransaction =>
      split at h
      · next next hfinish =>
        exact .inr (.inr (.inr (.inl ⟨operation, loaded, next, response, htransaction, hfinish,
          (Option.some.inj h).symm⟩)))
      · exact .inr (.inr (.inr (.inr (.inr (Option.some.inj h).symm))))
    · cases h
  | commit =>
    simp only [perform] at h
    split at h
    · next operation loaded next htransaction =>
      exact .inr (.inr (.inr (.inr (.inl ⟨operation, loaded, next, rfl, htransaction,
        (Option.some.inj h).symm⟩))))
    · cases h
  | abort => exact .inr (.inr (.inr (.inr (.inr (Option.some.inj h).symm))))

theorem Topology.Sound.perform (hs : s.Sound) (h : s.perform P e = some t) : t.Sound := by
  rcases Topology.perform_cases h with ⟨_, watcher, rfl, hwatcher⟩ |
    ⟨loaded, next, revoked, _, hwatcher, rfl⟩ | ⟨operation, loaded, hbegin, rfl⟩ |
    ⟨operation, loaded, next, response, htransaction, hfinish, rfl⟩ |
    ⟨operation, loaded, next, _, htransaction, rfl⟩ | rfl
  · exact { hs with saving := hwatcher }
  · refine { hs with stored := ?_, saving := ?_ }
    · rintro _ ⟨⟩
      exact (hs.saving loaded next revoked hwatcher).1
    · intro _ _ _ hsaving
      cases revoked <;> simp [Watcher.saved] at hsaving
  · refine { hs with committing := ?_, joining := ?_ }
    · rintro _ _ _ ⟨⟩
    · rintro control _ _ ⟨⟩
      exact Operation.begin_join hbegin
  · have hjoin : ∀ control, operation = .join control → loaded.control = none := by
      rintro control rfl
      exact hs.joining control loaded none htransaction
    refine { hs with committing := ?_, joining := ?_ }
    · rintro _ _ _ ⟨⟩
      exact Operation.finish_eq_ok hfinish hjoin
    · rintro control _ _ ⟨⟩
      exact hjoin control rfl
  · refine { hs with stored := ?_, committing := ?_, joining := ?_ }
    · rintro _ ⟨⟩
      exact (hs.committing operation loaded next htransaction).1
    · rintro _ _ _ ⟨⟩
    · rintro _ _ _ ⟨⟩
  · refine { hs with committing := ?_, joining := ?_ }
    · rintro _ _ _ ⟨⟩
    · rintro _ _ _ ⟨⟩

/-- A writer whose loaded configuration is still stored does not lower the revision. -/
theorem Topology.revision_le_of_write {loaded next : Config}
    (hload : loadConfigOrDefault s.file = .ok loaded) (hnext : loaded.NotOlder next) (r : Nat)
    (hr : s.revision = some r) :
    ∃ r', next.revision = some r' ∧ r ≤ r' := by
  rcases loadConfigOrDefault_eq_ok hload with hfile | ⟨hfile, _⟩
  · rw [revision, hfile] at hr
    exact hnext r hr
  · rw [revision, hfile] at hr
    cases hr

theorem Topology.Sound.revision_le (hs : s.Sound) (h : s.perform P e = some t)
    (hcurrent : s.Current e) (r : Nat) (hr : s.revision = some r) :
    ∃ r', t.revision = some r' ∧ r ≤ r' := by
  rcases Topology.perform_cases h with ⟨_, watcher, rfl, _⟩ |
    ⟨loaded, next, revoked, rfl, hwatcher, rfl⟩ | ⟨operation, loaded, _, rfl⟩ |
    ⟨operation, loaded, next, response, _, _, rfl⟩ |
    ⟨operation, loaded, next, rfl, htransaction, rfl⟩ | rfl
  · exact ⟨r, hr, le_rfl⟩
  · have hload := hcurrent loaded (by simp [writes, hwatcher])
    exact revision_le_of_write hload (hs.saving loaded next revoked hwatcher).2 r hr
  · exact ⟨r, hr, le_rfl⟩
  · exact ⟨r, hr, le_rfl⟩
  · have hload := hcurrent loaded (by simp [writes, htransaction])
    exact revision_le_of_write hload (hs.committing operation loaded next htransaction).2 r hr
  · exact ⟨r, hr, le_rfl⟩

theorem Topology.sound_of_reachable {allowed : Topology → TopologyEvent → Prop}
    (hs : (topologyWhere P allowed).Reachable s) : s.Sound := by
  refine hs.invariant ?_ ?_
  · rintro s ⟨hfile, hwatcher, htransaction⟩
    refine ⟨fun config hconfig edge hedge hmanaged => ?_, by simp [hwatcher], by simp [htransaction],
      by simp [htransaction]⟩
    rw [(hfile config hconfig).2 edge hedge] at hmanaged
    cases hmanaged
  · rintro s t _ h ⟨e, _, hperform⟩
    exact h.perform hperform

/-- **The stored topology never moves backwards**, in every run in which a writer saves only while the
    file still holds what it has loaded: the revision of the stored map does not decrease, and every
    managed edge that is stored is an edge of that map. -/
theorem topology_never_moves_backwards (s t : Topology)
    (hs : (topologyWhere P Topology.Current).Reachable s)
    (hrun : (topologyWhere P Topology.Current).Steps s t) :
    (∀ r, s.revision = some r → ∃ r', t.revision = some r' ∧ r ≤ r') ∧
      ∀ config, t.file = some config → config.Consistent := by
  refine ⟨fun r hr => ?_, (Topology.sound_of_reachable (hs.steps hrun)).stored⟩
  refine System.Steps.preserves (P := fun t => ∃ r', t.revision = some r' ∧ r ≤ r') hrun hs ?_
    ⟨r, hr, le_rfl⟩
  rintro a b ha ⟨r', hr', hle⟩ ⟨e, hcurrent, hperform⟩
  obtain ⟨r'', hr'', hle'⟩ :=
    (Topology.sound_of_reachable ha).revision_le hperform hcurrent r' hr'
  exact ⟨r'', hr'', hle.trans hle'⟩

/-! ## Runs that can be computed -/

/-- Events that can be performed, from a Client that is not enrolled, are a run. -/
theorem Topology.exists_after (key : SecretKey) (allowed : Topology → TopologyEvent → Prop)
    [∀ s e, Decidable (allowed s e)] (before after : List TopologyEvent)
    (check : Topology → Topology → Bool)
    (h : (runAll (fun s e => if allowed s e then s.perform P e else none) ⟨key, none, .stopped, none⟩
      before).any (fun s => (runAll (fun s e => if allowed s e then s.perform P e else none) s
        after).any (check s)) = true) :
    ∃ s t, (topologyWhere P allowed).Reachable s ∧ (topologyWhere P allowed).Steps s t ∧
      check s t = true := by
  have hstep : ∀ (a b : Topology) (e : TopologyEvent), (topologyWhere P allowed).Reachable a →
      (if allowed a e then a.perform P e else none) = some b → (topologyWhere P allowed).step a b := by
    intro a b e _ hperform
    obtain ⟨hallowed, hperform⟩ := Option.ite_none_right_eq_some.1 hperform
    exact ⟨e, hallowed, hperform⟩
  have hinit : (topologyWhere P allowed).Reachable ⟨key, none, .stopped, none⟩ :=
    ⟨_, ⟨(fun _ hfile => by cases hfile), rfl, rfl⟩, .refl⟩
  obtain ⟨s, hbefore, h⟩ := (Option.any_eq_true _ _).1 h
  obtain ⟨t, hafter, hcheck⟩ := (Option.any_eq_true _ _).1 h
  have hs := hinit.steps (steps_of_runAll hstep hinit hbefore)
  exact ⟨s, t, hs, steps_of_runAll hstep hs hafter, hcheck⟩

section Example

open Reference

def clientMap (revision : Nat) (edges : List EdgeInfo) : SignedNodeMap :=
  .sign (platform []) ⟨CONTROL_PROTOCOL_VERSION, "agents", "https://control.example/",
    publicKey controlKey, revision, 0, publicKey nodeKey, [], some "credential", [], [], edges⟩
    controlKey

def listedEdge : EdgeInfo := ⟨"e", publicKey otherKey, publicKey nodeKey, "client"⟩

/-- The Client enrolls, and its daemon starts to watch. -/
def enrolledAndWatching : List TopologyEvent :=
  [.begin (.join
      ⟨"client", "https://control.example/", publicKey controlKey, "agents", clientMap 1 []⟩),
    .respond (.map (clientMap 1 [listedEdge])), .commit, .spawn, .load]

/-- The watch takes the map over that removes the edge. -/
theorem watched_removal_advances : ∃ s t,
    (topologyWhere (platform []) Topology.Current).Reachable s ∧
      (topologyWhere (platform []) Topology.Current).Steps s t ∧ s.revision = some 1 ∧
      (∃ r, t.revision = some r ∧ 1 ≤ r) ∧ ∀ config, t.file = some config → config.Consistent := by
  obtain ⟨s, t, hs, hrun, hcheck⟩ := Topology.exists_after (P := platform []) nodeKey Topology.Current
    enrolledAndWatching [.answer (.map (clientMap 2 [])), .save]
    (fun s t => s.revision = some 1 && t.revision = some 2) (by decide +kernel)
  simp only [Bool.and_eq_true, decide_eq_true_eq] at hcheck
  obtain ⟨hbackwards, hconsistent⟩ := topology_never_moves_backwards s t hs hrun
  exact ⟨s, t, hs, hrun, hcheck.1, hbackwards 1 hcheck.1, hconsistent⟩

/-- While the watch waits for its answer, `control sync` commits revision 3, which does not have the
    edge. The watch then saves revision 2, and the edge is back. -/
theorem delayed_answer_moves_backwards : ∃ s t,
    (topologyWhere (platform []) (fun _ _ => True)).Reachable s ∧
      (topologyWhere (platform []) (fun _ _ => True)).Steps s t ∧
      s.revision = some 3 ∧ s.file.map Config.edges = some [] ∧
      t.revision = some 2 ∧ t.file.map Config.edges = some [⟨"e", publicKey otherKey, [], true⟩] := by
  obtain ⟨s, t, hs, hrun, hcheck⟩ := Topology.exists_after (P := platform []) nodeKey (fun _ _ => True)
    (enrolledAndWatching ++
      [.begin .sync, .respond (.map (clientMap 3 [])), .commit])
    [.answer (.map (clientMap 2 [listedEdge])), .save]
    (fun s t => s.revision = some 3 && s.file.map Config.edges = some [] && t.revision = some 2 &&
      t.file.map Config.edges = some [⟨"e", publicKey otherKey, [], true⟩]) (by decide +kernel)
  simp only [Bool.and_eq_true, decide_eq_true_eq] at hcheck
  exact ⟨s, t, hs, hrun, hcheck.1.1.1, hcheck.1.1.2, hcheck.1.2, hcheck.2⟩

end Example

end AgentScale.Client
