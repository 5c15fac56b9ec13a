import AgentScale.Client.Topology

set_option autoImplicit false

/-! # Where a Client's topology comes from

Whatever `config.json` says of Control's edges goes back to a map that has passed verification: the one
`join` was answered with, or one that the watcher or a command has taken over later. If every map that
arrives meets a condition, so does the stored one (`Topology.Informed`). -/

namespace AgentScale.Client

open Checked Transition ControlApi

variable {P : Platform}

/-- The maps that arrive with an event meet a condition. -/
def TopologyEvent.Heard (genuine : SignedNodeMap → Prop) : TopologyEvent → Prop
  | .answer (.map signed) | .respond (.map signed) => genuine signed
  | _ => True

/-- The map of a configuration is for the given Client and goes back to a map that meets a condition,
    which may depend on the Control that the configuration names. -/
def Config.Informed (source : EndpointId P → NodeMap → Prop) (client : EndpointId P)
    (config : Config) : Prop :=
  ∀ control, config.control = some control → control.map.map.recipientId = client.text ∧
    ∀ id, parseEndpointId P control.controlId = some id → source id control.map.map

/-- What is stored, and what is about to be, goes back to maps from the source. -/
structure Topology.Informed (source : EndpointId P → NodeMap → Prop) (t : Topology) : Prop where
  stored : ∀ config, t.file = some config → config.Informed source (t.key.public P)
  polling : ∀ loaded, t.watcher = .polling loaded → loaded.Informed source (t.key.public P)
  saving : ∀ loaded next revoked, t.watcher = .saving loaded next revoked →
    next.Informed source (t.key.public P)
  committing : ∀ operation loaded next, t.transaction = some ⟨operation, loaded, some next⟩ →
    next.Informed source (t.key.public P)

variable {source source' : EndpointId P → NodeMap → Prop} {genuine : SignedNodeMap → Prop}
  {client : EndpointId P} {key : SecretKey} {config next : Config} {signed : SignedNodeMap}
  {response : ControlResponse} {s t : Topology} {e : TopologyEvent}

theorem Config.Informed.mono (h : config.Informed source client)
    (hle : ∀ id m, source id m → source' id m) : config.Informed source' client :=
  fun control hcontrol => ⟨(h control hcontrol).1, fun id hid => hle id _ ((h control hcontrol).2 id hid)⟩

theorem Topology.Informed.mono (h : t.Informed source) (hle : ∀ id m, source id m → source' id m) :
    t.Informed source' where
  stored := fun config hconfig => (h.stored config hconfig).mono hle
  polling := fun loaded hloaded => (h.polling loaded hloaded).mono hle
  saving := fun loaded next revoked hnext => (h.saving loaded next revoked hnext).mono hle
  committing := fun operation loaded next hnext =>
    (h.committing operation loaded next hnext).mono hle

/-! ## One configuration -/

/-- A map that verifies is from the source of the Control whose key it verifies under. -/
def Vouches (source : EndpointId P → NodeMap → Prop) (client : EndpointId P)
    (signed : SignedNodeMap) : Prop :=
  ∀ id, signed.verify P id client = .ok () → source id signed.map

theorem verify_recipient {id : EndpointId P} (h : signed.verify P id client = .ok ()) :
    signed.map.recipientId = client.text := by
  obtain ⟨_, _, h⟩ := of_bind h
  obtain ⟨_, _, h⟩ := of_bind h
  obtain ⟨_, hrecipient, _⟩ := of_bind h
  exact ensure_eq_ok.1 hrecipient

theorem applyMap_control (h : applyMap config signed = .ok next) :
    ∃ control, config.control = some control ∧ next.control = some { control with map := signed } := by
  obtain ⟨_, _, h⟩ := of_bind h
  obtain ⟨control, hcontrol, h⟩ := of_bind h
  cases h
  exact ⟨control, okOr_eq_ok.1 hcontrol, rfl⟩

variable {control : ControlCfg}

/-- A verified map that is applied informs the configuration. -/
theorem applyMap_informed {controlId : EndpointId P} (hvouches : Vouches source client signed)
    (hcontrol : config.control = some control)
    (hparse : parseEndpointId P control.controlId = some controlId)
    (hverify : signed.verify P controlId client = .ok ()) (h : applyMap config signed = .ok next) :
    next.Informed source client := by
  obtain ⟨control', hcontrol', hnext⟩ := applyMap_control h
  cases hcontrol.symm.trans hcontrol'
  intro stored hstored
  cases hnext.symm.trans hstored
  refine ⟨verify_recipient hverify, fun id hid => ?_⟩
  cases hparse.symm.trans hid
  exact hvouches controlId hverify

theorem ControlCfg.validate_eq_ok (h : control.validate P key signed = .ok ()) :
    ∃ controlId, parseEndpointId P control.controlId = some controlId ∧
      signed.verify P controlId (key.public P) = .ok () := by
  obtain ⟨controlId, hparse, h⟩ := of_bind h
  obtain ⟨_, hverify, _⟩ := of_bind h
  exact ⟨controlId, okOr_eq_ok.1 hparse, hverify⟩

theorem ControlResponse.decode_eq_ok (h : response.decode = .ok signed) : response = .map signed := by
  cases response with
  | map signed' => exact congrArg _ (Except.ok.inj h)
  | noContent | refused | failed => cases h

section Answered

variable (hvouches : ∀ signed, response = .map signed → Vouches source (key.public P) signed)
include hvouches

theorem advance_informed (hdecode : response.decode = .ok signed)
    (hcontrol : config.control = some control) (h : config.advance P control key signed = .ok next) :
    next.Informed source (key.public P) := by
  obtain ⟨_, hvalid, h⟩ := of_bind h
  obtain ⟨_, _, h⟩ := of_bind h
  obtain ⟨controlId, hparse, hverify⟩ := ControlCfg.validate_eq_ok hvalid
  exact applyMap_informed (hvouches signed (ControlResponse.decode_eq_ok hdecode)) hcontrol hparse
    hverify h

theorem watchConfig_informed {outcome : WatchOutcome} (hconfig : config.Informed source (key.public P))
    (h : watchConfig P key config response = .ok (outcome, next)) :
    next.Informed source (key.public P) := by
  obtain ⟨control, hcontrol, h⟩ := of_bind h
  rw [okOr_eq_ok] at hcontrol
  cases response with
  | noContent | refused =>
    obtain ⟨_, rfl⟩ := Prod.mk.inj (pure_eq_ok.1 h)
    exact hconfig
  | map signed | failed error =>
    obtain ⟨signed, hdecode, h⟩ := of_bind h
    obtain ⟨next', hadvance, h⟩ := of_bind h
    obtain ⟨_, rfl⟩ := Prod.mk.inj (pure_eq_ok.1 h)
    exact advance_informed hvouches hdecode hcontrol hadvance

/-- Every command that commits an answer commits a map that has passed verification. -/
theorem Operation.finish_informed {operation : Operation}
    (h : operation.finish P key config response = .ok next) : next.Informed source (key.public P) := by
  have hsync : ∀ {next}, syncConfig P key config response = .ok next →
      next.Informed source (key.public P) := by
    intro next h
    obtain ⟨control, hcontrol, h⟩ := of_bind h
    obtain ⟨signed, hdecode, h⟩ := of_bind h
    exact advance_informed hvouches hdecode (okOr_eq_ok.1 hcontrol) h
  cases operation with
  | join control =>
    obtain ⟨signed, hdecode, h⟩ := of_bind h
    obtain ⟨controlId, hparse, h⟩ := of_bind h
    obtain ⟨_, hverify, h⟩ := of_bind h
    have hcontrol : ({ config with control := some { control with map := signed } } : Config).control =
        some { control with map := signed } := rfl
    exact applyMap_informed (hvouches signed (ControlResponse.decode_eq_ok hdecode)) hcontrol
      (okOr_eq_ok.1 hparse) hverify h
  | sync => exact hsync h
  | refreshCache => exact hsync h
  | edgeRemove name =>
    obtain ⟨control, hcontrol, h⟩ := of_bind h
    obtain ⟨signed, hdecode, h⟩ := of_bind h
    obtain ⟨_, hvalid, h⟩ := of_bind h
    obtain ⟨_, _, h⟩ := of_bind h
    obtain ⟨controlId, hparse, hverify⟩ := ControlCfg.validate_eq_ok hvalid
    exact applyMap_informed (hvouches signed (ControlResponse.decode_eq_ok hdecode))
      (okOr_eq_ok.1 hcontrol) hparse hverify h

theorem Watcher.answered_informed (hconfig : config.Informed source (key.public P))
    {loaded : Config} {revoked : Bool}
    (h : Watcher.answered P key config response = .saving loaded next revoked) :
    next.Informed source (key.public P) := by
  unfold Watcher.answered at h
  split at h
  · next next' hwatch =>
    obtain ⟨_, rfl, _⟩ := Watcher.saving.inj h
    exact watchConfig_informed hvouches hconfig hwatch
  · cases h
  · next next' hwatch =>
    obtain ⟨_, rfl, _⟩ := Watcher.saving.inj h
    -- the managed edges go, the map stays
    have hnext : next'.Informed source (key.public P) :=
      watchConfig_informed hvouches hconfig hwatch
    exact hnext
  · cases h

end Answered

/-! ## Runs -/

theorem Topology.Informed.load {loaded : Config} (h : s.Informed source)
    (hload : loadConfigOrDefault s.file = .ok loaded) : loaded.Informed source (s.key.public P) := by
  rcases loadConfigOrDefault_eq_ok hload with hfile | ⟨_, rfl⟩
  · exact h.stored loaded hfile
  · intro control hcontrol
    cases hcontrol

/-- The watcher is about to do something else than to save. -/
theorem Topology.Informed.watch (h : s.Informed source) {watcher : Watcher}
    (hpolling : ∀ loaded, watcher = .polling loaded → loaded.Informed source (s.key.public P))
    (hsaving : ∀ loaded next revoked, watcher = .saving loaded next revoked →
      next.Informed source (s.key.public P)) :
    Topology.Informed source { s with watcher } :=
  { h with polling := hpolling, saving := hsaving }

theorem Topology.Informed.watch_saved (h : s.Informed source) (revoked : Bool) :
    Topology.Informed source { s with watcher := .saved revoked } := by
  refine h.watch ?_ ?_
  · intro loaded hwatcher
    cases revoked <;> cases hwatcher
  · intro loaded next _ hwatcher
    cases revoked <;> cases hwatcher

/-- **One event.** A Client that hears only genuine maps stays informed by their source. -/
theorem Topology.Informed.perform (h : s.Informed source) (hheard : e.Heard genuine)
    (hgenuine : ∀ signed, genuine signed → Vouches source (s.key.public P) signed)
    (hstep : s.perform P e = some t) : t.Informed source := by
  cases e with
  | spawn =>
    cases hstep
    exact h.watch (fun _ hwatcher => by cases hwatcher) (fun _ _ _ hwatcher => by cases hwatcher)
  | load =>
    simp only [Topology.perform] at hstep
    split at hstep
    · next loaded _ hload =>
      cases hstep
      have hloaded := h.load hload
      refine h.watch ?_ ?_
      · intro loaded' hwatcher
        split at hwatcher
        · obtain rfl := Watcher.polling.inj hwatcher
          exact hloaded
        · cases hwatcher
      · intro _ _ _ hwatcher
        split at hwatcher <;> cases hwatcher
    · cases hstep
  | answer response =>
    simp only [Topology.perform] at hstep
    split at hstep
    · next loaded hpolling =>
      cases hstep
      refine h.watch ?_ ?_
      · intro loaded' hwatcher
        unfold Watcher.answered at hwatcher
        split at hwatcher <;> cases hwatcher
      · intro _ next revoked hwatcher
        refine Watcher.answered_informed ?_ (h.polling loaded hpolling) hwatcher
        rintro signed rfl
        exact hgenuine signed hheard
    · cases hstep
  | save =>
    simp only [Topology.perform] at hstep
    split at hstep
    · next loaded next revoked hsaving =>
      cases hstep
      have hnext := h.saving loaded next revoked hsaving
      have hsaved := h.watch_saved revoked
      exact ⟨fun config hconfig => Option.some.inj hconfig ▸ hnext, hsaved.polling, hsaved.saving,
        h.committing⟩
    · cases hstep
  | saveFails =>
    simp only [Topology.perform] at hstep
    split at hstep
    · cases hstep
      exact h.watch_saved _
    · cases hstep
  | begin operation =>
    simp only [Topology.perform] at hstep
    split at hstep
    · split at hstep
      · cases hstep
        refine { h with committing := ?_ }
        intro _ _ _ htransaction
        cases htransaction
      · cases hstep
    · cases hstep
  | respond response =>
    simp only [Topology.perform] at hstep
    split at hstep
    · next operation loaded _ =>
      split at hstep
      · next next hfinish =>
        cases hstep
        refine { h with committing := ?_ }
        intro _ _ _ htransaction
        cases htransaction
        refine Operation.finish_informed ?_ hfinish
        rintro signed rfl
        exact hgenuine signed hheard
      · cases hstep
        refine { h with committing := ?_ }
        intro _ _ _ htransaction
        cases htransaction
    · cases hstep
  | commit =>
    simp only [Topology.perform] at hstep
    split at hstep
    · next operation loaded next htransaction =>
      cases hstep
      have hnext := h.committing operation loaded next htransaction
      refine ⟨fun config hconfig => Option.some.inj hconfig ▸ hnext, h.polling, h.saving, ?_⟩
      intro _ _ _ hnone
      cases hnone
    · cases hstep
  | abort =>
    cases hstep
    refine { h with committing := ?_ }
    intro _ _ _ hnone
    cases hnone

end AgentScale.Client
