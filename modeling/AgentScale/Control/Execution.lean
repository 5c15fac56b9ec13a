import AgentScale.Api.Reference
import AgentScale.Control.World

set_option autoImplicit false

/-! # Runs that can be computed

`World.perform` performs an event on a world, and a performed list of events is a run
(`World.steps_of_run`). The requests of a run are built from the state the way the clients build
them: a claim signs the invitation's token with the node's key. -/

namespace AgentScale.Control

open Checked ControlApi RelayApi Transition

/-- An event of a run. Requests are made from the state they will find; a late request has been
    received before and is served now. -/
inductive Event (P : Platform) where
  | operate (op : ControlState → Operation P) (inviteId : String)
  | late (received : Int) (op : ControlState → Operation P) (inviteId : String)
  | tick (now : Int)
  | crash
  | start (relayCaDer : List UInt8)

variable {P : Platform}

/-- The secret of every invitation in a run. -/
def joinSecret : String := "YWdlbnQtc2NhbGUtam9pbi1zZWNyZXQtMDAwMDAwMDE"

/-- The surroundings of a request that is received and served at once. -/
def World.ambient (w : World) (state : ControlState) (inviteId : String) : Ambient :=
  { received := w.clock, earlier := state, clock := w.clock, inviteToken := inviteId,
    secretToken := joinSecret, ioError := none }

section Run

variable (key : SecretKey) (allowed : Ambient → ControlState → Operation P → Prop)
  [∀ amb s op, Decidable (allowed amb s op)]

/-- Serve a request in the given surroundings, if that is possible. -/
def World.serve (w : World) (state : ControlState) (amb : Ambient) (op : Operation P) :
    Option World :=
  if amb.inviteToken ∉ w.drawn ∧ allowed amb state op then
    some (w.operate P key amb op state).2
  else none

def World.perform (w : World) : Event P → Option World
  | .operate op inviteId =>
    w.process.bind (fun state =>
      w.serve key allowed state (w.ambient state inviteId) (op state))
  | .late received op inviteId =>
    w.process.bind (fun state =>
      if received ≤ w.clock then
        w.serve key allowed state { w.ambient state inviteId with received } (op state)
      else none)
  | .tick now => if w.clock ≤ now then some { w with clock := now } else none
  | .crash => some { w with process := none, past := [] }
  | .start relayCaDer =>
    if w.process = none then
      match Control.start w.clock none relayCaDer w.database with
      | .ok store => some { w with
          database := store.database, process := some store.state, past := [store.state] }
      | .error _ => none
    else none

end Run

variable {key : SecretKey} {allowed : Ambient → ControlState → Operation P → Prop}
  [∀ amb s op, Decidable (allowed amb s op)] {w w' : World}

omit [∀ amb s op, Decidable (allowed amb s op)] in
/-- The current state is one that a request may have seen. -/
theorem World.current_mem_past (h : (controlWhere P key allowed).Reachable w) :
    ∀ s, w.process = some s → s ∈ w.past := by
  refine h.invariant (P := fun w => ∀ s, w.process = some s → s ∈ w.past) ?_ ?_
  · rintro w ⟨_, hprocess, _⟩ s hs
    cases hs.symm.trans hprocess
  · intro w w' _ hpast hstep
    cases hstep with
    | operate amb op state running admissible allows =>
      rintro s hs
      cases hs
      exact List.mem_cons_self ..
    | tick => exact hpast
    | crash => exact fun s hs => absurd hs (by simp)
    | start ioError relayCaDer store stopped started =>
      rintro s hs
      cases hs
      exact List.mem_cons_self ..
    | bootstrap amb config prepared db stopped =>
      exact fun s hs => absurd (hs.symm.trans stopped) (by simp)

omit [∀ amb s op, Decidable (allowed amb s op)] in
theorem World.ambient_admissible (h : (controlWhere P key allowed).Reachable w) {state : ControlState}
    (hrun : w.process = some state) {inviteId : String} (hfresh : inviteId ∉ w.drawn) :
    (w.ambient state inviteId).Admissible w :=
  ⟨le_rfl, rfl, World.current_mem_past h state hrun, hfresh⟩

theorem World.serve_step {state : ControlState} {amb : Ambient} {op : Operation P}
    (hrun : w.process = some state) (hreceived : amb.received ≤ w.clock) (hclock : amb.clock = w.clock)
    (hearlier : amb.earlier ∈ w.past) (h : w.serve key allowed state amb op = some w') :
    World.Step P key allowed w w' := by
  unfold World.serve at h
  split at h
  · next hcond =>
    cases h
    exact .operate w amb op state hrun ⟨hreceived, hclock, hearlier, hcond.1⟩ hcond.2
  · cases h

theorem World.perform_step (hr : (controlWhere P key allowed).Reachable w) {e : Event P}
    (h : w.perform key allowed e = some w') : World.Step P key allowed w w' := by
  cases e with
  | operate op inviteId =>
    obtain ⟨state, hrun, h⟩ := Option.bind_eq_some_iff.1 h
    exact World.serve_step hrun le_rfl rfl (World.current_mem_past hr state hrun) h
  | late received op inviteId =>
    obtain ⟨state, hrun, h⟩ := Option.bind_eq_some_iff.1 h
    split at h
    · next hreceived =>
      exact World.serve_step hrun hreceived rfl (World.current_mem_past hr state hrun) h
    · cases h
  | tick now =>
    simp only [World.perform] at h
    split at h
    · next hle =>
      cases h
      exact .tick w now hle
    · cases h
  | crash =>
    cases h
    exact .crash w
  | start relayCaDer =>
    simp only [World.perform] at h
    split at h
    · next hstopped =>
      split at h
      · next store hstart =>
        cases h
        exact .start w none relayCaDer store hstopped hstart
      · cases h
    · cases h

/-- **Every performed run is a run.** -/
theorem World.steps_of_run (hr : (controlWhere P key allowed).Reachable w) {events : List (Event P)}
    (h : runAll (World.perform key allowed) w events = some w') :
    (controlWhere P key allowed).Steps w w' :=
  steps_of_runAll (fun _ _ _ hr h => World.perform_step hr h) hr h

/-! ## Runs of a fresh Control -/

/-- The content of the Relay CA file in a run. -/
def relayCa : List UInt8 := [0x30, 0x00]

/-- A Control initialised at time zero. -/
def World.fresh (P : Platform) : Option World :=
  match Control.init P "https://control.example" "agents" relayCa with
  | .ok db => some ⟨0, db, none, [], [], History.empty⟩
  | .error _ => none

omit [∀ amb s op, Decidable (allowed amb s op)] in
theorem World.fresh_initial (h : World.fresh P = some w) : World.Initial P w := by
  unfold World.fresh at h
  split at h
  · next db hdb =>
    cases h
    exact ⟨⟨_, _, _, hdb⟩, rfl, rfl, rfl, rfl⟩
  · cases h

/-- A fresh Control after the given events. -/
def World.after (key : SecretKey) (allowed : Ambient → ControlState → Operation P → Prop)
    [∀ amb s op, Decidable (allowed amb s op)] (events : List (Event P)) : Option World :=
  (World.fresh P).bind (fun w => runAll (World.perform key allowed) w events)

/-- What has been checked after some events holds of a reachable world. -/
theorem World.exists_after (key : SecretKey) (allowed : Ambient → ControlState → Operation P → Prop)
    [∀ amb s op, Decidable (allowed amb s op)] (events : List (Event P)) (check : World → Bool)
    (h : (World.after key allowed events).any check = true) :
    ∃ w, (controlWhere P key allowed).Reachable w ∧ check w = true := by
  obtain ⟨w, hafter, hcheck⟩ := (Option.any_eq_true _ _).1 h
  obtain ⟨w₀, hfresh, hrun⟩ := Option.bind_eq_some_iff.1 hafter
  have hinit : (controlWhere P key allowed).Reachable w₀ := ⟨w₀, World.fresh_initial hfresh, .refl⟩
  exact ⟨w, hinit.steps (World.steps_of_run hinit hrun), hcheck⟩

/-! ## Requests -/

/-- The claim of an invitation by the node with the given key. -/
def claimOf (P : Platform) (key node : SecretKey) (now : Int) (record : InviteRecord) :
    ClaimRequest :=
  let claim : Claim :=
    { protocolVersion := CONTROL_PROTOCOL_VERSION, inviteId := record.id,
      endpointId := (node.public P).text, issuedAt := now, nonce := "claim-nonce",
      relayQadPort := none, relayTlsCsr := none }
  ⟨JoinToken.new P record.invite joinSecret key, claim, P.sign node (domainBytes CLAIM_DOMAIN claim)⟩

/-- The node with the given key claims the invitation with the given id. -/
def claimRequest (P : Platform) (key node : SecretKey) (now : Int) (inviteId : String)
    (state : ControlState) : Operation P :=
  match Keyed.lookup InviteRecord.id inviteId state.invites with
  | some record => .claim (claimOf P key node now record)
  | none => .cleanup

def watchRequest (P : Platform) (node : SecretKey) (now : Int) (known : Nat) : WatchRequest :=
  let unsigned : WatchRequest :=
    { protocolVersion := CONTROL_PROTOCOL_VERSION, endpointId := (node.public P).text,
      knownRevision := known, issuedAt := now, nonce := "watch-nonce", relayQadPort := none,
      signature := ⟨""⟩ }
  { unsigned with signature := P.sign node unsigned.signingBytes }

/-- A Provisioner's request that expects the current revision. -/
def requestOf (now : Int) (requestId : String) (action : ProvisionerAction) (state : ControlState) :
    ProvisionerRequest :=
  { protocolVersion := CONTROL_PROTOCOL_VERSION, audience := state.audience, requestId,
    issuedAt := now, expectedRevision := some state.revision, action }

/-- The Provisioner with the given key asks for an action, expecting the current revision. -/
def provisionerAsks (P : Platform) (node : SecretKey) (now : Int) (requestId : String)
    (action : ProvisionerAction) (state : ControlState) : Operation P :=
  .provisioner (node.public P) (requestOf now requestId action state)

/-! ## Runs that enrol nodes -/

def enrolClient (P : Platform) (key node : SecretKey) : List (Event P) :=
  [.start relayCa, .operate (fun _ => .localAdmin (.inviteClient "a" 3600)) "invite-a",
    .operate (claimRequest P key node 0 "invite-a") "claim-a"]

/-- The edge `e` of client `a` has enrolled too. -/
def enrolEdge (P : Platform) (key node edgeNode : SecretKey) : List (Event P) :=
  enrolClient P key node ++
    [.operate (fun _ => .localAdmin (.inviteEdge "e" "a" 3600)) "invite-e",
      .operate (claimRequest P key edgeNode 0 "invite-e") "claim-e"]

/-- The edge has been removed and has enrolled again under the same name. -/
def reenrolEdge (P : Platform) (key node edgeNode : SecretKey) : List (Event P) :=
  enrolEdge P key node edgeNode ++
    [.operate (fun _ => .localAdmin (.removeEdge "a/e")) "remove-e",
      .operate (fun _ => .localAdmin (.inviteEdge "e" "a" 3600)) "invite-e-again",
      .operate (claimRequest P key edgeNode 0 "invite-e-again") "claim-e-again"]

def enrolRelay (P : Platform) (key node : SecretKey) (name url : String) : List (Event P) :=
  [.operate (fun _ => .localAdmin (.inviteRelay name url 3600)) ("invite-" ++ name),
    .operate (claimRequest P key node 0 ("invite-" ++ name)) ("claim-" ++ name)]

/-- A Provisioner `p` has invited a client `b`, which has enrolled. -/
def manageClient (P : Platform) (key node provisioner : SecretKey) : List (Event P) :=
  [.start relayCa,
    .operate (fun _ => .localAdmin (.addProvisioner "p" (provisioner.public P).text)) "add-p",
    .operate (provisionerAsks P provisioner 0 "request-1" (.inviteClient "b" 3600 joinSecret))
      "invite-b",
    .operate (claimRequest P key node 0 "invite-b") "claim-b"]

/-- Next to `b`, a client `a` that nobody manages has enrolled. -/
def manageAndEnrol (P : Platform) (key node provisioner : SecretKey) : List (Event P) :=
  manageClient P key node provisioner ++
    [.operate (fun _ => .localAdmin (.inviteClient "a" 3600)) "invite-a",
      .operate (claimRequest P key provisioner 0 "invite-a") "claim-a"]

end AgentScale.Control
