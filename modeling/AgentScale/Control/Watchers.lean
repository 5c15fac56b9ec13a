import AgentScale.Control.Maps
import AgentScale.Library.Notify

set_option autoImplicit false

/-! # Requests that wait for a revision

`watch` and `relay_watch` wait in the loops `wait_for_revision` and `wait_for_relay_revision`. A `Hub`
is a Control together with the requests in these loops and the two notifiers `commit_delta` fires. A
round of a loop takes a ticket of its notifier, decides under the state lock, and parks on the ticket
with the lock released, so every other step may come between. A commit holds the lock until it has
notified, and is one step. -/

namespace AgentScale.Control

open Checked ControlApi RelayApi

variable (P : Platform)

/-- The two loops. -/
inductive Watch where
  | nodes
  | relays

/-- A request in one of the loops. -/
structure Waiter where
  watch : Watch
  endpointId : EndpointId P
  known : Nat
  phase : Notify.Phase

/-- What a round of the waiter's loop decides; `false` is to park. -/
def Waiter.round {P : Platform} (waiter : Waiter P) (state : ControlState) : Except ApiError Bool :=
  match waiter.watch with
  | .nodes => waitForRevision P waiter.endpointId waiter.known state
  | .relays => waitForRelayRevision P waiter.endpointId waiter.known state

/-- A Control with its waiting requests. `changed` and `relayChanged` count the notifications. -/
structure Hub where
  world : World
  changed : Nat
  relayChanged : Nat
  waiters : List (Waiter P)

variable {P}

/-- The notifications of the notifier a loop waits for. -/
def Hub.notifications (h : Hub P) : Watch → Nat
  | .nodes => h.changed
  | .relays => h.relayChanged

/-- The notifications at the end of `commit_delta`. -/
def Hub.notify (publish : Publish) (h : Hub P) : Hub P :=
  match publish with
  | .none => h
  | .nodes => { h with changed := h.changed + 1 }
  | .nodesAndRelays => { h with changed := h.changed + 1, relayChanged := h.relayChanged + 1 }

/-- What an operation publishes: a delta that the store does not accept publishes nothing. -/
def World.published (key : SecretKey) (amb : Ambient) (op : Operation P) (state : ControlState)
    (w : World) : Publish :=
  match op.plan P key amb state with
  | .ok (.commit delta _) =>
    match commitDelta amb.ioError ⟨w.database, state⟩ delta with
    | .ok _ => delta.publish
    | .error _ => .none
  | _ => .none

def Hub.serve (key : SecretKey) (amb : Ambient) (op : Operation P) (state : ControlState) (h : Hub P) :
    Hub P :=
  Hub.notify (h.world.published key amb op state)
    { h with world := (h.world.operate P key amb op state).2 }

variable (P) in
/-- One step of a Control and its waiting requests. -/
inductive Hub.Step (key : SecretKey) : Hub P → Hub P → Prop
  | serve (h : Hub P) (amb : Ambient) (op : Operation P) (state : ControlState)
      (running : h.world.process = some state) (admissible : amb.Admissible h.world) :
      Step key h (h.serve key amb op state)
  | tick (h : Hub P) (now : Int) (later : h.world.clock ≤ now) :
      Step key h { h with world := { h.world with clock := now } }
  /-- A crash, a start or an offline `bootstrap`: nothing waits for a process that does not run. -/
  | offline (h : Hub P) (w : World) (step : World.Step P key (fun _ _ _ => True) h.world w)
      (stopped : h.world.process = none ∨ w.process = none) : Step key h ⟨w, 0, 0, []⟩
  /-- A request enters its loop and takes a ticket. -/
  | enter (h : Hub P) (watch : Watch) (endpointId : EndpointId P) (known : Nat) (state : ControlState)
      (running : h.world.process = some state) :
      Step key h { h with
        waiters := ⟨watch, endpointId, known, .armed (h.notifications watch)⟩ :: h.waiters }
  /-- A round decides to wait, and parks. -/
  | park (h : Hub P) (before after : List (Waiter P)) (waiter : Waiter P) (ticket : Nat)
      (state : ControlState) (running : h.world.process = some state)
      (waiting : h.waiters = before ++ waiter :: after) (armed : waiter.phase = .armed ticket)
      (decides : waiter.round state = .ok false) :
      Step key h { h with
        waiters := before ++ { waiter with phase := .parked ticket } :: after }
  /-- The ticket has fired: the next round takes a new one. -/
  | wake (h : Hub P) (before after : List (Waiter P)) (waiter : Waiter P) (ticket : Nat)
      (waiting : h.waiters = before ++ waiter :: after) (parked : waiter.phase = .parked ticket)
      (fired : Notify.Fired (h.notifications waiter.watch) ticket) :
      Step key h { h with
        waiters := before ++ { waiter with phase := .armed (h.notifications waiter.watch) } :: after }
  /-- A request leaves: its round returned, its thirty seconds are over, or its peer is gone. -/
  | leave (h : Hub P) (before after : List (Waiter P)) (waiter : Waiter P)
      (waiting : h.waiters = before ++ waiter :: after) :
      Step key h { h with waiters := before ++ after }

variable (P) in
/-- All runs of a Control with the given key and of the requests that wait for it. -/
def hub (key : SecretKey) : Transition.System (Hub P) where
  init := fun h => World.Initial P h.world ∧ h.changed = 0 ∧ h.relayChanged = 0 ∧ h.waiters = []
  step := Hub.Step P key

variable {key : SecretKey} {amb : Ambient} {s state : ControlState} {delta : StateDelta}
  {asked : Demand} {h h' : Hub P} {waiter : Waiter P}

/-! ## The Control of a hub -/

@[simp] theorem Hub.notify_world (publish : Publish) (h : Hub P) :
    (h.notify publish).world = h.world := by
  cases publish <;> rfl

@[simp] theorem Hub.notify_waiters (publish : Publish) (h : Hub P) :
    (h.notify publish).waiters = h.waiters := by
  cases publish <;> rfl

/-- The waiting requests do not get in Control's way. -/
theorem hub_simulates_control (P : Platform) (key : SecretKey) :
    Transition.Simulation (hub P key) (control P key) (fun h w => h.world = w) where
  init := fun h hinit => ⟨h.world, hinit.1, rfl⟩
  step := by
    rintro h h' w _ _ rfl hstep
    cases hstep with
    | serve amb op state running admissible =>
      exact ⟨_, .single (.operate h.world amb op state running admissible trivial), by simp [Hub.serve]⟩
    | tick now later => exact ⟨_, .single (.tick h.world now later), rfl⟩
    | offline w step stopped => exact ⟨w, .single step, rfl⟩
    | enter | park | wake | leave => exact ⟨h.world, .refl, rfl⟩

theorem Hub.world_reachable (hr : (hub P key).Reachable h) : (control P key).Reachable h.world := by
  obtain ⟨w, hw, rfl⟩ := (hub_simulates_control P key).reachable hr
  exact hw

/-- Control has all its runs while nothing waits. -/
theorem control_simulates_hub (P : Platform) (key : SecretKey) :
    Transition.Simulation (control P key) (hub P key) (fun w h => h.world = w ∧ h.waiters = []) where
  init := fun w hinit => ⟨⟨w, 0, 0, []⟩, ⟨hinit, rfl, rfl, rfl⟩, rfl, rfl⟩
  step := by
    rintro w w' h _ _ ⟨rfl, hnone⟩ hstep
    cases hstep with
    | operate amb op state running admissible _ =>
      exact ⟨_, .single (.serve h amb op state running admissible), by simp [Hub.serve],
        by simpa [Hub.serve] using hnone⟩
    | tick now later => exact ⟨_, .single (.tick h now later), rfl, hnone⟩
    | crash => exact ⟨_, .single (.offline h _ (.crash h.world) (.inr rfl)), rfl, rfl⟩
    | start ioError relayCaDer store stopped started =>
      exact ⟨_, .single (.offline h _ (.start h.world ioError relayCaDer store stopped started)
        (.inl stopped)), rfl, rfl⟩
    | bootstrap amb config prepared db stopped received clock fresh prepares =>
      exact ⟨_, .single (.offline h _ (.bootstrap h.world amb config prepared db stopped received
        clock fresh prepares) (.inl stopped)), rfl, rfl⟩

/-- An operation publishes nothing and changes nothing, or publishes what it commits. -/
theorem World.published_cases {w : World} {l : Ledger} (href : Refines w l) {op : Operation P}
    (hrun : w.process = some state) :
    ((w.operate P key amb op state).2.process = some state ∧
      w.published key amb op state = .none) ∨
    ∃ delta respond, op.plan P key amb state = .ok (.commit delta respond) ∧
      (w.operate P key amb op state).2.process = some (delta.commit state) ∧
      w.published key amb op state = delta.publish := by
  cases hplan : op.plan P key amb state with
  | error e =>
    left
    simp only [World.operate, World.published, hplan, Plan.run, and_self]
  | ok plan =>
    cases plan with
    | reply answer =>
      left
      simp only [World.operate, World.published, hplan, Plan.run, and_self]
    | commit delta respond =>
      cases hcommit : commitDelta amb.ioError ⟨w.database, state⟩ delta with
      | error e =>
        left
        simp only [World.operate, World.published, hplan, Plan.run, hcommit, and_self]
      | ok store =>
        obtain rfl := href.process state hrun
        have hstate := (commitDelta_eq_ok href.represents hcommit).1
        refine .inr ⟨delta, respond, rfl, ?_, ?_⟩
        · rw [← hstate, (World.committed_of_plan hplan hcommit).2]
        · simp only [World.published, hplan, hcommit]

/-! ## What a waiter waits for -/

/-- The revision a loop compares with. -/
def Watch.revision (s : ControlState) : Watch → Nat
  | .nodes => s.revision
  | .relays => s.relayRevision

/-- The endpoint is registered in the role a loop serves. -/
def Watch.Registered (s : ControlState) (id : String) : Watch → Prop
  | .nodes => (∃ client ∈ s.clients, client.endpointId = id) ∨ ∃ edge ∈ s.edges, edge.endpointId = id
  | .relays => ∃ relay ∈ s.relays, relay.endpointId = id

/-- There is nothing new for the waiter, and its endpoint is still registered. -/
def Waiter.Waits (waiter : Waiter P) (s : ControlState) : Prop :=
  waiter.watch.revision s ≤ waiter.known ∧ waiter.watch.Registered s waiter.endpointId.text

/-- A round parks only when there is nothing new. -/
theorem Waiter.waits_of_round (hround : waiter.round s = .ok false) : waiter.Waits s := by
  obtain ⟨watch, endpointId, known, phase⟩ := waiter
  cases watch with
  | nodes =>
    obtain ⟨_, hexists, hround⟩ := of_bind hround
    refine ⟨not_lt.1 (of_decide_eq_false (pure_eq_ok.1 hround)), ?_⟩
    simpa [Watch.Registered] using ensure_eq_ok.1 hexists
  | relays =>
    obtain ⟨_, hexists, hround⟩ := of_bind hround
    obtain ⟨_, _, hround⟩ := of_bind hround
    refine ⟨not_lt.1 (of_decide_eq_false (pure_eq_ok.1 hround)), ?_⟩
    simpa [Watch.Registered] using ensure_eq_ok.1 hexists

/-! ## Commits that do not notify -/

/-- A commit that publishes no revision keeps every node registered. -/
theorem ControlState.SameTopology.registered {s' : ControlState} {id : String}
    (h : s'.SameTopology s) (hreg : Watch.nodes.Registered s id) : Watch.nodes.Registered s' id := by
  rcases hreg with ⟨client, hclient, hid⟩ | ⟨edge, hedge, hid⟩
  · obtain ⟨client', hclient', hsite⟩ :=
      List.mem_map.1 (h.clients.mem_iff.2 (List.mem_map_of_mem hclient))
    exact .inl ⟨client', hclient', (congrArg Prod.fst hsite).trans hid⟩
  · obtain ⟨edge', hedge', hsite⟩ := List.mem_map.1 (h.edges.mem_iff.2 (List.mem_map_of_mem hedge))
    exact .inr ⟨edge', hedge', (congrArg EdgeSite.endpointId hsite).trans hid⟩

/-- A commit that publishes no Relay revision keeps every Relay registered. -/
theorem Mutation.keeps_relays (h : Mutation P asked amb s delta) (hk : s.Keyed)
    (hquiet : delta.publish ≠ .nodesAndRelays) {relay : RelayRecord} (hrelay : relay ∈ s.relays) :
    ∃ relay' ∈ (delta.commit s).relays, relay'.endpointId = relay.endpointId := by
  cases h with
  | removeClient | removeEdge | removeRelay => exact absurd rfl hquiet
  | claim invite endpointId port change mem pending node =>
    rcases claimedNodeChange_eq_ok P node with ⟨_, _, rfl⟩ | ⟨_, _, _, rfl⟩ | ⟨_, _, _, rfl⟩
    · exact ⟨relay, hrelay, rfl⟩
    · exact ⟨relay, hrelay, rfl⟩
    · exact Keyed.exists_key_upsert hk.relays hrelay
  | qadPort => exact Keyed.exists_key_upsert hk.relays hrelay
  | newInvite | revokeInvite | transferEdge | addProvisioner | removeProvisioner | renewClient
    | renewEdge => exact ⟨relay, hrelay, rfl⟩
  | cleanup =>
    rw [cleanup_commit hk]
    exact ⟨relay, hrelay, rfl⟩
  | bootstrap record =>
    rw [bootstrap_commit_invites]
    exact ⟨relay, hrelay, rfl⟩

theorem StateDelta.commit_relayRevision (hquiet : delta.publish ≠ .nodesAndRelays) :
    (delta.commit s).relayRevision = s.relayRevision := by
  cases hpublish : delta.publish with
  | none | nodes => simp only [StateDelta.commit, hpublish, Publish.relayRevisions, Nat.add_zero]
  | nodesAndRelays => exact absurd hpublish hquiet

/-- A commit leaves every waiter right to wait or notifies it. -/
theorem Mutation.sound (hm : Mutation P asked amb s delta) (hk : s.Keyed)
    (hs : Notify.Sound waiter.Waits s (h.notifications waiter.watch) waiter.phase) :
    Notify.Sound waiter.Waits (delta.commit s) ((h.notify delta.publish).notifications waiter.watch)
      waiter.phase := by
  obtain ⟨watch, endpointId, known, phase⟩ := waiter
  cases watch with
  | nodes =>
    cases hpublish : delta.publish with
    | nodes | nodesAndRelays => exact hs.notify
    | none =>
      have hsame := hm.sameTopology hk hpublish
      exact hs.quiet (fun ⟨hknown, hreg⟩ =>
        ⟨hsame.revision.trans_le hknown, hsame.registered hreg⟩)
  | relays =>
    have hkeeps (hquiet : delta.publish ≠ .nodesAndRelays) :
        Waiter.Waits ⟨.relays, endpointId, known, phase⟩ s →
          Waiter.Waits ⟨.relays, endpointId, known, phase⟩ (delta.commit s) := by
      rintro ⟨hknown, relay, hrelay, hid⟩
      obtain ⟨relay', hrelay', hid'⟩ := hm.keeps_relays hk hquiet hrelay
      exact ⟨(StateDelta.commit_relayRevision hquiet).trans_le hknown, relay', hrelay',
        hid'.trans hid⟩
    cases hpublish : delta.publish with
    | none | nodes => exact hs.quiet (hkeeps (by simp [hpublish]))
    | nodesAndRelays => exact hs.notify

/-! ## Runs -/

/-- Every waiter of a hub is right to wait for the state of the running process, or its ticket has
    fired. -/
def Hub.Sound (h : Hub P) : Prop :=
  ∀ waiter ∈ h.waiters, ∃ s, h.world.process = some s ∧
    Notify.Sound waiter.Waits s (h.notifications waiter.watch) waiter.phase

theorem Hub.Sound.step (hr : (hub P key).Reachable h) (hs : h.Sound) (hstep : Hub.Step P key h h') :
    h'.Sound := by
  cases hstep with
  | serve amb op state running admissible =>
    intro waiter hw
    rw [Hub.serve, Hub.notify_waiters] at hw
    obtain ⟨_, hrun, hsound⟩ := hs waiter hw
    cases running.symm.trans hrun
    obtain ⟨l, hl, href⟩ := exists_ledger (Hub.world_reachable hr)
    rw [Hub.serve, Hub.notify_world]
    rcases World.published_cases href running with ⟨hrun', hnone⟩ |
      ⟨delta, respond, hplan, hrun', hpublish⟩
    · rw [hnone]
      exact ⟨state, hrun', hsound⟩
    · rw [hpublish]
      have hk : state.Keyed := href.process state running ▸ href.represents.keyed
      refine ⟨delta.commit state, hrun', ?_⟩
      exact (Operation.plan_mutation op.within_any hplan).sound hk hsound
  | tick now later => exact hs
  | offline w step stopped => exact fun waiter hw => absurd hw List.not_mem_nil
  | enter watch endpointId known state running =>
    intro waiter hw
    rcases List.mem_cons.1 hw with rfl | hw
    · exact ⟨state, running, .arm⟩
    · exact hs waiter hw
  | park before after waiter ticket state running waiting armed decides =>
    intro other hother
    rcases Lists.mem_replace (x := waiter) hother with rfl | hmem
    · obtain ⟨_, hrun, hsound⟩ := hs waiter (waiting ▸ List.mem_append_right _ List.mem_cons_self)
      cases running.symm.trans hrun
      rw [armed] at hsound
      exact ⟨state, running, hsound.park (Waiter.waits_of_round decides)⟩
    · exact hs other (waiting ▸ hmem)
  | wake before after waiter ticket waiting parked fired =>
    intro other hother
    rcases Lists.mem_replace (x := waiter) hother with rfl | hmem
    · obtain ⟨s, hrun, _⟩ := hs waiter (waiting ▸ List.mem_append_right _ List.mem_cons_self)
      exact ⟨s, hrun, .arm⟩
    · exact hs other (waiting ▸ hmem)
  | leave before after waiter waiting =>
    intro other hother
    refine hs other (waiting ▸ ?_)
    exact (List.sublist_cons_self waiter after).append_left before |>.subset hother

theorem Hub.sound_of_reachable (hr : (hub P key).Reachable h) : h.Sound := by
  refine hr.invariant (P := Hub.Sound) ?_ (fun h h' hr hs hstep => hs.step hr hstep)
  rintro h ⟨_, _, _, hwaiters⟩ waiter hw
  exact absurd (hwaiters ▸ hw) List.not_mem_nil

/-- **A parked watcher has missed nothing.** In every run of a Control and of any number of requests
    in the two loops, a request that is parked on a ticket that has not fired knows the revision of
    the running process, and its endpoint is still registered. -/
theorem no_revision_is_missed (hr : (hub P key).Reachable h) (hw : waiter ∈ h.waiters) {ticket : Nat}
    (hparked : waiter.phase = .parked ticket)
    (hquiet : ¬ Notify.Fired (h.notifications waiter.watch) ticket) :
    ∃ s, h.world.process = some s ∧ waiter.watch.revision s ≤ waiter.known ∧
      waiter.watch.Registered s waiter.endpointId.text := by
  obtain ⟨s, hrun, hsound⟩ := Hub.sound_of_reachable hr waiter hw
  rw [hparked] at hsound
  exact ⟨s, hrun, hsound.waits_of_not_fired hquiet⟩

section Example

open Reference

/-- A client that knows the current revision waits for the next one. -/
theorem client_watch_parks : ∃ (h : Hub (platform [])) (waiter : Waiter (platform [])) (s : ControlState),
    (hub (platform []) controlKey).Reachable h ∧ waiter ∈ h.waiters ∧
      waiter.phase = .parked (h.notifications waiter.watch) ∧ h.world.process = some s ∧
      waiter.watch = .nodes ∧ s.revision ≤ waiter.known := by
  obtain ⟨w, hw, hcheck⟩ := World.exists_after (P := platform []) controlKey (fun _ _ _ => True)
    (enrolClient (platform []) controlKey nodeKey) (fun w => w.process.any (fun s => decide
      ((waitForRevision (platform []) (nodeKey.public (platform [])) s.revision s).toOption =
        some false))) (by decide +kernel)
  obtain ⟨h, hr, rfl, _⟩ := (control_simulates_hub _ _).reachable hw
  obtain ⟨s, hs, hcheck⟩ := (Option.any_eq_true _ _).1 hcheck
  let client : Waiter (platform []) :=
    ⟨.nodes, nodeKey.public (platform []), s.revision, .armed h.changed⟩
  have henter := hr.step (.enter h .nodes client.endpointId client.known s hs)
  have hpark := henter.step (.park _ [] h.waiters client h.changed s hs rfl rfl
    (toOption_eq_some.1 (of_decide_eq_true hcheck)))
  obtain ⟨s', hs', hknown, _⟩ := no_revision_is_missed hpark List.mem_cons_self rfl (Nat.lt_irrefl _)
  exact ⟨_, _, s', hpark, List.mem_cons_self, rfl, hs', rfl, hknown⟩

end Example

end AgentScale.Control
