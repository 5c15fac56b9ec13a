import AgentScale.Client.Enrollment
import AgentScale.Control.Published
import AgentScale.Edge.Enrollment

set_option autoImplicit false

/-! # A Control with its Clients and Edges

Any number of Clients and Edges follow one Control. The network between them may deliver anything, in
any order and any number of times, late or never; the one assumption is that a map that verifies under
Control's key is one that Control has signed (`Genuine`). Nodes come and go, crash, restart from what
they have cached, and may be enrolled somewhere else altogether.

Whatever happens, all that the nodes know of Control's topologies comes from maps that Control has
signed (`Fleet.informed_of_reachable`). -/

namespace AgentScale

open Checked ControlApi Control Transition

variable {P : Platform} {ι κ : Type} [DecidableEq ι] [DecidableEq κ]

structure Fleet (P : Platform) (ι κ : Type) where
  control : World
  edges : ι → Edge.Agent P
  clients : κ → Client.Topology

/-- A map that verifies under the given key has been signed by Control. -/
def Genuine (P : Platform) (key : SecretKey) (w : World) (signed : SignedNodeMap) : Prop :=
  ∀ recipient, signed.verify P (key.public P) recipient = .ok () → signed.map ∈ w.history.maps

/-- One step of Control, of an Edge or of a Client. -/
inductive Fleet.Step (key : SecretKey) : Fleet P ι κ → Fleet P ι κ → Prop
  | control (f : Fleet P ι κ) (w : World) (step : World.Step P key (fun _ _ _ => True) f.control w) :
      Step key f { f with control := w }
  | edge (f : Fleet P ι κ) (i : ι) (a : Edge.Agent P)
      (step : (f.edges i).Hears (Genuine P key f.control) a) :
      Step key f { f with edges := Function.update f.edges i a }
  | client (f : Fleet P ι κ) (k : κ) (e : Client.TopologyEvent) (t : Client.Topology)
      (heard : e.Heard (Genuine P key f.control)) (performed : (f.clients k).perform P e = some t) :
      Step key f { f with clients := Function.update f.clients k t }

/-- A fresh Control, and nodes that are not enrolled. -/
def Fleet.Initial (f : Fleet P ι κ) : Prop :=
  World.Initial P f.control ∧
    (∀ i, (f.edges i).controlJson = none ∧ (f.edges i).process = none) ∧
    ∀ k, (Client.topologyWhere P (fun _ _ => True)).init (f.clients k)

/-- All runs of a Control with its Clients and Edges. -/
def fleet (P : Platform) (key : SecretKey) (ι κ : Type) [DecidableEq ι] [DecidableEq κ] :
    Transition.System (Fleet P ι κ) where
  init := Fleet.Initial
  step := Fleet.Step key

variable {key : SecretKey} {f f' : Fleet P ι κ}

/-! ## The parts on their own -/

theorem Fleet.Step.control_cases (h : Fleet.Step key f f') :
    f'.control = f.control ∨ World.Step P key (fun _ _ _ => True) f.control f'.control := by
  cases h with
  | control w step => exact .inr step
  | edge | client => exact .inl rfl

theorem Fleet.control_reachable (h : (fleet P key ι κ).Reachable f) :
    (Control.control P key).Reachable f.control := by
  refine h.invariant (P := fun f => (Control.control P key).Reachable f.control) ?_ ?_
  · intro f hf
    exact ⟨f.control, hf.1, .refl⟩
  · intro f f' _ hr hstep
    rcases hstep.control_cases with heq | hw
    · rwa [heq]
    · exact hr.step hw

theorem Fleet.control_steps (h : (fleet P key ι κ).Steps f f') :
    (Control.control P key).Steps f.control f'.control := by
  induction h with
  | refl => exact .refl
  | tail _ hlast ih =>
    rcases Fleet.Step.control_cases hlast with heq | hw
    · rwa [heq]
    · exact ih.tail hw

theorem Fleet.client_reachable (h : (fleet P key ι κ).Reachable f) (k : κ) :
    (Client.topologyWhere P (fun _ _ => True)).Reachable (f.clients k) := by
  refine h.invariant (P := fun f =>
    (Client.topologyWhere P (fun _ _ => True)).Reachable (f.clients k)) ?_ ?_
  · intro f hf
    exact ⟨_, hf.2.2 k, .refl⟩
  · intro f f' _ hr hstep
    cases hstep with
    | control | edge => exact hr
    | client k' e t heard performed =>
      by_cases hk : k = k'
      · subst hk
        simp only [Function.update_self]
        exact hr.step ⟨e, trivial, performed⟩
      · simpa only [Function.update_of_ne hk] using hr

/-! ## Signed maps -/

theorem Control.World.Step.maps_subset {allowed : Ambient → ControlState → Operation P → Prop}
    {w w' : World} (h : World.Step P key allowed w w') :
    ∀ m ∈ w.history.maps, m ∈ w'.history.maps := by
  intro m hm
  cases h with
  | operate amb op state running admissible allows =>
    simp only [World.operate, History.record, History.answer]
    split
    · next response _ =>
      cases response.nodeMap with
      | none => exact hm
      | some map => exact List.mem_cons_of_mem _ hm
    · exact hm
  | tick | crash | start | bootstrap => exact hm

/-- The maps that Control has signed, as the source of what a node knows; other Controls may tell
    their nodes what they like. -/
def signedBy (P : Platform) (key : SecretKey) (w : World) (id : EndpointId P) (m : NodeMap) : Prop :=
  id = key.public P → m ∈ w.history.maps

theorem Genuine.signedBy {w : World} {signed : SignedNodeMap} (h : Genuine P key w signed)
    {id recipient : EndpointId P} (hverify : signed.verify P id recipient = .ok ()) :
    signedBy P key w id signed.map := by
  rintro rfl
  exact h recipient hverify

/-- All that the nodes know of Control's topologies comes from maps that Control has signed. -/
structure Fleet.Informed (key : SecretKey) (f : Fleet P ι κ) : Prop where
  edges : ∀ i, (f.edges i).Informed (signedBy P key f.control)
  clients : ∀ k, (f.clients k).Informed (signedBy P key f.control)

theorem Fleet.Informed.step (h : f.Informed key) (hstep : Fleet.Step key f f') : f'.Informed key := by
  cases hstep with
  | control w step =>
    have hgrows : ∀ id m, signedBy P key f.control id m → signedBy P key w id m :=
      fun id m hm hid => step.maps_subset m (hm hid)
    exact ⟨fun i => (h.edges i).mono hgrows, fun k => (h.clients k).mono hgrows⟩
  | edge i a step =>
    refine ⟨fun j => ?_, h.clients⟩
    by_cases hj : j = i
    · subst hj
      simp only [Function.update_self]
      exact (h.edges j).hears (fun _ _ _ hgenuine hverify => hgenuine.signedBy hverify) step
    · simpa only [Function.update_of_ne hj] using h.edges j
  | client k e t heard performed =>
    refine ⟨h.edges, fun j => ?_⟩
    by_cases hj : j = k
    · subst hj
      simp only [Function.update_self]
      exact (h.clients j).perform heard (fun _ hgenuine _ hverify => hgenuine.signedBy hverify)
        performed
    · simpa only [Function.update_of_ne hj] using h.clients j

theorem Fleet.informed_of_reachable (h : (fleet P key ι κ).Reachable f) : f.Informed key := by
  refine h.invariant (P := Fleet.Informed key) ?_ (fun _ _ _ hinformed hstep => hinformed.step hstep)
  rintro f ⟨_, hedges, hclients⟩
  refine ⟨fun i => ?_, fun k => ?_⟩
  · obtain ⟨hfile, hprocess⟩ := hedges i
    exact ⟨by simp [hfile], by simp [hprocess], by simp [hprocess]⟩
  · obtain ⟨hfile, hwatcher, htransaction⟩ := hclients k
    refine ⟨?_, by simp [hwatcher], by simp [hwatcher], by simp [htransaction]⟩
    intro config hconfig control hcontrol
    exact absurd (hcontrol.symm.trans (hfile config hconfig).1) (by simp)

/-! ## Runs that can be computed -/

/-- The last map that Control has signed for a recipient. -/
def Control.World.latest (P : Platform) (key : SecretKey) (w : World) (recipient : String) :
    Option SignedNodeMap :=
  (w.history.maps.find? (·.recipientId = recipient)).map (SignedNodeMap.sign P · key)

theorem Control.World.latest_genuine {w : World} {recipient : String} {signed : SignedNodeMap}
    (h : w.latest P key recipient = some signed) : Genuine P key w signed := by
  obtain ⟨m, hm, rfl⟩ := Option.map_eq_some_iff.1 h
  exact fun _ _ => List.mem_of_find?_eq_some hm

namespace Fleet

/-- An event in a fleet of one Client and one Edge. The Edge and the Client hear the last map that was
    signed for them. -/
inductive Event (P : Platform) where
  | control (event : Control.Event P)
  | join (inviteId : String)
  | start
  | hear
  | connect (c : Edge.Connection P)
  | client (event : SignedNodeMap → Client.TopologyEvent)
  | respond

/-- The Edge has moved. -/
def withEdge (f : Fleet P Unit Unit) (a : Edge.Agent P) : Fleet P Unit Unit :=
  { f with edges := Function.update f.edges () a }

/-- The Edge enrolls with an invitation. -/
def performJoin (key : SecretKey) (f : Fleet P Unit Unit) (invite : InviteRecord)
    (signed : SignedNodeMap) : Option (Fleet P Unit Unit) :=
  let a := f.edges ()
  (Edge.joinControl P a.key a.controlJson.isSome (JoinToken.new P invite.invite joinSecret key)
    (.joined ⟨invite.invite.name, invite.invite.kind, signed, none⟩)).toOption.map (fun profile =>
      f.withEdge (a.store profile .written))

/-- A Client's event in which nothing arrives from Control. -/
def silent : Client.TopologyEvent → Bool
  | .answer (.map _) | .respond (.map _) => false
  | _ => true

/-- The Client has moved. -/
def withClient (f : Fleet P Unit Unit) (t : Client.Topology) : Fleet P Unit Unit :=
  { f with clients := Function.update f.clients () t }

def perform (key : SecretKey) (f : Fleet P Unit Unit) : Event P → Option (Fleet P Unit Unit)
  | .control event =>
    (f.control.perform key (fun _ _ _ => True) event).map (fun w => { f with control := w })
  | .join inviteId =>
    f.control.process.bind (fun state =>
      (Keyed.lookup InviteRecord.id inviteId state.invites).bind (fun invite =>
        (f.control.latest P key ((f.edges ()).key.public P).text).bind (f.performJoin key invite)))
  | .start =>
    if (f.edges ()).process.isNone then
      ((f.edges ()).start [] none).toOption.map f.withEdge
    else none
  | .hear =>
    (f.edges ()).process.bind (fun p => p.watch.bind (fun watch =>
      (f.control.latest P key ((f.edges ()).key.public P).text).bind (fun signed =>
        if watch.running then
          some (f.withEdge ((f.edges ()).respond p watch (.map signed) true))
        else none)))
  | .connect c =>
    (f.edges ()).process.bind (fun p =>
      if p.service.Fresh c then
        some (f.withEdge { f.edges () with
          process := some { p with service := p.service.connect c .written } })
      else none)
  | .client event =>
    (f.control.latest P key ((f.clients ()).key.public P).text).bind (fun signed =>
      if silent (event signed) then ((f.clients ()).perform P (event signed)).map f.withClient
      else none)
  | .respond =>
    (f.control.latest P key ((f.clients ()).key.public P).text).bind (fun signed =>
      ((f.clients ()).perform P (.respond (.map signed))).map f.withClient)

theorem heard_of_silent {w : World} {e : Client.TopologyEvent} (h : silent e = true) :
    e.Heard (Genuine P key w) := by
  cases e with
  | answer response | respond response =>
    cases response with
    | map signed => cases h
    | noContent | refused | failed => exact trivial
  | spawn | load | save | saveFails | begin | commit | abort => exact trivial

theorem perform_step {f f' : Fleet P Unit Unit} (hr : (fleet P key Unit Unit).Reachable f) {e : Event P}
    (h : f.perform key e = some f') : Step key f f' := by
  cases e with
  | control event =>
    obtain ⟨w, hw, rfl⟩ := Option.map_eq_some_iff.1 h
    exact .control f w (World.perform_step (control_reachable hr) hw)
  | join inviteId =>
    obtain ⟨state, _, h⟩ := Option.bind_eq_some_iff.1 h
    obtain ⟨invite, _, h⟩ := Option.bind_eq_some_iff.1 h
    obtain ⟨signed, hlatest, h⟩ := Option.bind_eq_some_iff.1 h
    obtain ⟨profile, hprofile, rfl⟩ := Option.map_eq_some_iff.1 h
    refine .edge f () _ (.join _ _ _ profile .written ?_ (toOption_eq_some.1 hprofile))
    intro result hresult
    obtain rfl := Edge.ClaimResponse.joined.inj hresult
    exact World.latest_genuine hlatest
  | start =>
    obtain ⟨hstopped, h⟩ := Option.ite_none_right_eq_some.1 h
    obtain ⟨a, ha, rfl⟩ := Option.map_eq_some_iff.1 h
    exact .edge f () a (.start _ a [] none (Option.isNone_iff_eq_none.1 hstopped)
      (toOption_eq_some.1 ha))
  | hear =>
    obtain ⟨p, hrun, h⟩ := Option.bind_eq_some_iff.1 h
    obtain ⟨watch, hwatch, h⟩ := Option.bind_eq_some_iff.1 h
    obtain ⟨signed, hlatest, h⟩ := Option.bind_eq_some_iff.1 h
    obtain ⟨hlooping, h⟩ := Option.ite_none_right_eq_some.1 h
    cases h
    refine .edge f () _ (.respond _ p watch (.map signed) true ?_ hrun hwatch hlooping)
    intro next hnext
    obtain rfl := Edge.WatchResponse.map.inj hnext
    exact World.latest_genuine hlatest
  | connect c =>
    obtain ⟨p, hrun, h⟩ := Option.bind_eq_some_iff.1 h
    obtain ⟨hfresh, h⟩ := Option.ite_none_right_eq_some.1 h
    cases h
    exact .edge f () _ (.connect _ p c .written hrun hfresh)
  | client event =>
    obtain ⟨signed, _, h⟩ := Option.bind_eq_some_iff.1 h
    obtain ⟨hheard, h⟩ := Option.ite_none_right_eq_some.1 h
    obtain ⟨t, ht, rfl⟩ := Option.map_eq_some_iff.1 h
    exact .client f () (event signed) t (heard_of_silent hheard) ht
  | respond =>
    obtain ⟨signed, hlatest, h⟩ := Option.bind_eq_some_iff.1 h
    obtain ⟨t, ht, rfl⟩ := Option.map_eq_some_iff.1 h
    exact .client f () (.respond (.map signed)) t (World.latest_genuine hlatest) ht

def fresh (P : Platform) (edgeKey clientKey : SecretKey) : Option (Fleet P Unit Unit) :=
  (World.fresh P).map (fun w => ⟨w, fun _ => ⟨edgeKey, none, none, none, false⟩,
    fun _ => ⟨clientKey, none, .stopped, none⟩⟩)

/-- What has been checked after some events, and after some more, holds along a run. -/
theorem exists_after (key edgeKey clientKey : SecretKey) (events later : List (Event P))
    (check : Fleet P Unit Unit → Fleet P Unit Unit → Bool)
    (h : ((fresh P edgeKey clientKey).bind (fun f => runAll (perform key) f events)).any (fun f =>
      (runAll (perform key) f later).any (check f)) = true) :
    ∃ f f', (fleet P key Unit Unit).Reachable f ∧ (fleet P key Unit Unit).Steps f f' ∧
      check f f' = true := by
  obtain ⟨f, hafter, h⟩ := (Option.any_eq_true _ _).1 h
  obtain ⟨f', hlater, hcheck⟩ := (Option.any_eq_true _ _).1 h
  obtain ⟨f₀, hfresh, hrun⟩ := Option.bind_eq_some_iff.1 hafter
  obtain ⟨w, hw, rfl⟩ := Option.map_eq_some_iff.1 hfresh
  have hinit : (fleet P key Unit Unit).Reachable ⟨w, fun _ => ⟨edgeKey, none, none, none, false⟩,
      fun _ => ⟨clientKey, none, .stopped, none⟩⟩ :=
    ⟨_, ⟨World.fresh_initial hw, fun _ => ⟨rfl, rfl⟩, fun _ => ⟨by simp, rfl, rfl⟩⟩, .refl⟩
  have hperform : ∀ a b e, (fleet P key Unit Unit).Reachable a → a.perform key e = some b →
      (fleet P key Unit Unit).step a b := fun _ _ _ hr h => perform_step hr h
  have hr := hinit.steps (steps_of_runAll hperform hinit hrun)
  exact ⟨f, f', hr, steps_of_runAll hperform hr hlater, hcheck⟩

end Fleet

end AgentScale
