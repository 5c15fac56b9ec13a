import AgentScale.Control.Ledger

set_option autoImplicit false

/-! # Control refines the ledger

Every step of a `World` is matched by steps of the ledger: an operation by a commit and the signing of
the map it answers with, a start by a reordering and a cleanup, `bootstrap` by a reordering and a
commit. The relation between the two is that the database represents the ledger's state, and the
process, while it runs, holds exactly that state. -/

namespace AgentScale.Control

open Checked ControlApi RelayApi

variable {P : Platform} {key : SecretKey} {amb : Ambient} {state : ControlState}
  {allowed : Ambient → ControlState → Operation P → Prop}

/-! ## Running a decision -/

/-- Running a decision leaves the store alone, or commits a delta and answers from the new state. -/
theorem Plan.run_cases {α : Type} {ioError : Option String} {store store' : Store}
    {x : Except ApiError (Plan α)} {result : Except ApiError α}
    (h : Plan.run ioError store x = (result, store')) :
    (store' = store ∧ ((∃ e, result = .error e) ∨
      ∃ answer, x = .ok (.reply answer) ∧ result = .ok answer)) ∨
    ∃ delta respond, x = .ok (.commit delta respond) ∧
      commitDelta ioError store delta = .ok store' ∧ result = respond store'.state := by
  cases x with
  | error e =>
    obtain ⟨rfl, rfl⟩ := Prod.mk.inj h
    exact .inl ⟨rfl, .inl ⟨e, rfl⟩⟩
  | ok plan =>
    cases plan with
    | reply answer =>
      obtain ⟨rfl, rfl⟩ := Prod.mk.inj h
      exact .inl ⟨rfl, .inr ⟨answer, rfl, rfl⟩⟩
    | commit delta respond =>
      simp only [Plan.run] at h
      split at h
      · next e he =>
        obtain ⟨rfl, rfl⟩ := Prod.mk.inj h
        exact .inl ⟨rfl, .inl ⟨e, rfl⟩⟩
      · next committed hc =>
        obtain ⟨rfl, rfl⟩ := Prod.mk.inj h
        exact .inr ⟨delta, respond, rfl, hc, rfl⟩

theorem removalsBetween_self (s : ControlState) : removalsBetween s s = [] := by
  unfold removalsBetween
  rw [List.map_eq_nil_iff, List.filter_eq_nil_iff]
  intro r hr
  simp only [Bool.not_eq_true', Bool.not_eq_false, List.any_eq_true]
  exact ⟨r, hr, by simp⟩

theorem removalsBetween_cleanup (now : Int) (s : ControlState) :
    removalsBetween s (cleanupRevocations now (cleanupInvitations now s)) = [] :=
  removalsBetween_self s

theorem Operation.enrols_self (op : Operation P) (s : ControlState) : op.enrols s s = [] := by
  cases op <;> simp [Operation.enrols, nodesChanged]

theorem History.change_self (op : Operation P) (s : ControlState) (h : History) :
    h.change s s (op.enrols s s) = h := by
  simp [History.change, removalsBetween_self, op.enrols_self]

/-- A fresh Relay invitation in place of the pending ones leaves the ids distinct. -/
theorem bootstrapped_keyed {s : ControlState} {record : InviteRecord} (hk : s.Keyed)
    (habsent : ∀ invite ∈ s.invites, invite.id ≠ record.id) : ControlState.Keyed { s with
      invites := s.invites.filter (fun i => !i.isPendingRelay) ++ [record] } := by
  refine { hk with invites := ?_ }
  have hsub : Keyed.Distinct InviteRecord.id (s.invites.filter (fun i => !i.isPendingRelay)) :=
    hk.invites.sublist List.filter_sublist
  rw [← Keyed.upsert_of_absent (fun i hi => habsent i (List.mem_filter.1 hi).1)]
  exact hsub.upsert

/-! ## The simulation -/

/-- The database represents the ledger's state, and a running process holds it. -/
structure Refines (w : World) (l : Ledger) : Prop where
  clock : l.clock = w.clock
  drawn : l.drawn = w.drawn
  history : l.history = w.history
  represents : Represents w.database.tables l.state
  schema : l.state.schema = STATE_SCHEMA
  process : ∀ s, w.process = some s → s = l.state

namespace Refines

variable {w : World} {l : Ledger}

/-- Recording an answer in the ledger signs the map it carries. -/
theorem record_answer (l₁ : Ledger) {result : Except ApiError Response}
    (hserves : ∀ answer map, result = .ok answer → answer.nodeMap = some map →
      ∃ recipient signed, signedMap P l₁.state key l₁.clock recipient = .ok signed ∧
        signed.map = map) :
    (ledgerWhere P key allowed).Steps l₁
      { l₁ with history := l₁.history.answer P key l₁.state result } := by
  cases result with
  | error e => exact .refl
  | ok answer =>
    simp only [History.answer]
    cases hmap : answer.nodeMap with
    | none => exact .refl
    | some map =>
      obtain ⟨recipient, signed, hsigned, rfl⟩ := hserves answer map rfl hmap
      exact .single (.issue l₁ recipient signed hsigned)

theorem operate (h : Refines w l) {op : Operation P} (hrun : w.process = some state)
    (hamb : amb.Admissible w) (hallows : allowed amb state op) :
    ∃ l', (ledgerWhere P key allowed).Steps l l' ∧ Refines (w.operate P key amb op state).2 l' := by
  obtain rfl := h.process state hrun
  rcases hresult : Plan.run amb.ioError ⟨w.database, l.state⟩ (op.plan P key amb l.state) with
    ⟨result, store⟩
  have hw : (w.operate P key amb op l.state).2 = { w with
      database := store.database, process := some store.state, past := store.state :: w.past,
      drawn := amb.inviteToken :: w.drawn,
      history := w.history.record P key op result l.state store.state } := by
    simp only [World.operate, hresult]
  rw [hw]
  rcases Plan.run_cases hresult with ⟨rfl, hunchanged⟩ | ⟨delta, respond, hplan, hcommit, rfl⟩
  · -- nothing is committed: the id is drawn, and the answer may still carry a map
    have hserves : ∀ answer map, result = .ok answer → answer.nodeMap = some map →
        ∃ recipient signed, signedMap P l.state key l.clock recipient = .ok signed ∧
          signed.map = map := by
      rintro answer map rfl hmap
      rcases hunchanged with ⟨_, he⟩ | ⟨_, hreply, hanswer⟩
      · cases he
      · cases hanswer
        rw [h.clock, ← hamb.clock]
        exact Operation.plan_reply_map hreply hmap
    refine ⟨_, Relation.ReflTransGen.trans (.single (.draw l amb.inviteToken))
      (record_answer { l with drawn := amb.inviteToken :: l.drawn } hserves), ?_⟩
    refine ⟨h.clock, congrArg _ h.drawn, ?_, h.represents, h.schema, ?_⟩
    · simp only [History.record, History.change_self, h.history]
    · rintro s hs
      exact (Option.some.inj hs).symm
  · -- a commit, then the answer from the committed state
    obtain ⟨hstate, hrep, hfits⟩ := commitDelta_eq_ok h.represents hcommit
    have hkeyed := h.represents.keyed
    have hserves : ∀ answer map, respond store.state = .ok answer → answer.nodeMap = some map →
        ∃ recipient signed, signedMap P (delta.commit l.state) key l.clock recipient = .ok signed ∧
          signed.map = map := by
      intro answer map hanswer hmap
      rw [h.clock, ← hamb.clock, ← hstate]
      exact Operation.plan_commit_map hplan hanswer hmap
    have hcommitStep : Ledger.Step P key allowed l { l with
        state := delta.commit l.state
        drawn := [amb.inviteToken] ++ l.drawn
        history := l.history.change l.state (delta.commit l.state)
          (op.enrols l.state (delta.commit l.state)) } := by
      refine .commit l amb delta [amb.inviteToken] _ (h.clock ▸ hamb.received)
        (hamb.clock.trans h.clock.symm) (.inl ⟨rfl, h.drawn ▸ hamb.fresh⟩)
        (.operation op delta respond hallows hplan) ?_ ?_ (Operation.enrols_usesUp hkeyed hplan)
      · rw [← hstate]
        exact hrep.wellFormed
      · rw [← hstate]
        exact hfits
    refine ⟨_, Relation.ReflTransGen.trans (.single hcommitStep) (record_answer _ hserves), ?_⟩
    refine ⟨h.clock, congrArg _ h.drawn, ?_, ?_, ?_, ?_⟩
    · simp only [History.record, ← h.history, hstate]
    · rw [← hstate]
      exact hrep
    · exact (delta.commit_schema l.state).trans h.schema
    · rintro s hs
      exact (Option.some.inj hs).symm.trans hstate

/-- What a stopped Control loads is the ledger's state up to order. -/
theorem reorder (P : Platform) (key : SecretKey)
    (allowed : Ambient → ControlState → Operation P → Prop) (h : Refines w l) {loaded : ControlState}
    (hload : w.database.load = .ok loaded) :
    (ledgerWhere P key allowed).Steps l { l with state := loaded } ∧
      Represents w.database.tables loaded ∧ loaded.schema = STATE_SCHEMA := by
  obtain ⟨hrep, hschema⟩ := w.database.load_represents hload h.represents.keys
  exact ⟨.single (.reorder l loaded (hrep.same h.represents) hrep.wellFormed), hrep, hschema⟩

theorem start (h : Refines w l) {ioError : Option String} {relayCaDer : List UInt8} {store : Store}
    (hstart : Control.start w.clock ioError relayCaDer w.database = .ok store) :
    ∃ l', (ledgerWhere P key allowed).Steps l l' ∧ Refines { w with
      database := store.database, process := some store.state, past := [store.state] } l' := by
  obtain ⟨loaded, hload, hstart⟩ := of_bind hstart
  obtain ⟨_, _, hstart⟩ := of_bind hstart
  obtain ⟨_, _, hstart⟩ := of_bind hstart
  obtain ⟨db, hdb, hstart⟩ := of_bind hstart
  cases hstart
  obtain ⟨hsteps, hrep, hschema⟩ := h.reorder P key allowed hload
  have hnext := cleanup_commit hrep.keyed w.clock
  have hkeyed : (cleanupRevocations w.clock (cleanupInvitations w.clock loaded)).Keyed :=
    { hrep.keyed with
      invites := hrep.keyed.invites.sublist List.filter_sublist
      revocations := hrep.keyed.revocations.sublist List.filter_sublist }
  obtain ⟨hrep', hfits⟩ := hrep.applySync hkeyed (transaction_eq_ok hdb)
  rw [← hnext] at hrep' hfits ⊢
  let amb : Ambient := ⟨w.clock, loaded, w.clock, "", "", none⟩
  have hcommit : Ledger.Step P key allowed { l with state := loaded } { l with
      state := (StateDelta.quiet (cleanupChanges w.clock loaded)).commit loaded
      drawn := [] ++ l.drawn
      history := l.history.change loaded
        ((StateDelta.quiet (cleanupChanges w.clock loaded)).commit loaded) [] } :=
    .commit { l with state := loaded } amb _ [] [] (le_of_eq h.clock.symm) h.clock.symm
      (.inr ⟨rfl, rfl⟩) .startup hrep'.wellFormed hfits
      ⟨List.nodup_nil, fun _ hmem => absurd hmem List.not_mem_nil⟩
  refine ⟨_, hsteps.tail hcommit, h.clock, h.drawn, ?_, hrep', ?_, ?_⟩
  · simp only [History.change, h.history, removalsBetween_cleanup, hnext, List.nil_append]
  · exact (StateDelta.commit_schema _ _).trans hschema
  · rintro s hs
    exact (Option.some.inj hs).symm

theorem bootstrap (h : Refines w l) (hr : (ledgerWhere P key allowed).Reachable l)
    {config : BootstrapConfig} {prepared : Bool} {db : Database} (hstopped : w.process = none)
    (hreceived : amb.received ≤ w.clock) (hclock : amb.clock = w.clock)
    (hfresh : amb.inviteToken ∉ w.drawn)
    (hboot : Control.bootstrap P key amb config prepared w.database = .ok db) :
    ∃ l', (ledgerWhere P key allowed).Steps l l' ∧
      Refines { w with database := db, drawn := amb.inviteToken :: w.drawn } l' := by
  have hprocess : ∀ s (state : ControlState), w.process = some s → s = state := by
    intro s state hs
    cases hs.symm.trans hstopped
  obtain ⟨_, _, hboot⟩ := of_bind hboot
  obtain ⟨_, _, hboot⟩ := of_bind hboot
  obtain ⟨publicUrl, _, hboot⟩ := of_bind hboot
  obtain ⟨relayUrl, _, hboot⟩ := of_bind hboot
  split at hboot
  · cases hboot
    exact ⟨_, .single (.draw l amb.inviteToken), h.clock, congrArg _ h.drawn, h.history,
      h.represents, h.schema, fun s => hprocess s l.state⟩
  · obtain ⟨loaded, hload, hboot⟩ := of_bind hboot
    obtain ⟨_, _, hboot⟩ := of_bind hboot
    obtain ⟨_, _, hboot⟩ := of_bind hboot
    obtain ⟨next, hnext, hdb⟩ := of_bind hboot
    obtain ⟨hsteps, hrep, hschema⟩ := h.reorder P key allowed hload
    unfold bootstrapState at hnext
    split at hnext
    · next hnone =>
      -- a fresh Relay invitation replaces the pending ones
      obtain ⟨⟨result, record⟩, hbuild, hnext⟩ := of_bind hnext
      cases hnext
      obtain ⟨hid, _, _⟩ := buildInvite_eq_ok P hbuild
      have habsent : ∀ invite ∈ loaded.invites, invite.id ≠ record.id := by
        intro invite hinvite heq
        have hmem := (hrep.same h.represents).invites.mem_iff.1 hinvite
        have hdrawn := Ledger.drawn_of_reachable hr invite hmem
        rw [heq, hid, h.drawn] at hdrawn
        exact hfresh hdrawn
      have hcommit := bootstrap_commit hrep.keyed habsent
      have hkeyed := bootstrapped_keyed hrep.keyed habsent
      obtain ⟨hrep', hfits⟩ := hrep.applySync hkeyed (transaction_eq_ok hdb)
      rw [← hcommit] at hrep' hfits
      refine ⟨_, hsteps.tail (.commit { l with state := loaded } amb _ [amb.inviteToken] []
        (h.clock ▸ hreceived) (hclock.trans h.clock.symm) (.inl ⟨rfl, h.drawn ▸ hfresh⟩)
        (.bootstrap _ _ _ result record hnone hbuild) hrep'.wellFormed hfits
        ⟨List.nodup_nil, fun _ hmem => absurd hmem List.not_mem_nil⟩), h.clock, congrArg _ h.drawn,
        ?_, hrep', (StateDelta.commit_schema _ _).trans hschema, fun s => hprocess s _⟩
      have hremovals : removalsBetween loaded { loaded with
          invites := loaded.invites.filter (fun i => !i.isPendingRelay) ++ [record] } = [] :=
        removalsBetween_self loaded
      simp only [History.change, h.history, hcommit, hremovals, List.nil_append]
    · -- nothing to change: the same state is written back
      obtain ⟨_, _, hnext⟩ := of_bind hnext
      cases hnext
      obtain ⟨hrep', _⟩ := hrep.applySync hrep.keyed (transaction_eq_ok hdb)
      exact ⟨_, hsteps.tail (.draw { l with state := loaded } amb.inviteToken), h.clock,
        congrArg _ h.drawn, h.history, hrep', hschema, fun s => hprocess s _⟩

end Refines

/-! ## Initial states -/

theorem init_represents {publicUrl audience : String} {relayCaDer : List UInt8} {db : Database}
    (h : init P publicUrl audience relayCaDer = .ok db) :
    ∃ url, Represents db.tables (initialState audience url relayCaDer) := by
  obtain ⟨_, _, h⟩ := of_bind h
  obtain ⟨url, _, h⟩ := of_bind h
  exact ⟨url, .create List.nodup_nil h⟩

/-- **Control refines the ledger.** -/
theorem controlWhere_simulates_ledgerWhere (P : Platform) (key : SecretKey)
    (allowed : Ambient → ControlState → Operation P → Prop) :
    Transition.Simulation (controlWhere P key allowed) (ledgerWhere P key allowed) Refines where
  init := by
    rintro w ⟨⟨publicUrl, audience, relayCaDer, hinit⟩, hprocess, _, hdrawn, hhistory⟩
    obtain ⟨url, hrep⟩ := init_represents hinit
    refine ⟨⟨w.clock, initialState audience url relayCaDer, [], History.empty⟩,
      ⟨⟨audience, url, relayCaDer, rfl⟩, hrep.wellFormed, rfl, rfl⟩, rfl, hdrawn.symm,
      hhistory.symm, hrep, rfl, ?_⟩
    intro s hs
    cases hs.symm.trans hprocess
  step := by
    intro w w' l _ hl h hstep
    cases hstep with
    | operate amb op state running admissible allows =>
      exact h.operate running admissible allows
    | tick now later =>
      exact ⟨_, .single (.tick l now (h.clock ▸ later)), rfl, h.drawn, h.history, h.represents,
        h.schema, h.process⟩
    | crash =>
      exact ⟨l, .refl, h.clock, h.drawn, h.history, h.represents, h.schema, by simp⟩
    | start ioError relayCaDer store stopped started => exact h.start started
    | bootstrap amb config prepared db stopped received clock fresh prepares =>
      exact h.bootstrap hl stopped received clock fresh prepares

theorem control_simulates_ledger (P : Platform) (key : SecretKey) :
    Transition.Simulation (control P key) (ledger P key) Refines :=
  controlWhere_simulates_ledgerWhere P key (fun _ _ _ => True)

theorem exists_ledger {w : World} (h : (control P key).Reachable w) :
    ∃ l, (ledger P key).Reachable l ∧ Refines w l :=
  (control_simulates_ledger P key).reachable h

/-! ## What an operation does to a world -/

/-- The database and the in-memory state are as before. -/
def World.Unmoved (w w' : World) : Prop := w'.database = w.database ∧ w'.process = w.process

/-- An operation changes nothing, or commits one delta and answers from the committed state. -/
theorem World.operate_cases {w : World} {l : Ledger} (href : Refines w l) {op : Operation P}
    (hrun : w.process = some state) :
    w.Unmoved (w.operate P key amb op state).2 ∨ ∃ delta respond,
      op.plan P key amb state = .ok (.commit delta respond) ∧
        (w.operate P key amb op state).2.process = some (delta.commit state) ∧
        (w.operate P key amb op state).1 = respond (delta.commit state) := by
  obtain rfl := href.process state hrun
  rcases hresult : Plan.run amb.ioError ⟨w.database, l.state⟩ (op.plan P key amb l.state) with
    ⟨result, store⟩
  rcases Plan.run_cases hresult with ⟨rfl, _⟩ | ⟨delta, respond, hplan, hcommit, hanswer⟩
  · left
    simp only [World.Unmoved, World.operate, hresult, hrun, and_self]
  · have hstate := (commitDelta_eq_ok href.represents hcommit).1
    refine .inr ⟨delta, respond, hplan, ?_, ?_⟩
    · simp only [World.operate, hresult, hstate]
    · simp only [World.operate, hresult, hanswer, hstate]

/-- An operation whose delta the store accepts commits it and answers from the committed state. -/
theorem World.committed_of_plan {w : World} {op : Operation P} {delta : StateDelta}
    {respond : ControlState → Except ApiError Response} {store : Store}
    (hplan : op.plan P key amb state = .ok (.commit delta respond))
    (hcommit : commitDelta amb.ioError ⟨w.database, state⟩ delta = .ok store) :
    (w.operate P key amb op state).1 = respond store.state ∧
      (w.operate P key amb op state).2.process = some store.state := by
  simp only [World.operate, hplan, Plan.run, hcommit, and_self]

/-- An operation that decides on no commit changes nothing. -/
theorem World.unmoved_of_plan {w : World} {op : Operation P} (hrun : w.process = some state)
    (hplan : ∀ delta respond, op.plan P key amb state ≠ .ok (.commit delta respond)) :
    w.Unmoved (w.operate P key amb op state).2 := by
  rcases hresult : Plan.run amb.ioError ⟨w.database, state⟩ (op.plan P key amb state) with
    ⟨result, store⟩
  rcases Plan.run_cases hresult with ⟨rfl, _⟩ | ⟨delta, respond, hcommit, _⟩
  · simp only [World.Unmoved, World.operate, hresult, hrun, and_self]
  · exact absurd hcommit (hplan delta respond)

/-- An operation that decides on an answer gives it and changes nothing. -/
theorem World.replied_of_plan {w : World} {op : Operation P} {answer : Response}
    (hrun : w.process = some state) (hplan : op.plan P key amb state = .ok (.reply answer)) :
    (w.operate P key amb op state).1 = .ok answer ∧ w.Unmoved (w.operate P key amb op state).2 := by
  refine ⟨by simp only [World.operate, hplan, Plan.run], World.unmoved_of_plan hrun ?_⟩
  intro delta respond hcommit
  cases hplan.symm.trans hcommit

/-- An operation that is answered replies and changes nothing, or answers from what it commits. -/
theorem World.operate_ok {w : World} {l : Ledger} (href : Refines w l) {op : Operation P}
    (hrun : w.process = some state) {answer : Response}
    (h : (w.operate P key amb op state).1 = .ok answer) :
    (op.plan P key amb state = .ok (.reply answer) ∧ w.Unmoved (w.operate P key amb op state).2) ∨
      ∃ delta respond, op.plan P key amb state = .ok (.commit delta respond) ∧
        (w.operate P key amb op state).2.process = some (delta.commit state) ∧
        respond (delta.commit state) = .ok answer := by
  obtain rfl := href.process state hrun
  rcases hresult : Plan.run amb.ioError ⟨w.database, l.state⟩ (op.plan P key amb l.state) with
    ⟨result, store⟩
  have hanswer : result = .ok answer := by
    simpa only [World.operate, hresult] using h
  rcases Plan.run_cases hresult with ⟨rfl, ⟨e, he⟩ | ⟨answer', hreply, hok⟩⟩ |
    ⟨delta, respond, hplan, hcommit, hrespond⟩
  · cases he.symm.trans hanswer
  · cases hok.symm.trans hanswer
    exact .inl ⟨hreply, (World.replied_of_plan hrun hreply).2⟩
  · have hstate := (commitDelta_eq_ok href.represents hcommit).1
    refine .inr ⟨delta, respond, hplan, ?_, ?_⟩
    · simp only [World.operate, hresult, hstate]
    · rw [← hstate]
      exact hrespond.symm.trans hanswer

theorem World.refused_of_plan {w : World} {op : Operation P} {e : ApiError}
    (hplan : op.plan P key amb state = .error e) :
    (w.operate P key amb op state).1 = .error e := by
  simp only [World.operate, hplan, Plan.run]

theorem World.refused_unmoved {w : World} {op : Operation P} {e : ApiError}
    (hrun : w.process = some state) (hplan : op.plan P key amb state = .error e) :
    (∃ e, (w.operate P key amb op state).1 = .error e) ∧
      w.Unmoved (w.operate P key amb op state).2 := by
  refine ⟨⟨e, World.refused_of_plan hplan⟩, World.unmoved_of_plan hrun ?_⟩
  intro delta respond hcommit
  cases hplan.symm.trans hcommit

end AgentScale.Control
