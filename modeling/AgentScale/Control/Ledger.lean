import AgentScale.Control.Cleanup
import AgentScale.Control.Decision

set_option autoImplicit false

/-! # The ledger: Control without its machinery

The abstract model of a Control: one logical state that only the listed mutations change, whatever
happens to the process and its database. A commit is possible only when the new state is well formed;
a restart shows as a reordering of the records. The worlds of `Control.World` are simulated by the
ledger (`control_simulates_ledger`), so an invariant of the ledger is an invariant of Control. -/

namespace AgentScale.Control

open Checked ControlApi RelayApi

variable (P : Platform)

structure Ledger where
  clock : Int
  state : ControlState
  drawn : List String
  history : History

/-- The invitations `enrolled` were pending before and are claimed after. -/
def UsesUp (before after : ControlState) (enrolled : List String) : Prop :=
  enrolled.Nodup ∧ ∀ id ∈ enrolled, (∃ r ∈ before.invites, r.id = id ∧ r.state = .pending) ∧
    ∃ r ∈ after.invites, r.id = id ∧ r.state = .claimed

/-- One step of the ledger, in which operations are limited to the allowed ones. The ids drawn by a
    commit are new; only a cleanup draws none. -/
inductive Ledger.Step (key : SecretKey) (allowed : Ambient → ControlState → Operation P → Prop) :
    Ledger → Ledger → Prop
  | tick (l : Ledger) (now : Int) (later : l.clock ≤ now) : Step key allowed l { l with clock := now }
  | draw (l : Ledger) (token : String) : Step key allowed l { l with drawn := token :: l.drawn }
  | reorder (l : Ledger) (s : ControlState) (same : s.Same l.state) (wellFormed : s.WellFormed) :
      Step key allowed l { l with state := s }
  | commit (l : Ledger) (amb : Ambient) (delta : StateDelta) (tokens enrolled : List String)
      (received : amb.received ≤ l.clock) (clock : amb.clock = l.clock)
      (draws : (tokens = [amb.inviteToken] ∧ amb.inviteToken ∉ l.drawn) ∨
        (tokens = [] ∧ delta = .quiet (cleanupChanges amb.clock l.state)))
      (decision : Decision P key allowed amb l.state delta)
      (wellFormed : (delta.commit l.state).WellFormed)
      (fits : I64.Fits (delta.commit l.state).revision ∧
        I64.Fits (delta.commit l.state).relayRevision)
      (uses : UsesUp l.state (delta.commit l.state) enrolled) :
      Step key allowed l { l with
        state := delta.commit l.state
        drawn := tokens ++ l.drawn
        history := l.history.change l.state (delta.commit l.state) enrolled }
  | issue (l : Ledger) (recipient : EndpointId P) (signed : SignedNodeMap)
      (signs : signedMap P l.state key l.clock recipient = .ok signed) :
      Step key allowed l { l with history := l.history.issue P key l.state signed.map }

def Ledger.Initial (l : Ledger) : Prop :=
  (∃ audience publicUrl relayCaDer, l.state = initialState audience publicUrl relayCaDer) ∧
    l.state.WellFormed ∧ l.drawn = [] ∧ l.history = History.empty

/-- The runs of the ledger in which every operation is allowed where it is served. -/
def ledgerWhere (key : SecretKey) (allowed : Ambient → ControlState → Operation P → Prop) :
    Transition.System Ledger where
  init := Ledger.Initial
  step := Ledger.Step P key allowed

/-- All runs of the ledger. -/
abbrev ledger (key : SecretKey) : Transition.System Ledger :=
  ledgerWhere P key (fun _ _ _ => True)

theorem Ledger.Step.clock_le {P : Platform} {key : SecretKey}
    {allowed : Ambient → ControlState → Operation P → Prop} {l l' : Ledger}
    (h : Ledger.Step P key allowed l l') : l.clock ≤ l'.clock := by
  cases h with
  | tick now later => exact later
  | draw | reorder | commit | issue => exact le_rfl

/-! ## What `bootstrap` commits -/

theorem bootstrap_commit_invites (s : ControlState) (record : InviteRecord) :
    (StateDelta.quiet (staleRelayInvites s ++ [.putInvite record])).commit s = { s with
      invites :=
        ((StateDelta.quiet (staleRelayInvites s ++ [.putInvite record])).commit s).invites } := by
  simp only [StateDelta.commit, StateDelta.apply, StateDelta.quiet, staleRelayInvites,
    List.foldl_append, foldl_deleteInvite]
  rfl

variable {s : ControlState} {record : InviteRecord}

/-- `bootstrap` keeps every invitation but the stale Relay ones and appends the new one. -/
theorem bootstrap_commit (hk : s.Keyed) (hfresh : ∀ invite ∈ s.invites, invite.id ≠ record.id) :
    (StateDelta.quiet (staleRelayInvites s ++ [.putInvite record])).commit s =
      { s with invites := s.invites.filter (fun invite => !invite.isPendingRelay) ++ [record] } := by
  simp only [StateDelta.commit, StateDelta.apply, StateDelta.quiet, staleRelayInvites,
    List.foldl_append, foldl_deleteInvite, Keyed.foldl_discard_selected hk.invites]
  simp only [List.foldl_cons, List.foldl_nil, StateChange.apply]
  rw [Keyed.upsert_of_absent (fun a ha => hfresh a (List.mem_filter.1 ha).1)]
  rfl

theorem mem_bootstrap_invites (hk : s.Keyed) {record invite : InviteRecord} :
    invite ∈ ((StateDelta.quiet (staleRelayInvites s ++ [.putInvite record])).commit s).invites ↔
      invite = record ∨
        ((invite ∈ s.invites ∧ invite.isPendingRelay = false) ∧ invite.id ≠ record.id) := by
  have happly : ((StateDelta.quiet (staleRelayInvites s ++ [.putInvite record])).commit s).invites =
      Keyed.upsert InviteRecord.id record (s.invites.filter (fun i => !i.isPendingRelay)) := by
    simp only [StateDelta.commit, StateDelta.apply, StateDelta.quiet, staleRelayInvites,
      List.foldl_append, foldl_deleteInvite, Keyed.foldl_discard_selected hk.invites]
    rfl
  rw [happly, Keyed.mem_upsert (hk.invites.sublist List.filter_sublist), List.mem_filter,
    Bool.not_eq_true']

theorem bootstrap_ne_cleanup {now : Int} :
    StateDelta.quiet (staleRelayInvites s ++ [.putInvite record]) ≠ .quiet (cleanupChanges now s) := by
  intro heq
  have hlast := congrArg (fun d : StateDelta => StateChange.putInvite record ∈ d.changes) heq
  simp [StateDelta.quiet, cleanupChanges] at hlast

/-! ## How invitations change -/

/-- What becomes of an invitation: it is claimed or revoked while it is pending, at a time that `ends`
    admits, and then stays as it is. -/
inductive InviteRecord.Evolves (ends : Int → Prop) (old : InviteRecord) : InviteRecord → Prop
  | same : Evolves ends old old
  | claim (endpointId : String) (now : Int) (pending : old.state = .pending) (time : ends now) :
      Evolves ends old (old.claim endpointId now)
  | revoke (now : Int) (pending : old.state = .pending) (time : ends now) :
      Evolves ends old (old.revoke now)

namespace InviteRecord.Evolves

variable {ends ends' : Int → Prop} {a b c : InviteRecord}

/-- The parts of an invitation that never change. -/
theorem fixed (h : a.Evolves ends b) : b.invite = a.invite ∧ b.requestId = a.requestId ∧
    b.managedBy = a.managedBy ∧ b.requestHash = a.requestHash := by
  cases h <;> exact ⟨rfl, rfl, rfl, rfl⟩

theorem id (h : a.Evolves ends b) : b.id = a.id := congrArg Invite.inviteId h.fixed.1

/-- An invitation that is still pending has not changed. -/
theorem of_pending (h : a.Evolves ends b) (hb : b.state = .pending) : b = a := by
  cases h with
  | same => rfl
  | claim | revoke => exact absurd hb (by simp [InviteRecord.claim, InviteRecord.revoke])

/-- An invitation that is no longer pending does not change. -/
theorem of_terminal (h : a.Evolves ends b) (ha : a.state ≠ .pending) : b = a := by
  cases h with
  | same => rfl
  | claim _ _ pending | revoke _ pending => exact absurd pending ha

theorem trans (h : a.Evolves ends b) (h' : b.Evolves ends c) : a.Evolves ends c := by
  by_cases hb : b.state = .pending
  · exact h.of_pending hb ▸ h'
  · exact (h'.of_terminal hb).symm ▸ h

theorem mono (h : a.Evolves ends b) (hends : ∀ t, ends t → ends' t) : a.Evolves ends' b := by
  cases h with
  | same => exact .same
  | claim endpointId now pending time => exact .claim endpointId now pending (hends now time)
  | revoke now pending time => exact .revoke now pending (hends now time)

end InviteRecord.Evolves

/-- The times a request has read off the clock. -/
def Ambient.Reads (amb : Ambient) (now : Int) : Prop := now = amb.received ∨ now = amb.clock

/-- The invitations after a commit are invitations from before, and at most one new one under the
    drawn id. -/
theorem Mutation.mem_invites {asked : Demand} {amb : Ambient} {delta : StateDelta}
    (h : Mutation P asked amb s delta) (hk : s.Keyed) (hmem : record ∈ (delta.commit s).invites) :
    (∃ old ∈ s.invites, old.Evolves amb.Reads record) ∨
      (record.id = amb.inviteToken ∧ record.state = .pending ∧ record.claimedBy = none ∧
        delta ≠ .quiet (cleanupChanges amb.clock s)) := by
  cases h with
  | claim invite endpointId port change mem pending node =>
    have hput : record ∈ Keyed.upsert InviteRecord.id (invite.claim endpointId.text amb.received)
        s.invites := by
      rcases claimedNodeChange_eq_ok P node with ⟨_, _, rfl⟩ | ⟨_, _, _, rfl⟩ | ⟨_, _, _, rfl⟩ <;>
        exact hmem
    rcases (Keyed.mem_upsert hk.invites).1 hput with rfl | ⟨hold, _⟩
    · exact .inl ⟨invite, mem, .claim _ _ pending (.inl rfl)⟩
    · exact .inl ⟨record, hold, .same⟩
  | newInvite new id pending unclaimed open_ =>
    rcases (Keyed.mem_upsert hk.invites).1 hmem with rfl | ⟨hold, _⟩
    · exact .inr ⟨id, pending, unclaimed, by simp [StateDelta.topology, StateDelta.quiet]⟩
    · exact .inl ⟨record, hold, .same⟩
  | revokeInvite invite mem pending =>
    rcases (Keyed.mem_upsert hk.invites).1 hmem with rfl | ⟨hold, _⟩
    · exact .inl ⟨invite, mem, .revoke _ pending (.inr rfl)⟩
    · exact .inl ⟨record, hold, .same⟩
  | removeClient | removeEdge | transferEdge | removeRelay | addProvisioner | removeProvisioner
  | qadPort | renewClient | renewEdge => exact .inl ⟨record, hmem, .same⟩
  | cleanup =>
    rw [cleanup_commit hk] at hmem
    exact .inl ⟨record, (List.mem_filter.1 hmem).1, .same⟩
  | bootstrap new id pending unclaimed open_ =>
    rcases (mem_bootstrap_invites hk).1 hmem with rfl | ⟨⟨hold, _⟩, _⟩
    · exact .inr ⟨id, pending, unclaimed, bootstrap_ne_cleanup⟩
    · exact .inl ⟨record, hold, .same⟩

variable {P} {key : SecretKey} {allowed : Ambient → ControlState → Operation P → Prop}

/-! ## Invitations used up -/

/-- The invitation an operation is recorded to have used up was pending and is claimed. -/
theorem Operation.enrols_usesUp {amb : Ambient} {state : ControlState} {op : Operation P}
    {delta : StateDelta} {respond : ControlState → Except ApiError Response} (hk : state.Keyed)
    (h : op.plan P key amb state = .ok (.commit delta respond)) :
    UsesUp state (delta.commit state) (op.enrols state (delta.commit state)) := by
  cases op with
  | claim request =>
    by_cases hchanged : nodesChanged state (delta.commit state) = true
    · simp only [Operation.enrols, hchanged, if_true]
      refine ⟨List.nodup_singleton _, ?_⟩
      rintro id hid
      obtain rfl := List.mem_singleton.1 hid
      obtain ⟨_, hclaim, _⟩ := map_eq_commit h
      obtain ⟨record, endpointId, _, _, hrecord, _, ⟨hpending, change, hchange, hplan⟩ |
        ⟨_, _, _, _, hplan⟩⟩ := claim_eq_ok hclaim
      · obtain ⟨rfl, _⟩ := Plan.commit.inj hplan
        obtain ⟨hmem, hid⟩ := Keyed.mem_of_lookup hrecord
        have hput : record.claim endpointId.text amb.received ∈ Keyed.upsert InviteRecord.id
            (record.claim endpointId.text amb.received) state.invites :=
          (Keyed.mem_upsert hk.invites).2 (.inl rfl)
        refine ⟨⟨record, hmem, hid, hpending⟩, record.claim endpointId.text amb.received, ?_, hid, rfl⟩
        rcases claimedNodeChange_eq_ok P hchange with ⟨_, _, rfl⟩ | ⟨_, _, _, rfl⟩ | ⟨_, _, _, rfl⟩ <;>
          exact hput
      · cases hplan
    · simp only [Operation.enrols, hchanged]
      exact ⟨List.nodup_nil, fun _ h => absurd h List.not_mem_nil⟩
  | clientEdgeInvite | clientEdgeRemove | provisioner | watchRenewal | watch | relayWatchPort
  | relayWatch | localAdmin | cleanup => exact ⟨List.nodup_nil, fun _ h => absurd h List.not_mem_nil⟩

/-! ## Reachable ledgers -/

theorem Ledger.wellFormed_of_reachable {l : Ledger} (h : (ledgerWhere P key allowed).Reachable l) :
    l.state.WellFormed := by
  refine h.invariant (P := fun l => l.state.WellFormed) (fun l hl => hl.2.1) ?_
  intro l l' _ hwf hstep
  cases hstep with
  | tick | draw | issue => exact hwf
  | reorder s same wellFormed => exact wellFormed
  | commit amb delta tokens enrolled received clock draws decision wellFormed => exact wellFormed

/-- The revisions are in SQLite's range. -/
theorem Ledger.fits_of_reachable {l : Ledger} (h : (ledgerWhere P key allowed).Reachable l) :
    I64.Fits l.state.revision ∧ I64.Fits l.state.relayRevision := by
  refine h.invariant (P := fun l => I64.Fits l.state.revision ∧ I64.Fits l.state.relayRevision) ?_ ?_
  · rintro l ⟨⟨_, _, _, hstate⟩, _⟩
    rw [hstate]
    exact ⟨(by decide : I64.Fits 0), (by decide : I64.Fits 1)⟩
  · intro l l' _ hfits hstep
    cases hstep with
    | tick | draw | issue => exact hfits
    | reorder s same => exact ⟨same.revision ▸ hfits.1, same.relayRevision ▸ hfits.2⟩
    | commit amb delta tokens enrolled received clock draws decision wellFormed fits => exact fits

/-- Every invitation has an id that was drawn for it. -/
theorem Ledger.drawn_of_reachable {l : Ledger} (h : (ledgerWhere P key allowed).Reachable l) :
    ∀ invite ∈ l.state.invites, invite.id ∈ l.drawn := by
  refine h.invariant (P := fun l => ∀ invite ∈ l.state.invites, invite.id ∈ l.drawn) ?_ ?_
  · rintro l ⟨⟨_, _, _, hstate⟩, _⟩ invite hinvite
    rw [hstate] at hinvite
    exact absurd hinvite List.not_mem_nil
  · intro l l' hr hdrawn hstep
    cases hstep with
    | tick | issue => exact hdrawn
    | draw token => exact fun invite hinvite => List.mem_cons_of_mem _ (hdrawn invite hinvite)
    | reorder s same wellFormed =>
      exact fun invite hinvite => hdrawn invite (same.invites.mem_iff.1 hinvite)
    | commit amb delta tokens enrolled received clock draws decision =>
      intro invite hinvite
      rcases decision.mutation_any.mem_invites P (wellFormed_of_reachable hr).keyed hinvite with
        ⟨old, hold, hevolves⟩ | ⟨hid, _, _, hne⟩
      · rw [hevolves.id]
        exact List.mem_append_right _ (hdrawn old hold)
      · rcases draws with ⟨rfl, _⟩ | ⟨_, hcleanup⟩
        · rw [hid]
          exact List.mem_append_left _ (List.mem_singleton_self _)
        · exact absurd hcleanup hne

/-- Revisions never go back. -/
theorem Ledger.revision_le_of_steps {l l' : Ledger} (hr : (ledgerWhere P key allowed).Reachable l)
    (hsteps : (ledgerWhere P key allowed).Steps l l') :
    l.state.revision ≤ l'.state.revision ∧ l.state.relayRevision ≤ l'.state.relayRevision := by
  refine hsteps.preserves (P := fun l' => l.state.revision ≤ l'.state.revision ∧
    l.state.relayRevision ≤ l'.state.relayRevision) hr ?_ ⟨le_rfl, le_rfl⟩
  intro a b _ hle hstep
  cases hstep with
  | tick | draw | issue => exact hle
  | reorder s same => exact ⟨hle.1.trans same.revision.ge, hle.2.trans same.relayRevision.ge⟩
  | commit => exact ⟨hle.1.trans (Nat.le_add_right _ _), hle.2.trans (Nat.le_add_right _ _)⟩

end AgentScale.Control
