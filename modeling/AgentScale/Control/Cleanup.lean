import AgentScale.Control.Lifecycle
import AgentScale.Control.Mirror

set_option autoImplicit false

/-! # Cleanup

Control forgets old invitations and expired tombstones in two places: at the start, where
`cleanup_invitations` and `cleanup_revocations` filter the loaded state, and once an hour, where
`invitation_cleanup_loop` commits deletions by id. Both come to the same, keep every invitation for
seven days after it has ended, and find nothing to do the second time. -/

namespace AgentScale.Control

open Checked ControlApi

variable {s : ControlState} {now : Int}

/-! ## Deltas with many deletions -/

theorem foldl_deleteInvite (invites : List InviteRecord) (s : ControlState) :
    (invites.map (fun invite => StateChange.deleteInvite invite.id)).foldl StateChange.apply s =
      let ids := invites.map InviteRecord.id
      { s with invites := ids.foldl (fun l k => Keyed.discard InviteRecord.id k l) s.invites } := by
  induction invites generalizing s with
  | nil => rfl
  | cons invite rest ih => exact ih _

theorem foldl_deleteRevocation (revocations : List RevocationRecord) (s : ControlState) :
    (revocations.map (fun r => StateChange.deleteRevocation r.endpointId)).foldl
        StateChange.apply s =
      let ids := revocations.map RevocationRecord.endpointId
      { s with
        revocations :=
          ids.foldl (fun l k => Keyed.discard RevocationRecord.endpointId k l) s.revocations } := by
  induction revocations generalizing s with
  | nil => rfl
  | cons r rest ih => exact ih _

/-- The deletions of the hourly cleanup leave exactly what the cleanup at the start keeps. -/
theorem cleanup_apply (hinvites : Keyed.Distinct InviteRecord.id s.invites)
    (hrevocations : Keyed.Distinct RevocationRecord.endpointId s.revocations) (now : Int) :
    (StateDelta.quiet (cleanupChanges now s)).apply s =
      cleanupRevocations now (cleanupInvitations now s) := by
  have hkept : s.revocations.filter (fun r => !decide (r.expiresAt ≤ now)) =
      s.revocations.filter (fun r => decide (now < r.expiresAt)) :=
    List.filter_congr (fun r _ => by rw [← decide_not]; simp)
  simp only [StateDelta.apply, StateDelta.quiet, cleanupChanges, List.foldl_append,
    foldl_deleteInvite, foldl_deleteRevocation, Keyed.foldl_discard_selected hinvites,
    Keyed.foldl_discard_selected hrevocations, hkept]
  rfl

/-- A quiet delta leaves the revisions alone. -/
theorem StateDelta.quiet_commit (changes : List StateChange) (s : ControlState) :
    (StateDelta.quiet changes).commit s = (StateDelta.quiet changes).apply s := by
  have hrevision := congrArg MetadataRow.revision ((StateDelta.quiet changes).apply_metadata s)
  have hrelay := congrArg MetadataRow.relayRevision ((StateDelta.quiet changes).apply_metadata s)
  unfold StateDelta.commit
  rw [← show ((StateDelta.quiet changes).apply s).revision = s.revision from hrevision,
    ← show ((StateDelta.quiet changes).apply s).relayRevision = s.relayRevision from hrelay]
  rfl

/-- The hourly cleanup deletes exactly what the startup cleanup filters out. -/
theorem cleanup_commit (hk : s.Keyed) (now : Int) :
    (StateDelta.quiet (cleanupChanges now s)).commit s =
      cleanupRevocations now (cleanupInvitations now s) := by
  rw [StateDelta.quiet_commit, cleanup_apply hk.invites hk.revocations]

/-! ## What is kept -/

/-- When an invitation has ended, or will: at its expiry while it is pending, and otherwise when it was
    claimed or revoked, if that is recorded. -/
def InviteRecord.ends (invite : InviteRecord) : Option Int :=
  match invite.state with
  | .pending => some invite.invite.expiresAt
  | .claimed | .revoked => invite.terminalAt

variable {invite : InviteRecord}

theorem InviteRecord.terminal_eq {t : Int} (h : invite.ends = some t) :
    invite.terminal now = t := by
  unfold InviteRecord.ends at h
  unfold InviteRecord.terminal
  cases hstate : invite.state with
  | pending =>
    rw [hstate] at h
    exact Option.some.inj h
  | claimed | revoked =>
    rw [hstate] at h
    rw [show invite.terminalAt = some t from h, Option.getD_some]

/-- `retain`, with the comparison of the source. -/
theorem mem_cleanupInvitations :
    invite ∈ (cleanupInvitations now s).invites ↔ invite ∈ s.invites ∧
      now < I64.saturatingAdd (invite.terminal now) INVITATION_RETENTION_SECS := by
  simp [cleanupInvitations, InviteRecord.retired]

/-- Before the last second, an invitation is kept for the retention time after its end. -/
theorem kept_of_recent (hnow : now < I64.maxValue) (hmem : invite ∈ s.invites) {t : Int}
    (hends : invite.ends = some t) (hrecent : now - t < INVITATION_RETENTION_SECS) :
    invite ∈ (cleanupInvitations now s).invites := by
  rw [mem_cleanupInvitations, InviteRecord.terminal_eq hends]
  refine ⟨hmem, ?_⟩
  -- where the sum saturates it is the last second, which has not come
  unfold I64.saturatingAdd I64.clamp
  omega

/-! ## Once is enough -/

theorem cleanup_idem : cleanupRevocations now (cleanupInvitations now
    (cleanupRevocations now (cleanupInvitations now s))) =
      cleanupRevocations now (cleanupInvitations now s) := by
  simp [cleanupRevocations, cleanupInvitations, List.filter_filter]

/-- After a cleanup the hourly one finds nothing to delete. -/
theorem cleanupChanges_of_clean :
    cleanupChanges now (cleanupRevocations now (cleanupInvitations now s)) = [] := by
  simp [cleanupChanges, cleanupRevocations, cleanupInvitations, List.filter_filter]

/-- **The two cleanups agree**: for distinct invitation ids and distinct tombstones, the delta of
    `invitation_cleanup_loop` gives the state of `cleanup_invitations` and `cleanup_revocations`. The
    revisions and the registered nodes and Provisioners stay; before the last second of the clock, so
    does every invitation that is pending and has not expired or has ended less than seven days ago;
    so does every tombstone that has not expired. A second cleanup at the same time does nothing, on
    either path. -/
theorem cleanup_paths_agree (s : ControlState) (now : Int)
    (hinvites : Keyed.Distinct InviteRecord.id s.invites)
    (hrevocations : Keyed.Distinct RevocationRecord.endpointId s.revocations) :
    let cleaned := cleanupRevocations now (cleanupInvitations now s)
    (StateDelta.quiet (cleanupChanges now s)).apply s = cleaned ∧
    (StateDelta.quiet (cleanupChanges now s)).commit s = cleaned ∧
    (cleaned.revision = s.revision ∧ cleaned.relayRevision = s.relayRevision ∧
      cleaned.clients = s.clients ∧ cleaned.edges = s.edges ∧ cleaned.relays = s.relays ∧
      cleaned.provisioners = s.provisioners) ∧
    (now < I64.maxValue → ∀ invite ∈ s.invites,
      (invite.state = .pending ∧ now < invite.invite.expiresAt) ∨
        (∃ t, invite.ends = some t ∧ now - t < INVITATION_RETENTION_SECS) →
      invite ∈ cleaned.invites) ∧
    (∀ r ∈ s.revocations, now < r.expiresAt → r ∈ cleaned.revocations) ∧
    cleanupRevocations now (cleanupInvitations now cleaned) = cleaned ∧
    (StateDelta.quiet (cleanupChanges now cleaned)).apply cleaned = cleaned := by
  refine ⟨cleanup_apply hinvites hrevocations now, ?_, ⟨rfl, rfl, rfl, rfl, rfl, rfl⟩, ?_, ?_, ?_, ?_⟩
  · rw [StateDelta.quiet_commit]
    exact cleanup_apply hinvites hrevocations now
  · intro hnow invite hmem hkept
    change invite ∈ (cleanupInvitations now s).invites
    rcases hkept with ⟨hpending, hlive⟩ | ⟨t, hends, hrecent⟩
    · refine kept_of_recent hnow hmem (by rw [InviteRecord.ends, hpending]) ?_
      have hretention : 0 < INVITATION_RETENTION_SECS := by decide
      omega
    · exact kept_of_recent hnow hmem hends hrecent
  · intro r hr hlive
    exact List.mem_filter.2 ⟨hr, decide_eq_true hlive⟩
  · exact cleanup_idem
  · rw [cleanupChanges_of_clean]
    rfl

/-- An invitation of a client that was claimed at the given time. -/
def claimedAt (id : String) (t : Int) : InviteRecord :=
  { invite := ⟨1, "agents", "https://control", "control-id", id, id, .client, "hash", t⟩
    state := .claimed, claimedBy := some "node", requestId := none, managedBy := none
    requestHash := none, terminalAt := some t }

/-- A Control with two claimed invitations and a tombstone from the time of the first. -/
def twoClaims (t₁ t₂ : Int) : ControlState :=
  { initialState "agents" "https://control" [1] with
    invites := [claimedAt "one" t₁, claimedAt "two" t₂]
    revocations := [⟨"gone", 1, t₁, 1⟩] }

/-- An invitation that was claimed a second ago is kept, next to one from the week before, which is
    not. -/
theorem recent_claim_is_kept :
    (cleanupRevocations 700000 (cleanupInvitations 700000 (twoClaims 0 699999))).invites =
      [claimedAt "two" 699999] ∧
    claimedAt "two" 699999 ∈
      (cleanupRevocations 700000 (cleanupInvitations 700000 (twoClaims 0 699999))).invites := by
  refine ⟨by decide, ?_⟩
  have hagree := cleanup_paths_agree (twoClaims 0 699999) 700000 (by decide) (by decide)
  exact hagree.2.2.2.1 (by decide) _ (by decide) (.inr ⟨699999, rfl, by decide⟩)

/-- In the last second of the clock `saturating_add` gives that second, and an invitation that was
    claimed a second ago is deleted. -/
theorem recent_claim_is_deleted_in_last_second :
    let s := twoClaims 0 (I64.maxValue - 1)
    let cleaned := cleanupRevocations I64.maxValue (cleanupInvitations I64.maxValue s)
    Keyed.Distinct InviteRecord.id s.invites ∧
    Keyed.Distinct RevocationRecord.endpointId s.revocations ∧
    claimedAt "two" (I64.maxValue - 1) ∈ s.invites ∧
    I64.maxValue - (I64.maxValue - 1) < INVITATION_RETENTION_SECS ∧
    claimedAt "two" (I64.maxValue - 1) ∉ cleaned.invites := by
  decide

end AgentScale.Control
