import AgentScale.Control.Invitations

set_option autoImplicit false

/-! # Replays of an edge invitation request

Nothing in a signed `EdgeInviteRequest` is remembered but its request id, and that only as long as the
invitation is retained. A replay is refused because the invitation outlives the window in which the
request's timestamp is accepted: it is retained for seven days after it has ended, and the time of its
end that a claim records is at most a day behind the clock. -/

namespace AgentScale.Control

open Checked ControlApi

variable {P : Platform} {key : SecretKey} {amb : Ambient} {s : ControlState} {delta : StateDelta}
  {asked : Demand} {l l' : Ledger}

/-- The time a handler has from its timestamp check to its critical section. -/
def DAY_SECS : Int := 24 * 60 * 60

/-- Every handler finishes within a day of its timestamp check. -/
def Prompt (amb : Ambient) (_ : ControlState) (_ : Operation P) : Prop :=
  amb.clock ≤ amb.received + DAY_SECS

instance (amb : Ambient) (s : ControlState) (op : Operation P) : Decidable (Prompt amb s op) :=
  inferInstanceAs (Decidable (_ ≤ _))

/-- What is asked for when handlers are prompt. -/
def Demand.prompt (amb : Ambient) : Demand :=
  ⟨fun _ => True, fun _ => amb.clock ≤ amb.received + DAY_SECS, fun _ _ => True, True⟩

theorem Prompt.within {op : Operation P} (h : Prompt amb s op) : op.Within s (.prompt amb) where
  removes := fun _ _ => trivial
  enrols := fun _ _ => h
  moves := fun _ _ => trivial
  invites := fun _ => trivial

/-! ## What deletes an invitation -/

/-- A commit keeps an invitation that is neither past its retention nor a pending one of a Relay. The
    claim or revocation that may come with it carries a time the handler has read. -/
theorem Mutation.keeps_invite (h : Mutation P asked amb s delta) (hk : s.Keyed) {r : InviteRecord}
    (hmem : r ∈ s.invites)
    (hother : r.id ≠ amb.inviteToken ∨ delta = .quiet (cleanupChanges amb.clock s))
    (hretained : r.retired amb.clock = false) (hrelay : r.isPendingRelay = false) :
    ∃ r' ∈ (delta.commit s).invites, r.Evolves
      (fun t => (t = amb.received ∧ ∃ invite, asked.enrols invite) ∨ t = amb.clock) r' := by
  cases h with
  | claim invite endpointId port change mem pending node _ _ named =>
    have hinvites : (StateDelta.commit (.topology [change, .putInvite (invite.claim endpointId.text
        amb.received)]) s).invites =
        Keyed.upsert InviteRecord.id (invite.claim endpointId.text amb.received) s.invites := by
      rcases claimedNodeChange_eq_ok P node with ⟨_, _, rfl⟩ | ⟨_, _, _, rfl⟩ | ⟨_, _, _, rfl⟩ <;> rfl
    rw [hinvites]
    by_cases hid : r.id = invite.id
    · obtain rfl := hk.invites.eq_of_key hmem mem hid
      exact ⟨_, (Keyed.mem_upsert hk.invites).2 (.inl rfl), .claim _ _ pending (.inl ⟨rfl, _, named⟩)⟩
    · exact ⟨r, (Keyed.mem_upsert hk.invites).2 (.inr ⟨hmem, hid⟩), .same⟩
  | newInvite record id =>
    have hne : r.id ≠ record.id := by
      rcases hother with hother | hcleanup
      · exact id ▸ hother
      · exact absurd hcleanup (by simp [StateDelta.topology, StateDelta.quiet])
    exact ⟨r, (Keyed.mem_upsert hk.invites).2 (.inr ⟨hmem, hne⟩), .same⟩
  | revokeInvite invite mem pending =>
    by_cases hid : r.id = invite.id
    · obtain rfl := hk.invites.eq_of_key hmem mem hid
      exact ⟨_, (Keyed.mem_upsert hk.invites).2 (.inl rfl), .revoke _ pending (.inr rfl)⟩
    · exact ⟨r, (Keyed.mem_upsert hk.invites).2 (.inr ⟨hmem, hid⟩), .same⟩
  | removeClient | removeEdge | transferEdge | removeRelay | addProvisioner | removeProvisioner
  | qadPort | renewClient | renewEdge => exact ⟨r, hmem, .same⟩
  | cleanup =>
    rw [cleanup_commit hk]
    exact ⟨r, List.mem_filter.2 ⟨hmem, by simp [hretained]⟩, .same⟩
  | bootstrap record id =>
    have hne : r.id ≠ record.id := by
      rcases hother with hother | hcleanup
      · exact id ▸ hother
      · exact absurd hcleanup bootstrap_ne_cleanup
    exact ⟨r, (mem_bootstrap_invites hk).2 (.inr ⟨⟨hmem, hrelay⟩, hne⟩), .same⟩

/-! ## Retention -/

/-- The retention of an invitation does not start before `t`. -/
def InviteRecord.EndsAfter (t : Int) (r : InviteRecord) : Prop := ∀ now, t ≤ now → t ≤ r.terminal now

theorem InviteRecord.EndsAfter.evolves {t : Int} {r r' : InviteRecord} {ends : Int → Prop}
    (h : r.EndsAfter t) (hevolves : r.Evolves ends r') (hends : ∀ u, ends u → t ≤ u) :
    r'.EndsAfter t := by
  cases hevolves with
  | same => exact h
  | claim endpointId now pending time => exact fun _ _ => hends now time
  | revoke now pending time => exact fun _ _ => hends now time

/-- What is past its retention at a time is past the retention of everything that ended before. -/
theorem InviteRecord.EndsAfter.retired {t now : Int} {r : InviteRecord} (h : r.EndsAfter t)
    (hnow : t ≤ now) (hretired : r.retired now = true) :
    I64.saturatingAdd t INVITATION_RETENTION_SECS ≤ now :=
  (I64.saturatingAdd_mono (h now hnow) le_rfl).trans (of_decide_eq_true hretired)

/-- An edge invitation with the request id is there, or enough time has passed since `t` to delete
    it. -/
def Retains (t : Int) (requestId : String) (l : Ledger) : Prop :=
  I64.saturatingAdd t INVITATION_RETENTION_SECS ≤ l.clock ∨
    ∃ r ∈ l.state.invites, r.requestId = some requestId ∧ (∃ owner, r.invite.kind = .edge owner) ∧
      r.EndsAfter t

/-- **One step.** -/
theorem Retains.step {t : Int} {requestId : String} (hr : (ledgerWhere P key Prompt).Reachable l)
    (ht : t + DAY_SECS ≤ l.clock) (h : Retains t requestId l)
    (hstep : Ledger.Step P key Prompt l l') : Retains t requestId l' := by
  rcases h with hlong | ⟨r, hmem, hid, hkind, hends⟩
  · left
    cases hstep with
    | tick now later => exact hlong.trans later
    | draw | issue | reorder | commit => exact hlong
  · cases hstep with
    | tick | draw | issue => exact .inr ⟨r, hmem, hid, hkind, hends⟩
    | reorder s same => exact .inr ⟨r, same.invites.mem_iff.2 hmem, hid, hkind, hends⟩
    | commit amb delta tokens enrolled received clock draws decision =>
      cases hretired : r.retired amb.clock with
      | true =>
        left
        have hlong := hends.retired (by unfold DAY_SECS at ht; omega) hretired
        exact hlong.trans_eq clock
      | false =>
        have hother : r.id ≠ amb.inviteToken ∨ delta = .quiet (cleanupChanges amb.clock l.state) := by
          rcases draws with ⟨_, hfresh⟩ | ⟨_, hcleanup⟩
          · exact .inl (fun heq => hfresh (heq ▸ Ledger.drawn_of_reachable hr r hmem))
          · exact .inr hcleanup
        have hrelay : r.isPendingRelay = false := by
          obtain ⟨owner, howner⟩ := hkind
          simp [InviteRecord.isPendingRelay, howner]
        obtain ⟨r', hmem', hevolves⟩ :=
          (decision.mutation (fun op allows => allows.within) trivial).keeps_invite
            (Ledger.wellFormed_of_reachable hr).keyed hmem hother hretired hrelay
        obtain ⟨hinvite, hrequest, _⟩ := hevolves.fixed
        refine .inr ⟨r', hmem', hrequest.trans hid, hinvite ▸ hkind, hends.evolves hevolves ?_⟩
        rintro u (⟨rfl, _, hprompt⟩ | rfl)
        · have hprompt : amb.clock ≤ amb.received + DAY_SECS := hprompt
          omega
        · unfold DAY_SECS at ht
          omega

/-- **Every run** in which handlers are prompt. -/
theorem Retains.steps {t : Int} {requestId : String} (hr : (ledgerWhere P key Prompt).Reachable l)
    (ht : t + DAY_SECS ≤ l.clock) (h : Retains t requestId l)
    (hsteps : (ledgerWhere P key Prompt).Steps l l') : Retains t requestId l' := by
  refine (hsteps.preserves (P := fun l' => t + DAY_SECS ≤ l'.clock ∧ Retains t requestId l') hr ?_
    ⟨ht, h⟩).2
  rintro a b ha ⟨hclock, hretains⟩ hstep
  exact ⟨hclock.trans hstep.clock_le, hretains.step ha hclock hstep⟩

/-! ## The request and its replays -/

variable {request : EdgeInviteRequest}

/-- The invitation a request creates is retained, counting from a day before. -/
theorem clientEdgeInvite_retained (hk : s.Keyed)
    {respond : ControlState → Except ApiError InviteResult}
    (h : clientEdgeInvite P key amb request s = .ok (.commit delta respond))
    (hstate : l.state = delta.commit s) :
    Retains (amb.clock - DAY_SECS) request.requestId l := by
  obtain ⟨clientId, client, result, record, _, _, _, hbuild, hplan⟩ := clientEdgeInvite_eq_ok h
  obtain ⟨rfl, _⟩ := Plan.commit.inj hplan
  obtain ⟨_, hkind, hrecord⟩ := buildInvite_eq_ok P hbuild
  obtain ⟨_, _, hlives, _⟩ := buildInvite_spec P hbuild
  right
  rw [hstate]
  refine ⟨_, (Keyed.mem_upsert hk.invites).2 (.inl rfl), rfl, ⟨_, hkind⟩, fun now _ => ?_⟩
  have hpending : record.state = .pending := by rw [hrecord]
  simp only [InviteRecord.terminal, hpending]
  unfold DAY_SECS
  omega

/-- A replay is refused: while its timestamp is accepted, the invitation is retained. -/
theorem clientEdgeInvite_refused (P : Platform) (key : SecretKey) {t : Int}
    (hretains : Retains t request.requestId l) (hclock : amb.clock = l.clock)
    (hprompt : amb.clock ≤ amb.received + DAY_SECS)
    (hissued : request.issuedAt ≤ t + DAY_SECS + CLOCK_SKEW_SECS) :
    ∃ e, clientEdgeInvite P key amb request l.state = .error e := by
  cases hplan : clientEdgeInvite P key amb request l.state with
  | error e => exact ⟨e, rfl⟩
  | ok plan =>
    exfalso
    obtain ⟨_, _, _, record, htime, hunused, _, hbuild, _⟩ := clientEdgeInvite_eq_ok hplan
    obtain ⟨_, _, hlives, hrange, _⟩ := buildInvite_spec P hbuild
    rcases hretains with hlong | ⟨r, hmem, hid, _⟩
    · have hwindow : amb.clock < t + INVITATION_RETENTION_SECS := by
        unfold DAY_SECS CLOCK_SKEW_SECS INVITATION_RETENTION_SECS at *
        omega
      have hshort : amb.clock < I64.saturatingAdd t INVITATION_RETENTION_SECS :=
        lt_max_of_lt_right (lt_min hwindow (hlives.trans_le hrange))
      exact absurd (hclock ▸ hlong) (not_le.2 hshort)
    · exact hunused r hmem hid

/-- **An edge invitation request is honoured at most once.** In every run in which handlers finish
    within a day of their timestamp check: once a signed request has created an invitation, and
    whatever has happened since, every replay of it is refused and changes nothing. -/
theorem edge_invitation_is_honoured_once {w w₂ : World} {s₂ : ControlState} {amb₂ : Ambient}
    (hr : (controlWhere P key Prompt).Reachable w) (hrun : w.process = some s)
    (hamb : amb.Admissible w) (hprompt : Prompt amb s (Operation.clientEdgeInvite (P := P) request))
    (hcreated : ¬ w.Unmoved (w.operate P key amb (.clientEdgeInvite request) s).2)
    (hsteps : (controlWhere P key Prompt).Steps
      (w.operate P key amb (.clientEdgeInvite request) s).2 w₂)
    (hrun₂ : w₂.process = some s₂) (hamb₂ : amb₂.Admissible w₂)
    (hprompt₂ : Prompt amb₂ s₂ (Operation.clientEdgeInvite (P := P) request)) :
    (∃ e, (w₂.operate P key amb₂ (.clientEdgeInvite request) s₂).1 = .error e) ∧
      w₂.Unmoved (w₂.operate P key amb₂ (.clientEdgeInvite request) s₂).2 := by
  have hsim := controlWhere_simulates_ledgerWhere P key Prompt
  obtain ⟨l₀, _, href₀⟩ := hsim.reachable hr
  obtain ⟨delta, respond, hplan, hprocess, _⟩ :=
    (World.operate_cases href₀ hrun).resolve_left hcreated
  obtain ⟨_, hinvite, _⟩ := map_eq_commit hplan
  obtain ⟨_, _, _, _, htime, _⟩ := clientEdgeInvite_eq_ok hinvite
  -- the ledger after the first delivery, and the one the replay finds
  have hr' := hr.step (.operate w amb _ s hrun hamb hprompt)
  obtain ⟨l, hl, href⟩ := hsim.reachable hr'
  obtain ⟨l₂, hsteps', href₂⟩ := hsim.steps hr' hl href hsteps
  have hk : s.Keyed := href₀.process s hrun ▸ href₀.represents.keyed
  have hclock : l.clock = amb.clock := href.clock.trans hamb.clock.symm
  have hretains := (clientEdgeInvite_retained hk hinvite (href.process _ hprocess).symm).steps hl
    (by omega) hsteps'
  obtain rfl := href₂.process s₂ hrun₂
  have hissued : request.issuedAt ≤ amb.clock - DAY_SECS + DAY_SECS + CLOCK_SKEW_SECS := by
    have hreceived := hamb.clock ▸ hamb.received
    omega
  obtain ⟨e, he⟩ := clientEdgeInvite_refused P key hretains
    (hamb₂.clock.trans href₂.clock.symm) hprompt₂ hissued
  refine World.refused_unmoved (e := e) hrun₂ ?_
  simp only [Operation.plan, he, Except.map]

section Example

open Reference

/-- A client's request for an invitation of its edge `e`. -/
def edgeInviteRequest : EdgeInviteRequest :=
  let unsigned : EdgeInviteRequest :=
    { protocolVersion := CONTROL_PROTOCOL_VERSION, audience := "agents",
      clientId := publicKey nodeKey, requestId := "request-1", name := "e", ttlSecs := 3600,
      issuedAt := 0, signature := ⟨""⟩ }
  { unsigned with signature := (platform []).sign nodeKey unsigned.signingBytes }

/-- The world in which the request has been served. -/
def World.afterEdgeInvite (w : World) (s : ControlState) (token : String) : World :=
  (w.operate (platform []) controlKey (w.ambient s token) (.clientEdgeInvite edgeInviteRequest) s).2

/-- The invitation is revoked within the window of the request's timestamp. -/
def revokeEdgeInvite : List (Event (platform [])) :=
  [.tick 200, .operate (fun _ => .localAdmin (.revokeInvite "invite-e")) "revoke-e"]

/-- After the invitation has been revoked, the request is still not honoured again. -/
theorem replay_after_revocation_is_refused : ∃ w s w₂ s₂,
    (controlWhere (platform []) controlKey Prompt).Reachable w ∧ w.process = some s ∧
      ¬ w.Unmoved (w.afterEdgeInvite s "invite-e") ∧
      (controlWhere (platform []) controlKey Prompt).Steps (w.afterEdgeInvite s "invite-e") w₂ ∧
      w₂.process = some s₂ ∧ w₂.clock = 200 ∧
      (∀ invite ∈ s₂.invites, invite.state ≠ .pending) ∧
      w₂.Unmoved (w₂.afterEdgeInvite s₂ "again") := by
  obtain ⟨w, hr, hcheck⟩ := World.exists_after (P := platform []) controlKey Prompt
    (enrolClient (platform []) controlKey nodeKey) (fun w => w.process.any (fun s : ControlState => decide
      ("invite-e" ∉ w.drawn ∧ s.invites.length = 1 ∧
        (w.afterEdgeInvite s "invite-e").process.any (fun s' : ControlState => s'.invites.length = 2) = true ∧
        (Transition.runAll (World.perform controlKey Prompt) (w.afterEdgeInvite s "invite-e")
          revokeEdgeInvite).any
          (fun w₂ => w₂.process.any (fun s₂ : ControlState => decide ("again" ∉ w₂.drawn ∧ w₂.clock = 200 ∧
            ∀ invite ∈ s₂.invites, invite.state ≠ .pending))) = true))) (by decide +kernel)
  obtain ⟨s, hs, hcheck⟩ := (Option.any_eq_true _ _).1 hcheck
  obtain ⟨hfresh, hone, hcreates, hlater⟩ := of_decide_eq_true hcheck
  obtain ⟨s', hs', htwo⟩ := (Option.any_eq_true _ _).1 hcreates
  obtain ⟨w₂, hperform, hcheck₂⟩ := (Option.any_eq_true _ _).1 hlater
  obtain ⟨s₂, hs₂, hcheck₂⟩ := (Option.any_eq_true _ _).1 hcheck₂
  obtain ⟨hfresh₂, hclock, hrevoked⟩ := of_decide_eq_true hcheck₂
  have hcreated : ¬ w.Unmoved (w.afterEdgeInvite s "invite-e") := by
    rintro ⟨_, hsame⟩
    cases hs'.symm.trans (hsame.trans hs)
    exact absurd (hone.symm.trans (of_decide_eq_true htwo)) (by decide)
  have hamb := World.ambient_admissible hr hs hfresh
  have hprompt : ∀ (w : World) (s : ControlState) (token : String), Prompt (w.ambient s token) s
      (Operation.clientEdgeInvite (P := platform []) edgeInviteRequest) :=
    fun w _ _ => Int.le_add_of_nonneg_right (by decide)
  have hr' := hr.step (.operate w _ (.clientEdgeInvite edgeInviteRequest) s hs hamb (hprompt w s _))
  have hsteps := World.steps_of_run hr' hperform
  exact ⟨w, s, w₂, s₂, hr, hs, hcreated, hsteps, hs₂, hclock, hrevoked,
    (edge_invitation_is_honoured_once hr hs hamb (hprompt w s _) hcreated hsteps hs₂
      (World.ambient_admissible (hr'.steps hsteps) hs₂ hfresh₂) (hprompt w₂ s₂ _)).2⟩

end Example

end AgentScale.Control
