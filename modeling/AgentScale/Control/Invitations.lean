import AgentScale.Control.Invariant

set_option autoImplicit false

/-! # The life of an invitation

An invitation is drawn once, is claimed or revoked at most once, and is deleted some time later; its
id never comes back. All of this is read off one fact: whatever invitation a run ends with either has
evolved from one the run started with, or has an id that had not been drawn yet
(`Ledger.origin_of_steps`). -/

namespace AgentScale.Control

open Checked ControlApi RelayApi

variable {P : Platform} {key : SecretKey} {amb : Ambient} {s s' : ControlState} {l l' : Ledger}
  {allowed : Ambient → ControlState → Operation P → Prop}

/-! ## Where invitations come from -/

/-- The record has evolved from an invitation of the ledger, or its id has not been drawn yet. -/
def Ledger.Origin (l : Ledger) (record : InviteRecord) : Prop :=
  (∃ old ∈ l.state.invites, old.Evolves (fun _ => True) record) ∨ record.id ∉ l.drawn

/-- **One step.** -/
theorem Ledger.origin_of_step (hr : (ledgerWhere P key allowed).Reachable l)
    (hstep : Ledger.Step P key allowed l l') :
    l.drawn ⊆ l'.drawn ∧ ∀ record ∈ l'.state.invites, l.Origin record := by
  have hsame : ∀ record ∈ l.state.invites, l.Origin record :=
    fun record hrecord => .inl ⟨record, hrecord, .same⟩
  cases hstep with
  | tick | issue => exact ⟨List.Subset.refl _, hsame⟩
  | draw token => exact ⟨List.subset_cons_self _ _, hsame⟩
  | reorder s same wellFormed =>
    exact ⟨List.Subset.refl _, fun record hrecord => hsame record (same.invites.mem_iff.1 hrecord)⟩
  | commit amb delta tokens enrolled received clock draws decision =>
    refine ⟨List.subset_append_right _ _, fun record hrecord => ?_⟩
    rcases decision.mutation_any.mem_invites P (wellFormed_of_reachable hr).keyed hrecord with
      ⟨old, hold, hevolves⟩ | ⟨hid, _, _, hne⟩
    · exact .inl ⟨old, hold, hevolves.mono (fun _ _ => trivial)⟩
    · rcases draws with ⟨_, hfresh⟩ | ⟨_, hcleanup⟩
      · exact .inr (hid ▸ hfresh)
      · exact absurd hcleanup hne

/-- **Every run.** -/
theorem Ledger.origin_of_steps (hr : (ledgerWhere P key allowed).Reachable l)
    (hsteps : (ledgerWhere P key allowed).Steps l l') :
    l.drawn ⊆ l'.drawn ∧ ∀ record ∈ l'.state.invites, l.Origin record := by
  refine hsteps.preserves
    (P := fun l' => l.drawn ⊆ l'.drawn ∧ ∀ record ∈ l'.state.invites, l.Origin record) hr ?_ ?_
  · rintro a b ha ⟨hdrawn, horigin⟩ hstep
    obtain ⟨hdrawn', horigin'⟩ := Ledger.origin_of_step ha hstep
    refine ⟨List.Subset.trans hdrawn hdrawn', fun record hrecord => ?_⟩
    rcases horigin' record hrecord with ⟨old, hold, hevolves⟩ | hnew
    · rcases horigin old hold with ⟨first, hfirst, hevolves'⟩ | hnew
      · exact .inl ⟨first, hfirst, hevolves'.trans hevolves⟩
      · exact .inr (hevolves.id.symm ▸ hnew)
    · exact .inr (fun hmem => hnew (hdrawn hmem))
  · exact ⟨List.Subset.refl _, fun record hrecord => .inl ⟨record, hrecord, .same⟩⟩

/-- An invitation that a run starts and ends with has evolved. -/
theorem Ledger.evolves_of_steps (hr : (ledgerWhere P key allowed).Reachable l)
    (hsteps : (ledgerWhere P key allowed).Steps l l') {old record : InviteRecord}
    (hold : old ∈ l.state.invites) (hrecord : record ∈ l'.state.invites)
    (hid : record.id = old.id) : old.Evolves (fun _ => True) record := by
  rcases (Ledger.origin_of_steps hr hsteps).2 record hrecord with ⟨first, hfirst, hevolves⟩ | hnew
  · have hkeyed := (wellFormed_of_reachable hr).keyed
    rwa [← hkeyed.invites.eq_of_key hfirst hold (hevolves.id.symm.trans hid)]
  · exact absurd (hid ▸ drawn_of_reachable hr old hold) hnew

/-! ## Single use -/

/-- An invitation that nobody has claimed names nobody. -/
def Unclaimed (s : ControlState) : Prop :=
  ∀ invite ∈ s.invites, invite.state ≠ .claimed → invite.claimedBy = none

theorem Ledger.unclaimed_of_reachable (h : (ledgerWhere P key allowed).Reachable l) :
    Unclaimed l.state := by
  refine h.invariant (P := fun l => Unclaimed l.state) ?_ ?_
  · rintro l ⟨⟨_, _, _, hstate⟩, _⟩ invite hinvite
    rw [hstate] at hinvite
    exact absurd hinvite List.not_mem_nil
  · intro l l' hr hunclaimed hstep
    cases hstep with
    | tick | draw | issue => exact hunclaimed
    | reorder s same wellFormed =>
      exact fun invite hinvite => hunclaimed invite (same.invites.mem_iff.1 hinvite)
    | commit amb delta tokens enrolled received clock draws decision =>
      intro invite hinvite hstate
      rcases decision.mutation_any.mem_invites P (wellFormed_of_reachable hr).keyed hinvite with
        ⟨old, hold, hevolves⟩ | ⟨_, _, hnone, _⟩
      · cases hevolves with
        | same => exact hunclaimed invite hold hstate
        | claim => exact absurd rfl hstate
        | revoke now pending => exact hunclaimed old hold (by simp [pending])
      · exact hnone

/-- The invitations that have enrolled a node: no one twice, and none of them pending again. -/
structure UsedOnce (l : Ledger) : Prop where
  nodup : l.history.enrolled.Nodup
  drawn : ∀ id ∈ l.history.enrolled, id ∈ l.drawn
  used : ∀ id ∈ l.history.enrolled, ∀ record ∈ l.state.invites, record.id = id →
    record.state ≠ .pending

theorem UsedOnce.step (hr : (ledgerWhere P key allowed).Reachable l) (h : UsedOnce l)
    (hstep : Ledger.Step P key allowed l l') : UsedOnce l' := by
  obtain ⟨hdrawn, horigin⟩ := Ledger.origin_of_step hr hstep
  -- what has been used before stays used: its record only evolves, and its id is not drawn again
  have hold : ∀ id ∈ l.history.enrolled, ∀ record ∈ l'.state.invites, record.id = id →
      record.state ≠ .pending := by
    rintro id hid record hrecord rfl hpending
    rcases horigin record hrecord with ⟨old, hmem, hevolves⟩ | hnew
    · exact h.used _ hid old hmem hevolves.id.symm (hevolves.of_pending hpending ▸ hpending)
    · exact hnew (h.drawn _ hid)
  cases hstep with
  | tick | draw | reorder | issue => exact ⟨h.nodup, fun id hid => hdrawn (h.drawn id hid), hold⟩
  | commit amb delta tokens enrolled received clock draws decision wellFormed fits uses =>
    obtain ⟨hnodup, huses⟩ := uses
    refine ⟨List.nodup_append.2 ⟨hnodup, h.nodup, ?_⟩, ?_, ?_⟩
    · rintro id hid _ hid' rfl
      obtain ⟨⟨record, hrecord, rfl, hpending⟩, _⟩ := huses id hid
      exact h.used _ hid' record hrecord rfl hpending
    · intro id hid
      rcases List.mem_append.1 hid with hid | hid
      · obtain ⟨⟨record, hrecord, rfl, _⟩, _⟩ := huses id hid
        exact hdrawn (Ledger.drawn_of_reachable hr record hrecord)
      · exact hdrawn (h.drawn id hid)
    · intro id hid record hrecord heq hpending
      rcases List.mem_append.1 hid with hid | hid
      · obtain ⟨_, claimed, hclaimed, hclaimedId, hstate⟩ := huses id hid
        have hone := wellFormed.keyed.invites.eq_of_key hrecord hclaimed (heq.trans hclaimedId.symm)
        rw [hone, hstate] at hpending
        cases hpending
      · exact hold id hid record hrecord heq hpending

theorem Ledger.usedOnce_of_reachable (h : (ledgerWhere P key allowed).Reachable l) : UsedOnce l := by
  refine h.invariant (P := UsedOnce) ?_ (fun l l' hr hused hstep => hused.step hr hstep)
  rintro l ⟨_, _, _, hhistory⟩
  have hempty : l.history.enrolled = [] := congrArg History.enrolled hhistory
  exact ⟨by simp [hempty], by simp [hempty], by simp [hempty]⟩

/-! ## Claims that change nothing -/

/-- Every claim with this content is refused, and changes nothing. -/
def World.Refuses (P : Platform) (key : SecretKey) (w : World) (request : ClaimRequest) : Prop :=
  ∀ amb s, w.process = some s → amb.Admissible w →
    (∃ e, (w.operate P key amb (.claim request) s).1 = .error e) ∧
      w.Unmoved (w.operate P key amb (.claim request) s).2

variable {request : ClaimRequest}

/-- A claim that finds its invitation neither pending nor claimed by the claimant fails. -/
theorem claim_fails (P : Platform) (key : SecretKey) (amb : Ambient)
    (h : ∀ record ∈ s.invites, record.id = request.claim.inviteId → record.state ≠ .pending ∧ (record.state = .claimed → record.claimedBy ≠ some request.claim.endpointId)) :
    ∃ e, claim P key amb request s = .error e := by
  cases hclaim : claim P key amb request s with
  | error e => exact ⟨e, rfl⟩
  | ok plan =>
    obtain ⟨record, _, _, _, hrecord, _, ⟨hpending, _⟩ | ⟨hclaimed, hby, _⟩⟩ := claim_eq_ok hclaim
    · obtain ⟨hmem, hid⟩ := Keyed.mem_of_lookup hrecord
      exact absurd hpending (h record hmem hid).1
    · obtain ⟨hmem, hid⟩ := Keyed.mem_of_lookup hrecord
      exact absurd hby ((h record hmem hid).2 hclaimed)

theorem World.refuses_of {w : World}
    (h : ∀ s, w.process = some s → ∀ record ∈ s.invites, record.id = request.claim.inviteId → record.state ≠ .pending ∧ (record.state = .claimed → record.claimedBy ≠ some request.claim.endpointId)) :
    w.Refuses P key request := by
  intro amb s hrun _
  obtain ⟨e, he⟩ := claim_fails P key amb (h s hrun)
  have hplan : (Operation.claim request).plan P key amb s = .error e := by
    simp only [Operation.plan, he, Except.map]
  exact World.refused_unmoved hrun hplan

/-- A claim of an invitation that is not pending commits nothing. -/
theorem claim_unmoved {w : World} (hrun : w.process = some s)
    (h : ∀ record ∈ s.invites, record.id = request.claim.inviteId → record.state ≠ .pending) :
    w.Unmoved (w.operate P key amb (.claim request) s).2 := by
  refine World.unmoved_of_plan hrun (fun delta respond hcommit => ?_)
  obtain ⟨_, hclaim, _⟩ := map_eq_commit hcommit
  obtain ⟨record, _, _, _, hrecord, _, ⟨hpending, _⟩ | ⟨_, _, _, _, hplan⟩⟩ := claim_eq_ok hclaim
  · obtain ⟨hmem, hid⟩ := Keyed.mem_of_lookup hrecord
    exact h record hmem hid hpending
  · cases hplan

/-! ## The result -/

/-- What a run makes of the invitations it finds: they are claimed or revoked while pending, stay what
    they are from then on, and never come back once they are gone. -/
structure InvitesProgress (s s' : ControlState) : Prop where
  state : ∀ r ∈ s.invites, ∀ r' ∈ s'.invites, r'.id = r.id → r'.state = r.state ∨
    (r.state = .pending ∧ (r'.state = .claimed ∨ r'.state = .revoked))
  claimedBy : ∀ r ∈ s.invites, ∀ r' ∈ s'.invites, r'.id = r.id → ∀ id, r.claimedBy = some id →
    r'.claimedBy = some id

theorem invitesProgress (hunclaimed : Unclaimed s)
    (h : ∀ r ∈ s.invites, ∀ r' ∈ s'.invites, r'.id = r.id → r.Evolves (fun _ => True) r') :
    InvitesProgress s s' where
  state := by
    intro r hr r' hr' hid
    cases h r hr r' hr' hid with
    | same => exact .inl rfl
    | claim _ _ pending => exact .inr ⟨pending, .inl rfl⟩
    | revoke _ pending => exact .inr ⟨pending, .inr rfl⟩
  claimedBy := by
    intro r hr r' hr' hid id hby
    cases h r hr r' hr' hid with
    | same => exact hby
    | claim _ _ pending | revoke _ pending =>
      exact absurd (hby.symm.trans (hunclaimed r hr (by simp [pending]))) (by simp)

/-- Two moments of a run are two moments of a run of the ledger. -/
theorem World.Shows.ledgers {w w' : World} (hr : (controlWhere P key allowed).Reachable w)
    (hsteps : (controlWhere P key allowed).Steps w w') (hs : w.Shows s) (hs' : w'.Shows s') :
    ∃ l l', (Control.ledgerWhere P key allowed).Reachable l ∧
      (Control.ledgerWhere P key allowed).Steps l l' ∧ s.Same l.state ∧ s'.Same l'.state := by
  obtain ⟨l, hl, href, hsame, _⟩ := hs.ledgerWhere hr
  obtain ⟨l', hsteps', href'⟩ :=
    (controlWhere_simulates_ledgerWhere P key allowed).steps hr hl href hsteps
  exact ⟨l, l', hl, hsteps', hsame, (hs'.represents href').1⟩

/-- The invitations of two moments of a run have evolved from one to the other. -/
theorem World.Shows.evolves {w w' : World} (hr : (controlWhere P key allowed).Reachable w)
    (hsteps : (controlWhere P key allowed).Steps w w') (hs : w.Shows s) (hs' : w'.Shows s')
    {r r' : InviteRecord} (hmem : r ∈ s.invites) (hmem' : r' ∈ s'.invites) (hid : r'.id = r.id) :
    r.Evolves (fun _ => True) r' := by
  obtain ⟨l, l', hl, hsteps', hsame, hsame'⟩ := World.Shows.ledgers hr hsteps hs hs'
  exact Ledger.evolves_of_steps hl hsteps' (hsame.invites.mem_iff.1 hmem)
    (hsame'.invites.mem_iff.1 hmem') hid

/-- An invitation that a run has lost stays lost. -/
theorem World.Shows.gone {w₁ w₂ w₃ : World} {s₁ s₂ s₃ : ControlState}
    (hr : (controlWhere P key allowed).Reachable w₁)
    (h₁₂ : (controlWhere P key allowed).Steps w₁ w₂) (h₂₃ : (controlWhere P key allowed).Steps w₂ w₃)
    (hs₁ : w₁.Shows s₁) (hs₂ : w₂.Shows s₂) (hs₃ : w₃.Shows s₃) {r : InviteRecord}
    (hr₁ : r ∈ s₁.invites) (hgone : ∀ r' ∈ s₂.invites, r'.id ≠ r.id) :
    ∀ r' ∈ s₃.invites, r'.id ≠ r.id := by
  intro r' hr' hid
  obtain ⟨l₁, hl₁, href₁, hsame₁, _⟩ := hs₁.ledgerWhere hr
  have hsim := controlWhere_simulates_ledgerWhere P key allowed
  obtain ⟨l₂, hsteps₁₂, href₂⟩ := hsim.steps hr hl₁ href₁ h₁₂
  obtain ⟨l₃, hsteps₂₃, href₃⟩ := hsim.steps (hr.steps h₁₂) (hl₁.steps hsteps₁₂) href₂ h₂₃
  have hr'₃ := (hs₃.represents href₃).1.invites.mem_iff.1 hr'
  have hdrawn := Ledger.drawn_of_reachable hl₁ r (hsame₁.invites.mem_iff.1 hr₁)
  rcases (Ledger.origin_of_steps (hl₁.steps hsteps₁₂) hsteps₂₃).2 r' hr'₃ with
    ⟨old, hold, hevolves⟩ | hnew
  · exact hgone old ((hs₂.represents href₂).1.invites.mem_iff.2 hold) (hevolves.id.symm.trans hid)
  · exact hnew (hid.symm ▸ (Ledger.origin_of_steps hl₁ hsteps₁₂).1 hdrawn)

/-- **Invitations are single-use.** In every run an invitation enrols at most one node, changes its
    state at most once and never changes who has claimed it. From then on a claim by somebody else,
    of a revoked invitation or of one that has been deleted is refused; a claim by whoever has
    claimed it already changes nothing. -/
theorem invitations_are_single_use {w₁ w₂ w₃ : World} {s₁ s₂ : ControlState}
    (hr : (control P key).Reachable w₁) (h₁₂ : (control P key).Steps w₁ w₂)
    (h₂₃ : (control P key).Steps w₂ w₃) (hs₁ : w₁.Shows s₁) (hs₂ : w₂.Shows s₂) :
    w₃.history.enrolled.Nodup ∧ InvitesProgress s₁ s₂ ∧ ∀ r ∈ s₁.invites,
      ∀ request : ClaimRequest, request.claim.inviteId = r.id →
        ((r.state = .claimed ∧ r.claimedBy ≠ some request.claim.endpointId) ∨ r.state = .revoked ∨
            (∀ r' ∈ s₂.invites, r'.id ≠ r.id) → w₃.Refuses P key request) ∧
        (r.state = .claimed → r.claimedBy = some request.claim.endpointId →
          ∀ amb s₃, w₃.process = some s₃ → amb.Admissible w₃ →
            w₃.Unmoved (w₃.operate P key amb (.claim request) s₃).2) := by
  have hr₃ := hr.steps (h₁₂.trans h₂₃)
  have hlater : ∀ s₃, w₃.process = some s₃ → ∀ r ∈ s₁.invites, ∀ r' ∈ s₃.invites, r'.id = r.id →
      r.Evolves (fun _ => True) r' := fun s₃ hrun r hr₁ r' hr' hid =>
    World.Shows.evolves hr (h₁₂.trans h₂₃) hs₁ (.inl hrun) hr₁ hr' hid
  refine ⟨?_, ?_, ?_⟩
  · obtain ⟨l, hl, href⟩ := exists_ledger hr₃
    rw [← href.history]
    exact (Ledger.usedOnce_of_reachable hl).nodup
  · obtain ⟨l, hl, _, hsame, _⟩ := hs₁.ledger hr
    refine invitesProgress (fun r hr₁ => ?_) (fun r hr₁ r' hr' hid =>
      World.Shows.evolves hr h₁₂ hs₁ hs₂ hr₁ hr' hid)
    exact Ledger.unclaimed_of_reachable hl r (hsame.invites.mem_iff.1 hr₁)
  · intro r hr₁ request hid
    refine ⟨fun hended => World.refuses_of (fun s₃ hrun r' hr' hid' => ?_), ?_⟩
    · have hevolves := hlater s₃ hrun r hr₁ r' hr' (hid'.trans hid)
      rcases hended with ⟨hclaimed, hby⟩ | hrevoked | hgone
      · obtain rfl := hevolves.of_terminal (by simp [hclaimed])
        exact ⟨by simp [hclaimed], fun _ => hby⟩
      · obtain rfl := hevolves.of_terminal (by simp [hrevoked])
        exact ⟨by simp [hrevoked], by simp [hrevoked]⟩
      · exact absurd (hid'.trans hid)
          (World.Shows.gone hr h₁₂ h₂₃ hs₁ hs₂ (.inl hrun) hr₁ hgone r' hr')
    · intro hclaimed _ amb s₃ hrun _
      refine claim_unmoved hrun (fun r' hr' hid' => ?_)
      obtain rfl := (hlater s₃ hrun r hr₁ r' hr' (hid'.trans hid)).of_terminal (by simp [hclaimed])
      simp [hclaimed]

open Reference in
/-- After a client has claimed its invitation, the claim of another node is refused. -/
theorem claimed_invitation_is_refused : ∃ w s r,
    (control (platform []) controlKey).Reachable w ∧ w.process = some s ∧ r ∈ s.invites ∧
      r.claimedBy = some (publicKey nodeKey) ∧
      w.Refuses (platform []) controlKey (claimOf (platform []) controlKey otherKey 0 r) := by
  obtain ⟨w, hr, hcheck⟩ := World.exists_after controlKey (fun _ _ _ => True)
    (enrolClient (platform []) controlKey nodeKey)
    (fun w => w.process.any (fun s => s.invites.any (fun r =>
      r.state = .claimed && r.claimedBy = some (publicKey nodeKey)))) (by decide +kernel)
  obtain ⟨s, hs, hcheck⟩ := (Option.any_eq_true _ _).1 hcheck
  obtain ⟨r, hmem, hcheck⟩ := List.any_eq_true.1 hcheck
  simp only [Bool.and_eq_true, decide_eq_true_eq] at hcheck
  obtain ⟨hclaimed, hby⟩ := hcheck
  have hother : r.claimedBy ≠ some (otherKey.public (platform [])).text := by
    rw [hby]
    decide +kernel
  exact ⟨w, s, r, hr, hs, hmem, hby,
    ((invitations_are_single_use hr .refl .refl (.inl hs) (.inl hs)).2.2 r hmem _ rfl).1
      (.inl ⟨hclaimed, hother⟩)⟩

end AgentScale.Control
