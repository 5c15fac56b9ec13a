import AgentScale.Control.Installation
import AgentScale.Control.Execution
import AgentScale.Control.Refinement
import AgentScale.Library.Writes

set_option autoImplicit false

/-! # The invitation `bootstrap` leaves

`bootstrap` returns early when all its files exist, whatever they hold. The invitation file is written
last and only once, so while no Relay is registered it holds the token of the invitation the database
has for the Relay, wherever an earlier invocation has been cut off. What the early return does not see
is that the invitation has expired (`bootstrap_leaves_usable_invitation`). -/

namespace AgentScale.Control

open Checked ControlApi RelayApi

variable {P : Platform} {key : SecretKey} {amb : Ambient} {s s' : ControlState} {w w' : World}
  {i : Installation}

/-! ## What Control does with claims -/

/-- A claim enrols a node, and a cleanup deletes what is due; nothing else is committed. -/
theorem Claims.commit {op : Operation P} {delta : StateDelta}
    {respond : ControlState → Except ApiError Response} (h : Claims amb s op)
    (hplan : op.plan P key amb s = .ok (.commit delta respond)) :
    (∃ (record : InviteRecord) (endpointId : EndpointId P) (port : Option UInt16)
      (change : StateChange), record ∈ s.invites ∧
      claimedNodeChange P s record.invite endpointId record.managedBy port (s.revision + 1)
        amb.received = .ok change ∧
      delta = .topology [change, .putInvite (record.claim endpointId.text amb.received)]) ∨
    delta = .quiet (cleanupChanges amb.clock s) := by
  cases op with
  | claim request =>
    obtain ⟨_, hclaim, _⟩ := map_eq_commit hplan
    obtain ⟨record, endpointId, port, _, hrecord, _, ⟨_, change, hchange, hcommit⟩ |
      ⟨_, _, _, _, hreply⟩⟩ := claim_eq_ok hclaim
    · obtain ⟨rfl, _⟩ := Plan.commit.inj hcommit
      exact .inl ⟨record, endpointId, port, change, (Keyed.mem_of_lookup hrecord).1, hchange, rfl⟩
    · cases hreply
  | cleanup =>
    obtain ⟨_, hcleanup, _⟩ := map_eq_commit hplan
    unfold Control.cleanup at hcleanup
    split at hcleanup
    · cases hcleanup
    · obtain ⟨rfl, _⟩ := Plan.commit.inj (Except.ok.inj hcleanup)
      exact .inr rfl
  | clientEdgeInvite | clientEdgeRemove | provisioner | watchRenewal | watch | relayWatchPort
  | relayWatch | localAdmin => exact h.elim

/-- A fact about the state that a Control which serves only claims keeps. -/
structure Kept (P : Platform) (p : ControlState → Prop) : Prop where
  same : ∀ {s s'}, p s → s'.Same s → p s'
  claim : ∀ {s} {record : InviteRecord} {endpointId : EndpointId P} {port : Option UInt16}
    {change : StateChange} {now : Int}, p s → s.Keyed → record ∈ s.invites →
    claimedNodeChange P s record.invite endpointId record.managedBy port (s.revision + 1) now =
      .ok change →
    p ((StateDelta.topology [change, .putInvite (record.claim endpointId.text now)]).commit s)
  cleanup : ∀ {s} (now : Int), p s → p (cleanupRevocations now (cleanupInvitations now s))

/-- The fact holds of what the world's database represents. -/
def World.Holds (p : ControlState → Prop) (w : World) : Prop :=
  ∀ s, Represents w.database.tables s → p s

theorem World.Holds.of_represents {p : ControlState → Prop} (h : Kept P p)
    (hrep : Represents w.database.tables s) (hs : p s) : w.Holds p :=
  fun _ hrep' => h.same hs (hrep'.same hrep)

/-- **One step of a Control that serves only claims.** -/
theorem World.Holds.step {p : ControlState → Prop} (h : Kept P p)
    (hr : (controlWhere P key Claims).Reachable w) (hw : w.Holds p)
    (hstep : World.Step P key Claims w w') (honline : w.process ≠ none ∨ w'.process ≠ none) :
    w'.Holds p := by
  have hsim := controlWhere_simulates_ledgerWhere P key Claims
  obtain ⟨l, _, href⟩ := hsim.reachable hr
  obtain ⟨l', _, href'⟩ := hsim.reachable (hr.step hstep)
  have hl := hw l.state href.represents
  cases hstep with
  | operate amb op state running admissible allows =>
    rcases World.operate_cases href running with ⟨hdatabase, _⟩ | ⟨delta, _, hplan, hprocess, _⟩
    · intro s hrep
      rw [hdatabase] at hrep
      exact hw s hrep
    · refine .of_represents h href'.represents ?_
      obtain rfl := href.process state running
      rw [← href'.process _ hprocess]
      have hk := href.represents.keyed
      rcases Claims.commit allows hplan with ⟨record, endpointId, port, change, hmem, hchange, rfl⟩ | rfl
      · exact h.claim hl hk hmem hchange
      · rw [cleanup_commit hk]
        exact h.cleanup amb.clock hl
  | tick | crash => exact hw
  | start ioError relayCaDer store stopped started =>
    refine .of_represents h href'.represents ?_
    rw [← href'.process _ rfl]
    obtain ⟨loaded, hload, started⟩ := of_bind started
    obtain ⟨_, _, started⟩ := of_bind started
    obtain ⟨_, _, started⟩ := of_bind started
    obtain ⟨_, _, started⟩ := of_bind started
    cases started
    exact h.cleanup w.clock (hw loaded (w.database.load_represents hload href.represents.keys).1)
  | bootstrap amb config prepared db stopped =>
    exact honline.elim (absurd stopped) (absurd stopped)

/-! ## The invitation of the Relay -/

def RelayInvites (s : ControlState) : Prop :=
  ∀ r ∈ s.invites, ∃ url, r.invite.kind = .relay url

variable {now : Int}

/-- What the claim of a Relay's invitation commits. -/
theorem claim_of_relay {record : InviteRecord} {endpointId : EndpointId P} {port : Option UInt16}
    {change : StateChange} {generation : Nat} (hkind : ∃ url, record.invite.kind = .relay url)
    (h : claimedNodeChange P s record.invite endpointId record.managedBy port generation now = .ok change) :
    ∃ relay : RelayRecord,
      (StateDelta.topology [change, .putInvite (record.claim endpointId.text now)]).commit s =
        { s with
          revision := s.revision + 1
          relays := Keyed.upsert RelayRecord.endpointId relay s.relays
          invites := Keyed.upsert InviteRecord.id (record.claim endpointId.text now) s.invites } := by
  obtain ⟨url, hkind⟩ := hkind
  rcases claimedNodeChange_eq_ok P h with ⟨hclient, _⟩ | ⟨_, hedge, _⟩ | ⟨_, _, _, rfl⟩
  · cases hclient.symm.trans hkind
  · cases hedge.symm.trans hkind
  · exact ⟨_, rfl⟩

theorem relayInvites_kept : Kept P RelayInvites where
  same := fun h hsame r hr => h r (hsame.invites.mem_iff.1 hr)
  claim := by
    intro s record endpointId port change now h hk hmem hchange r hr
    obtain ⟨relay, hcommit⟩ := claim_of_relay (h record hmem) hchange
    rw [hcommit] at hr
    rcases (Keyed.mem_upsert hk.invites).1 hr with rfl | ⟨hr, _⟩
    · exact h record hmem
    · exact h r hr
  cleanup := fun _ h r hr => h r (List.mem_filter.1 hr).1

/-- The token belongs to this Control. While no Relay is registered, no invitation but that of the
    token is pending. -/
structure Offered (token : JoinToken) (s : ControlState) : Prop where
  relayOnly : RelayInvites s
  audience : token.invite.audience = s.audience
  url : token.invite.controlUrl = s.publicUrl
  only : s.relays = [] → ∀ r ∈ s.invites, r.state = .pending → r.invite = token.invite

theorem offered_kept (token : JoinToken) : Kept P (Offered token) where
  same := by
    intro s s' h hsame
    refine ⟨(relayInvites_kept (P := P)).same h.relayOnly hsame, h.audience.trans hsame.audience.symm,
      h.url.trans (congrArg MetadataRow.publicUrl hsame.metadata).symm, fun hnone r hr => ?_⟩
    have hnone : s.relays = [] := (hsame.relays.symm.trans (hnone ▸ .rfl)).eq_nil
    exact h.only hnone r (hsame.invites.mem_iff.1 hr)
  claim := by
    -- the claim registers a Relay
    intro s record endpointId port change now h hk hmem hchange
    have hrelays := (relayInvites_kept (P := P)).claim h.relayOnly hk hmem hchange
    obtain ⟨relay, hcommit⟩ := claim_of_relay (h.relayOnly record hmem) hchange
    rw [hcommit] at hrelays ⊢
    refine ⟨hrelays, h.audience, h.url, fun hnone => ?_⟩
    have hrelay : relay ∈ Keyed.upsert RelayRecord.endpointId relay s.relays :=
      (Keyed.mem_upsert hk.relays).2 (.inl rfl)
    rw [show Keyed.upsert RelayRecord.endpointId relay s.relays = [] from hnone] at hrelay
    exact absurd hrelay List.not_mem_nil
  cleanup := fun now h => ⟨(relayInvites_kept (P := P)).cleanup now h.relayOnly, h.audience, h.url,
    fun hnone r hr => h.only hnone r (List.mem_filter.1 hr).1⟩

/-! ## The last part of `bootstrap` -/

variable {config : BootstrapConfig} {publicUrl relayUrl : String} {db : Database}
  {writes : List Write}

/-- The state `bootstrap` writes back while no Relay is registered. -/
def invited (s : ControlState) (record : InviteRecord) : ControlState :=
  { s with invites := s.invites.filter (fun i => !i.isPendingRelay) ++ [record] }

/-- Either a Relay is registered and the state is written back as it was, or a fresh invitation is
    written to the database and then to the file. -/
theorem prepareRelay_eq_ok (hcheck : config.check P = .ok (publicUrl, relayUrl))
    (hload : db.load = .ok s)
    (h : prepareRelay P key amb config publicUrl relayUrl s db = .ok writes) :
    ∃ db', Control.bootstrap P key amb config false db = .ok db' ∧
      ((s.relays ≠ [] ∧ writes = [.sync db' amb.inviteToken] ∧ db.applySync s s = .ok db') ∨
      (s.relays = [] ∧ ∃ (rest : ControlState) (result : InviteResult) (record : InviteRecord),
        rest.audience = s.audience ∧ rest.publicUrl = s.publicUrl ∧
        buildInvite P key rest amb.clock amb.inviteToken config.relayName (.relay relayUrl)
          config.relayTtlSecs amb.secretToken = .ok (result, record) ∧
        db.applySync s (invited s record) = .ok db' ∧
        writes = [.sync db' amb.inviteToken, .invitation (invitationText result)])) := by
  obtain ⟨_, hname, hcheck⟩ := of_bind hcheck
  obtain ⟨_, hnonempty, hcheck⟩ := of_bind hcheck
  obtain ⟨_, hpublic, hcheck⟩ := of_bind hcheck
  obtain ⟨_, hrelay, hcheck⟩ := of_bind hcheck
  cases hcheck
  obtain ⟨_, haudience, h⟩ := of_bind h
  obtain ⟨_, hurl, h⟩ := of_bind h
  obtain ⟨⟨next, invite⟩, hinvite, h⟩ := of_bind h
  obtain ⟨db', hdb, h⟩ := of_bind h
  cases h
  have hboot (hstate : bootstrapState P key amb config.relayName _ config.relayTtlSecs s = .ok next) :
      Control.bootstrap P key amb config false db = .ok db' :=
    bind_ok hname (bind_ok hnonempty (bind_ok hpublic (bind_ok hrelay
      (bind_ok hload (bind_ok haudience (bind_ok hurl
        (bind_ok hstate hdb)))))))
  refine ⟨db', ?_⟩
  unfold relayInvite at hinvite
  unfold bootstrapState at hboot
  split at hinvite
  · next hnone =>
    rw [if_pos hnone] at hboot
    obtain ⟨⟨result, record⟩, hbuild, hinvite⟩ := of_bind hinvite
    cases hinvite
    refine ⟨hboot (bind_ok hbuild rfl), .inr ⟨hnone, _, result, record, ?_, ?_, hbuild,
      transaction_eq_ok hdb, rfl⟩⟩
    · rfl
    · rfl
  · next hsome =>
    rw [if_neg hsome] at hboot
    obtain ⟨_, hmatches, hinvite⟩ := of_bind hinvite
    cases hinvite
    exact ⟨hboot (bind_ok hmatches rfl), .inl ⟨hsome, rfl, transaction_eq_ok hdb⟩⟩

/-! ## Wherever it is cut off -/

variable (P key) in
/-- The Control of an installation is one that has served only claims, and the invitation file, if
    there is one, holds the token of its Relay invitation. -/
structure Installed (i : Installation) (w : World) : Prop where
  identity : i.files.key = some key
  database : i.files.database = true
  clock : w.clock = i.clock
  reachable : (controlWhere P key Claims).Reachable w
  relayOnly : w.Holds RelayInvites
  offered : ∀ text, i.files.invitation = some text → ∃ token : JoinToken,
    text = token.joinUrl P ++ "\n" ∧ token.invite.controlId = (key.public P).text ∧
      w.Holds (Offered token)

variable (P key) in
/-- The invitation file is written only after the database. -/
structure Installation.Sound (i : Installation) : Prop where
  blank : i.control = none → i.files.invitation = none
  control : ∀ w, i.control = some w → Installed P key i w

theorem Installed.sound (hw : i.control = some w) (h : Installed P key i w) : i.Sound P key where
  blank := fun hnone => absurd (hw.symm.trans hnone) (by simp)
  control := fun _ hw' => Option.some.inj (hw.symm.trans hw') ▸ h

/-- The ids of what the database represents have been drawn. -/
theorem absent_of_fresh (hr : (controlWhere P key Claims).Reachable w)
    (hrep : Represents w.database.tables s) {token : String} (hfresh : token ∉ w.drawn) :
    ∀ invite ∈ s.invites, invite.id ≠ token := by
  obtain ⟨l, hl, href⟩ := (controlWhere_simulates_ledgerWhere P key Claims).reachable hr
  rintro invite hinvite rfl
  have hmem := (hrep.same href.represents).invites.mem_iff.1 hinvite
  exact hfresh (href.drawn ▸ Ledger.drawn_of_reachable hl invite hmem)

/-- Everything a stopped Control loads is represented by its database. -/
theorem Installed.represents (h : Installed P key i w) (hload : w.database.load = .ok s) :
    Represents w.database.tables s := by
  obtain ⟨l, _, href⟩ := (controlWhere_simulates_ledgerWhere P key Claims).reachable h.reachable
  exact (w.database.load_represents hload href.represents.keys).1

/-- The database has been written back, and there is no invitation file. -/
theorem Installed.sync (h : Installed P key i w) (hstopped : w.process = none)
    (hnone : i.files.invitation = none) (hamb : amb.Offline i) (hw : i.control = some w)
    (hboot : Control.bootstrap P key amb config false w.database = .ok db)
    (hrelays : RelayInvites s) (hrep : Represents db.tables s) :
    Installed P key (i.write (.sync db amb.inviteToken))
      { w with database := db, drawn := amb.inviteToken :: w.drawn } where
  __ := h
  reachable := h.reachable.step (.bootstrap w amb config false db hstopped
    (h.clock.symm ▸ hamb.received) (hamb.clock.trans h.clock.symm) (hamb.fresh w hw) hboot)
  relayOnly := .of_represents (relayInvites_kept (P := P)) hrep hrelays
  offered := fun text htext => absurd (hnone.symm.trans htext) (by simp)

/-- The token of a fresh invitation is offered: the pending ones before it are gone. -/
theorem offered_invited {rest : ControlState} {result : InviteResult} {record : InviteRecord}
    (haudience : rest.audience = s.audience) (hurl : rest.publicUrl = s.publicUrl)
    (hbuild : buildInvite P key rest amb.clock amb.inviteToken config.relayName (.relay relayUrl)
      config.relayTtlSecs amb.secretToken = .ok (result, record)) (hrelays : RelayInvites s) :
    Offered (JoinToken.new P record.invite amb.secretToken key) (invited s record) := by
  obtain ⟨_, hkind, _⟩ := buildInvite_eq_ok P hbuild
  obtain ⟨_, haudience', hurl', _⟩ := buildInvite_invite P hbuild
  refine ⟨fun r hr => ?_, haudience'.trans haudience, hurl'.trans hurl, fun _ r hr hpending => ?_⟩
  · rcases List.mem_append.1 hr with hr | hr
    · exact hrelays r (List.mem_filter.1 hr).1
    · exact List.mem_singleton.1 hr ▸ ⟨_, hkind⟩
  · rcases List.mem_append.1 hr with hr | hr
    · obtain ⟨hr, hother⟩ := List.mem_filter.1 hr
      obtain ⟨url, hrelay⟩ := hrelays r hr
      simp [InviteRecord.isPendingRelay, hrelay, hpending] at hother
    · exact List.mem_singleton.1 hr ▸ rfl

/-- **The last part of `bootstrap`**, from a stopped Control without an invitation file: the state is
    written back as it was for a registered Relay, or a fresh token is offered and written. -/
theorem prepareRelay_outcome (hi : Installed P key i w) (hw : i.control = some w)
    (hstopped : w.process = none) (hnone : i.files.invitation = none) (hamb : amb.Offline i)
    (hcheck : config.check P = .ok (publicUrl, relayUrl)) (hload : w.database.load = .ok s)
    (h : prepareRelay P key amb config publicUrl relayUrl s w.database = .ok writes) :
    ∃ db' w' s', (i.write (.sync db' amb.inviteToken)).control = some w' ∧
      Installed P key (i.write (.sync db' amb.inviteToken)) w' ∧
      Represents w'.database.tables s' ∧
      ((s.relays ≠ [] ∧ writes = [.sync db' amb.inviteToken] ∧ s' = s) ∨
      (s.relays = [] ∧ ∃ (token : JoinToken) (record : InviteRecord),
        writes = [.sync db' amb.inviteToken, .invitation (token.joinUrl P ++ "\n")] ∧
        token.invite.controlId = (key.public P).text ∧
        token.invite.expiresAt = i.clock + config.relayTtlSecs ∧ Offered token s' ∧
        record ∈ s'.invites ∧ record.state = .pending ∧ record.invite = token.invite)) := by
  have hrep := hi.represents hload
  have hrelays := hi.relayOnly s hrep
  have hcontrol (db' : Database) : (i.write (.sync db' amb.inviteToken)).control =
      some { w with database := db', drawn := amb.inviteToken :: w.drawn } := by
    simp only [Installation.write, hw, Option.map_some]
  obtain ⟨db', hboot, ⟨hsome, rfl, hdb⟩ |
    ⟨hempty, rest, result, record, haudience, hurl, hbuild, hdb, rfl⟩⟩ :=
    prepareRelay_eq_ok hcheck hload h
  · have hrep' := (hrep.applySync hrep.keyed hdb).1
    exact ⟨db', _, s, hcontrol db', hi.sync hstopped hnone hamb hw hboot hrelays hrep', hrep',
      .inl ⟨hsome, rfl, rfl⟩⟩
  · obtain ⟨hid, _, hrecord⟩ := buildInvite_eq_ok P hbuild
    have hkeyed : (invited s record).Keyed := bootstrapped_keyed hrep.keyed
      (hid ▸ absent_of_fresh hi.reachable hrep (hamb.fresh w hw))
    have hrep' := (hrep.applySync hkeyed hdb).1
    have hoffered := offered_invited haudience hurl hbuild hrelays
    obtain ⟨hcontrolId, _, _, hexpires⟩ := buildInvite_invite P hbuild
    obtain ⟨_, _, _, _, hresult⟩ := buildInvite_spec P hbuild
    refine ⟨db', _, invited s record, hcontrol db',
      hi.sync hstopped hnone hamb hw hboot hoffered.relayOnly hrep', hrep',
      .inr ⟨hempty, _, record, ?_, hcontrolId, hamb.clock ▸ hexpires, hoffered,
        List.mem_append_right _ (List.mem_singleton.2 rfl), ?_, rfl⟩⟩
    · rw [invitationText, hresult]
    · rw [hrecord]

/-- It can be cut off anywhere. -/
theorem prepareRelay_safe (hi : Installed P key i w) (hw : i.control = some w)
    (hstopped : w.process = none) (hnone : i.files.invitation = none) (hamb : amb.Offline i)
    (hcheck : config.check P = .ok (publicUrl, relayUrl)) (hload : w.database.load = .ok s)
    (h : prepareRelay P key amb config publicUrl relayUrl s w.database = .ok writes) :
    Writes.Safe Installation.write (Installation.Sound P key) i writes := by
  obtain ⟨db', w', s', hw', hsync, hrep', ⟨_, rfl, _⟩ | ⟨_, token, _, rfl, hcontrolId, _, hoffered, _⟩⟩ :=
    prepareRelay_outcome hi hw hstopped hnone hamb hcheck hload h
  · exact ⟨hi.sound hw, hsync.sound hw'⟩
  · refine ⟨hi.sound hw, hsync.sound hw', ?_⟩
    refine Installed.sound hw' { hsync with offered := fun text htext => ?_ }
    cases htext
    exact ⟨token, rfl, hcontrolId, .of_represents (offered_kept (P := P) token) hrep' hoffered⟩

theorem Installation.Sound.of_blank (hcontrol : i.control = none) (hnone : i.files.invitation = none) :
    i.Sound P key where
  blank := fun _ => hnone
  control := fun _ hw => absurd (hw.symm.trans hcontrol) (by simp)

theorem Installation.Sound.control_none (hs : i.Sound P key) (hdatabase : i.files.database = false) :
    i.control = none := by
  cases hw : i.control with
  | none => rfl
  | some w => exact absurd ((hs.control w hw).database.symm.trans hdatabase) (by simp)

variable {relayCaDer : List UInt8}

/-- A database that has just been created loads as the initial state. -/
theorem load_initialState {audience : String}
    (h : Database.create (initialState audience publicUrl relayCaDer) = .ok db) :
    db.load = .ok (initialState audience publicUrl relayCaDer) := by
  have hrep : Represents db.tables (initialState audience publicUrl relayCaDer) :=
    .create List.nodup_nil h
  obtain ⟨loaded, hload, hmetadata, hclients, hedges, hrelays, hinvites, hprovisioners, hrevocations⟩ :=
    hrep.load rfl
  rw [hload]
  obtain ⟨⟩ := loaded
  obtain rfl := hclients.eq_nil
  obtain rfl := hedges.eq_nil
  obtain rfl := hrelays.eq_nil
  obtain rfl := hinvites.eq_nil
  obtain rfl := hprovisioners.eq_nil
  obtain rfl := hrevocations.eq_nil
  simp only [ControlState.metadataRow, initialState, MetadataRow.mk.injEq] at hmetadata ⊢
  obtain ⟨rfl, rfl, rfl, rfl, rfl, rfl⟩ := hmetadata
  rfl

/-- The Control over a database that has just been created. -/
theorem Installed.created (hcheck : config.check P = .ok (publicUrl, relayUrl))
    (hidentity : i.files.key = some key) (hdatabase : i.files.database = true)
    (hnone : i.files.invitation = none)
    (hcreate : Database.create (initialState config.audience publicUrl relayCaDer) = .ok db) :
    Installed P key (i.write (.create db)) ⟨i.clock, db, none, [], [], History.empty⟩ where
  identity := hidentity
  database := hdatabase
  clock := rfl
  reachable := by
    obtain ⟨_, _, hcheck⟩ := of_bind hcheck
    obtain ⟨_, hnonempty, hcheck⟩ := of_bind hcheck
    obtain ⟨_, hpublic, hcheck⟩ := of_bind hcheck
    obtain ⟨_, _, hcheck⟩ := of_bind hcheck
    obtain ⟨rfl, _⟩ := Prod.mk.inj (pure_eq_ok.1 hcheck)
    have hinit : Control.init P config.publicUrl config.audience relayCaDer = .ok db :=
      bind_ok hnonempty (bind_ok hpublic hcreate)
    exact ⟨_, ⟨⟨_, _, _, hinit⟩, rfl, rfl, rfl, rfl⟩, .refl⟩
  relayOnly := by
    have hrep : Represents db.tables (initialState config.audience publicUrl relayCaDer) :=
      .create List.nodup_nil hcreate
    exact .of_represents (relayInvites_kept (P := P)) hrep (fun r hr => absurd hr List.not_mem_nil)
  offered := fun text htext => absurd (hnone.symm.trans htext) (by simp)

/-- Nothing has been drawn for a new database. -/
theorem Ambient.Offline.created {i' : Installation} (h : amb.Offline i) (hclock : i'.clock = i.clock) :
    amb.Offline (i'.write (.create db)) where
  received := hclock.symm ▸ h.received
  clock := h.clock.trans hclock.symm
  fresh := by
    rintro w hw
    cases hw
    exact List.not_mem_nil

/-- `bootstrap` without a database. -/
theorem prepareFresh_safe (hcontrol : i.control = none) (hnone : i.files.invitation = none)
    (hamb : amb.Offline i) (hcheck : config.check P = .ok (publicUrl, relayUrl)) :
    Writes.Safe Installation.write (Installation.Sound P key) i
      (i.prepareFresh P key amb relayCaDer config publicUrl relayUrl).writes := by
  have hblank : ∀ files, files.invitation = none →
      Installation.Sound P key { i with files } := fun files hfiles => .of_blank hcontrol hfiles
  have hfiles : Writes.Safe Installation.write (Installation.Sound P key) i
      [.key key, .caKey, .caCert relayCaDer, .databaseFile] :=
    ⟨.of_blank hcontrol hnone, hblank _ hnone, hblank _ hnone, hblank _ hnone, hblank _ hnone⟩
  simp only [Installation.prepareFresh]
  split
  · exact ⟨.of_blank hcontrol hnone, hblank _ hnone⟩
  · cases hcreate : Database.create (initialState config.audience publicUrl relayCaDer) with
    | error e => exact hfiles
    | ok db =>
      let filed := i.after [.key key, .caKey, .caCert relayCaDer, .databaseFile]
      have hfiled : filed.Sound P key := hblank _ hnone
      have hcreated := Installed.created (i := filed) hcheck rfl rfl hnone hcreate
      cases hprepare : prepareRelay P key amb config publicUrl relayUrl
          (initialState config.audience publicUrl relayCaDer) db with
      | error e =>
        have hlast : Writes.Safe Installation.write (Installation.Sound P key) filed
            [.create db] := ⟨hfiled, hcreated.sound rfl⟩
        simp only [hprepare]
        exact hfiles.append hlast
      | ok writes =>
        have hoffline : amb.Offline (filed.write (.create db)) := hamb.created rfl
        have hlast : Writes.Safe Installation.write (Installation.Sound P key) filed
            (.create db :: writes) :=
          ⟨hfiled, prepareRelay_safe hcreated rfl rfl hnone hoffline hcheck
            (load_initialState hcreate) hprepare⟩
        simp only [hprepare]
        exact hfiles.append hlast

/-- The ways through `bootstrap`: it writes nothing, because it returns early or fails, or it prepares
    a Relay over the database there is, or over a new one. -/
theorem bootstrap_cases (P : Platform) (key : SecretKey) (amb : Ambient) (relayCaDer : List UInt8)
    (config : BootstrapConfig) (i : Installation) :
    ((i.bootstrap P key amb relayCaDer config).writes = [] ∧
      (i.prepared = true ∨ ∃ e, (i.bootstrap P key amb relayCaDer config).result = .error e)) ∨
    (i.prepared = false ∧ ∃ publicUrl relayUrl, config.check P = .ok (publicUrl, relayUrl) ∧
      i.checkFiles = .ok () ∧
      ((i.files.database = true ∧ i.prepareExisting P amb config publicUrl relayUrl =
          .ok (i.bootstrap P key amb relayCaDer config).writes) ∨
        (i.files.database = false ∧ i.bootstrap P key amb relayCaDer config =
          i.prepareFresh P key amb relayCaDer config publicUrl relayUrl))) := by
  cases hcheck : config.check P with
  | error e => exact .inl (by simp [Installation.bootstrap, hcheck])
  | ok urls =>
    obtain ⟨publicUrl, relayUrl⟩ := urls
    cases hprepared : i.prepared with
    | true => exact .inl (by simp [Installation.bootstrap, hcheck, hprepared])
    | false =>
      cases hfiles : i.checkFiles with
      | error e => exact .inl (by simp [Installation.bootstrap, hcheck, hprepared, hfiles])
      | ok u =>
        cases hdatabase : i.files.database with
        | false =>
          refine .inr ⟨rfl, publicUrl, relayUrl, rfl, rfl, .inr ⟨rfl, ?_⟩⟩
          simp [Installation.bootstrap, hcheck, hprepared, hfiles, hdatabase]
        | true =>
          cases hexisting : i.prepareExisting P amb config publicUrl relayUrl with
          | error e =>
            exact .inl (by simp [Installation.bootstrap, hcheck, hprepared, hfiles, hdatabase,
              hexisting])
          | ok writes =>
            refine .inr ⟨rfl, publicUrl, relayUrl, rfl, rfl, .inl ⟨rfl, ?_⟩⟩
            rw [hexisting]
            simp [Installation.bootstrap, hcheck, hprepared, hfiles, hdatabase, hexisting]

theorem bootstrap_writes_of_prepared (hprepared : i.prepared = true) :
    (i.bootstrap P key amb relayCaDer config).writes = [] := by
  rcases bootstrap_cases P key amb relayCaDer config i with ⟨hnothing, _⟩ | ⟨hfalse, _⟩
  · exact hnothing
  · cases hprepared.symm.trans hfalse

/-- `bootstrap` touches only a stopped Control without an invitation file. -/
theorem prepareExisting_eq_ok (hs : i.Sound P key) (hprepared : i.prepared = false)
    (hfiles : i.checkFiles = .ok ()) (hdatabase : i.files.database = true)
    (h : i.prepareExisting P amb config publicUrl relayUrl = .ok writes) :
    i.files.invitation = none ∧ ∃ w s, i.control = some w ∧ w.process = none ∧
      w.database.load = .ok s ∧
      prepareRelay P key amb config publicUrl relayUrl s w.database = .ok writes := by
  obtain ⟨_, hstopped, hcomplete⟩ := of_bind hfiles
  obtain ⟨hkey, hca⟩ := ensure_eq_ok.1 hcomplete
  obtain ⟨key', hkey', h⟩ := of_bind h
  obtain ⟨w, hw, h⟩ := of_bind h
  obtain ⟨s, hload, h⟩ := of_bind h
  have hw := okOr_eq_ok.1 hw
  have hstopped := ensure_eq_ok.1 hstopped
  cases (hs.control w hw).identity.symm.trans (okOr_eq_ok.1 hkey')
  refine ⟨?_, w, s, hw, ?_, hload, h⟩
  · rw [hdatabase] at hkey hca
    rw [eq_comm, Bool.and_eq_true] at hca
    simpa [Installation.prepared, hkey, hdatabase, hca.1, hca.2] using hprepared
  · simpa [Installation.running, hw] using hstopped

/-- **Wherever `bootstrap` is cut off**, the installation stays sound. -/
theorem bootstrap_safe (hs : i.Sound P key) (hamb : amb.Offline i) (relayCaDer : List UInt8)
    (config : BootstrapConfig) :
    Writes.Safe Installation.write (Installation.Sound P key) i
      (i.bootstrap P key amb relayCaDer config).writes := by
  rcases bootstrap_cases P key amb relayCaDer config i with ⟨hnothing, _⟩ |
    ⟨hprepared, publicUrl, relayUrl, hcheck, hfiles, ⟨hdatabase, hexisting⟩ | ⟨hdatabase, hfresh⟩⟩
  · rw [hnothing]
    exact hs
  · obtain ⟨hnone, w, s, hw, hstopped, hload, h⟩ :=
      prepareExisting_eq_ok hs hprepared hfiles hdatabase hexisting
    exact prepareRelay_safe (hs.control w hw) hw hstopped hnone hamb hcheck hload h
  · rw [hfresh]
    have hcontrol := hs.control_none hdatabase
    exact prepareFresh_safe hcontrol (hs.blank hcontrol) hamb hcheck

/-! ## Runs -/

theorem Installation.Sound.tick (hs : i.Sound P key) (hlater : i.clock ≤ now) :
    (i.tick now).Sound P key := by
  refine ⟨fun hnone => hs.blank (Option.map_eq_none_iff.1 hnone), fun w' hw' => ?_⟩
  obtain ⟨w, hw, rfl⟩ := Option.map_eq_some_iff.1 hw'
  have hi := hs.control w hw
  have hlater : w.clock ≤ now := hi.clock.trans_le hlater
  exact ⟨hi.identity, hi.database, rfl, hi.reachable.step (.tick w now hlater), hi.relayOnly,
    hi.offered⟩

theorem Installation.after_clock (writes : List Write) (i : Installation) :
    (i.after writes).clock = i.clock := by
  induction writes generalizing i with
  | nil => rfl
  | cons write rest ih =>
    have hwrite : (i.write write).clock = i.clock := by cases write <;> rfl
    exact (ih (i.write write)).trans hwrite

theorem Installation.Sound.step {i' : Installation} (hs : i.Sound P key)
    (hstep : Installation.Step P key config i i') : i'.Sound P key := by
  cases hstep with
  | bootstrap amb relayCaDer done now offline later =>
    exact Installation.Sound.tick ((bootstrap_safe hs offline relayCaDer config).cut done)
      ((Installation.after_clock _ i).trans_le later)
  | control w w' initialised step online =>
    have hi := hs.control w initialised
    refine Installed.sound rfl ⟨hi.identity, hi.database, rfl, hi.reachable.step step,
      hi.relayOnly.step relayInvites_kept hi.reachable step online, fun text htext => ?_⟩
    obtain ⟨token, htoken, hcontrolId, hoffered⟩ := hi.offered text htext
    exact ⟨token, htoken, hcontrolId,
      hoffered.step (offered_kept token) hi.reachable step online⟩
  | tick now later => exact hs.tick later

/-- An invocation that is not cut off. -/
theorem Installation.Step.completed (hamb : amb.Offline i) (hlater : i.clock ≤ now) :
    Installation.Step P key config i
      ((i.after (i.bootstrap P key amb relayCaDer config).writes).tick now) := by
  have hstep : Installation.Step P key config i _ := .bootstrap i amb relayCaDer
    (i.bootstrap P key amb relayCaDer config).writes.length now hamb hlater
  rwa [List.take_length] at hstep

theorem Installation.sound_of_reachable (h : (installation P key config).Reachable i) :
    i.Sound P key := by
  refine h.invariant (P := Installation.Sound P key) ?_ (fun i i' _ hs hstep => hs.step hstep)
  rintro i ⟨hfiles, hcontrol⟩
  exact .of_blank hcontrol (by rw [hfiles])

/-! ## The result -/

variable (P key) in
/-- The invitation file holds a token whose invitation is pending in the database and has not expired,
    so that a claim with it would be accepted. -/
def Installation.Usable (i : Installation) : Prop :=
  ∃ (token : JoinToken) (s : ControlState) (record : InviteRecord),
    i.files.invitation = some (token.joinUrl P ++ "\n") ∧ i.load = some s ∧ record ∈ s.invites ∧
      record.state = .pending ∧ record.invite = token.invite ∧ i.clock ≤ token.invite.expiresAt ∧
      validateTokenForState P token s (key.public P) i.clock = .ok ()

/-- An invocation that finds all files returns before a pending invitation in the database expires,
    and any other before the one that it issues does. -/
def Installation.InTime (config : BootstrapConfig) (i : Installation) (now : Int) : Prop :=
  if i.prepared then ∃ s, i.load = some s ∧ ∃ record ∈ s.invites,
    record.state = .pending ∧ now ≤ record.invite.expiresAt
  else now ≤ i.clock + config.relayTtlSecs

theorem Installation.load_eq_some (hw : i.control = some w) :
    i.load = some s ↔ w.database.load = .ok s := by
  rw [Installation.load, hw]
  exact toOption_eq_some

/-- A token that is offered is usable until the pending invitation expires. -/
theorem Installed.usable_iff (h : Installed P key i w) (hw : i.control = some w) {token : JoinToken}
    (hfile : i.files.invitation = some (token.joinUrl P ++ "\n"))
    (hcontrolId : token.invite.controlId = (key.public P).text) (hoffered : w.Holds (Offered token))
    (hload : i.load = some s) (hnone : s.relays = []) :
    i.Usable P key ↔ ∃ record ∈ s.invites, record.state = .pending ∧
      i.clock ≤ record.invite.expiresAt := by
  constructor
  · rintro ⟨token', s', record, _, hload', hrecord, hpending, htoken, hfresh, _⟩
    cases hload.symm.trans hload'
    exact ⟨record, hrecord, hpending, htoken ▸ hfresh⟩
  · rintro ⟨record, hrecord, hpending, hfresh⟩
    have hrep := h.represents ((Installation.load_eq_some hw).1 hload)
    have hours := hoffered s hrep
    have htoken := hours.only hnone record hrecord hpending
    have hstored : Keyed.lookup InviteRecord.id token.invite.inviteId s.invites = some record :=
      (Keyed.lookup_eq_some hrep.keyed.invites).2 ⟨hrecord, congrArg Invite.inviteId htoken⟩
    rw [htoken] at hfresh
    exact ⟨token, s, record, hfile, hload, hrecord, hpending, htoken, hfresh,
      bind_ok (ensure_of ⟨hcontrolId, hours.audience, hours.url⟩)
        (bind_ok (ensure_of hfresh) (bind_ok (okOr_eq_ok.2 hstored)
          (ensure_of htoken)))⟩

/-- The file that an early return finds is usable until the pending invitation expires. -/
theorem Installation.Sound.usable_iff (hs : i.Sound P key) (hprepared : i.prepared = true)
    (hload : i.load = some s) (hnone : s.relays = []) :
    i.Usable P key ↔ ∃ record ∈ s.invites, record.state = .pending ∧
      i.clock ≤ record.invite.expiresAt := by
  obtain ⟨w, hw, _⟩ := Option.bind_eq_some_iff.1 hload
  have hi := hs.control w hw
  obtain ⟨text, htext⟩ := Option.isSome_iff_exists.1 (Bool.and_eq_true_iff.1 hprepared).2
  obtain ⟨token, rfl, hcontrolId, hoffered⟩ := hi.offered text htext
  exact hi.usable_iff hw htext hcontrolId hoffered hload hnone

theorem Installation.tick_load (now : Int) (i : Installation) : (i.tick now).load = i.load := by
  unfold Installation.load Installation.tick
  cases i.control <;> rfl

variable (P key) in
/-- The writes leave a registered Relay alone, or leave a fresh token. -/
def Installation.Left (config : BootstrapConfig) (writes : List Write) (i : Installation) : Prop :=
  ∃ w s, (i.after writes).control = some w ∧ Represents w.database.tables s ∧
    (s.relays ≠ [] ∨ ∃ (token : JoinToken) (record : InviteRecord),
      (i.after writes).files.invitation = some (token.joinUrl P ++ "\n") ∧
      token.invite.controlId = (key.public P).text ∧
      token.invite.expiresAt = i.clock + config.relayTtlSecs ∧ Offered token s ∧
      record ∈ s.invites ∧ record.state = .pending ∧ record.invite = token.invite)

/-- What the last part of `bootstrap` leaves when it is not cut off. -/
theorem prepareRelay_done (hi : Installed P key i w) (hw : i.control = some w)
    (hstopped : w.process = none) (hnone : i.files.invitation = none) (hamb : amb.Offline i)
    (hcheck : config.check P = .ok (publicUrl, relayUrl)) (hload : w.database.load = .ok s)
    (h : prepareRelay P key amb config publicUrl relayUrl s w.database = .ok writes) :
    i.Left P key config writes := by
  obtain ⟨db', w', s', hw', _, hrep, ⟨hsome, rfl, rfl⟩ |
    ⟨_, token, record, rfl, hcontrolId, hexpires, hoffered, hrecord⟩⟩ :=
    prepareRelay_outcome hi hw hstopped hnone hamb hcheck hload h
  · exact ⟨w', s', hw', hrep, .inl hsome⟩
  · exact ⟨w', s', hw', hrep, .inr ⟨token, record, rfl, hcontrolId, hexpires, hoffered, hrecord⟩⟩

theorem prepareFresh_eq_ok
    (hok : (i.prepareFresh P key amb relayCaDer config publicUrl relayUrl).result = .ok ()) :
    ∃ db writes, Database.create (initialState config.audience publicUrl relayCaDer) = .ok db ∧
      prepareRelay P key amb config publicUrl relayUrl
        (initialState config.audience publicUrl relayCaDer) db = .ok writes ∧
      (i.prepareFresh P key amb relayCaDer config publicUrl relayUrl).writes =
        [.key key, .caKey, .caCert relayCaDer, .databaseFile] ++ .create db :: writes := by
  simp only [Installation.prepareFresh] at hok ⊢
  split at hok
  · cases hok
  · next hca =>
    rw [if_neg hca]
    cases hcreate : Database.create (initialState config.audience publicUrl relayCaDer) with
    | error e => simp [hcreate] at hok
    | ok db =>
      cases hprepare : prepareRelay P key amb config publicUrl relayUrl
          (initialState config.audience publicUrl relayCaDer) db with
      | error e => simp [hcreate, hprepare] at hok
      | ok writes => exact ⟨db, writes, rfl, hprepare, by simp only [hprepare]⟩

/-- What an invocation that does not find all files leaves when it returns. -/
theorem bootstrap_done (hs : i.Sound P key) (hamb : amb.Offline i)
    (hok : (i.bootstrap P key amb relayCaDer config).result = .ok ())
    (hprepared : i.prepared = false) :
    i.Left P key config (i.bootstrap P key amb relayCaDer config).writes := by
  rcases bootstrap_cases P key amb relayCaDer config i with ⟨_, hearly | ⟨e, hfails⟩⟩ |
    ⟨_, publicUrl, relayUrl, hcheck, hfiles, ⟨hdatabase, hexisting⟩ | ⟨hdatabase, hfresh⟩⟩
  · cases hprepared.symm.trans hearly
  · cases hok.symm.trans hfails
  · obtain ⟨hnone, w, s, hw, hstopped, hload, h⟩ :=
      prepareExisting_eq_ok hs hprepared hfiles hdatabase hexisting
    exact prepareRelay_done (hs.control w hw) hw hstopped hnone hamb hcheck hload h
  · rw [hfresh] at hok ⊢
    obtain ⟨db, writes, hcreate, hprepare, hwrites⟩ := prepareFresh_eq_ok hok
    have hnone := hs.blank (hs.control_none hdatabase)
    let filed := i.after [.key key, .caKey, .caCert relayCaDer, .databaseFile]
    have hcreated := Installed.created (i := filed) hcheck rfl rfl hnone hcreate
    have hoffline : amb.Offline (filed.write (.create db)) := hamb.created rfl
    have hafter : i.after ([.key key, .caKey, .caCert relayCaDer, .databaseFile] ++
        .create db :: writes) = (filed.write (.create db)).after writes := rfl
    have hdone := prepareRelay_done hcreated rfl rfl hnone hoffline hcheck (load_initialState hcreate)
      hprepare
    rw [hwrites]
    unfold Installation.Left at hdone ⊢
    rw [hafter]
    exact hdone

/-- What has been left is usable until the fresh token expires. -/
theorem Installation.Left.usable_iff (h : i.Left P key config writes)
    (hs : ((i.after writes).tick now).Sound P key)
    (hload : ((i.after writes).tick now).load = some s) (hnone : s.relays = []) :
    ((i.after writes).tick now).Usable P key ↔ now ≤ i.clock + config.relayTtlSecs := by
  obtain ⟨w, s', hw, hrep, hleft⟩ := h
  have hw' : ((i.after writes).tick now).control = some { w with clock := now } := by
    rw [Installation.tick, hw, Option.map_some]
  have hi := hs.control _ hw'
  have hsame := (hi.represents ((Installation.load_eq_some hw').1 hload)).same hrep
  rcases hleft with hsome | ⟨token, record, hfile, hcontrolId, hexpires, hoffered, hrecord, hpending,
    htoken⟩
  · exact absurd (hsame.relays.symm.trans (hnone ▸ .rfl)).eq_nil hsome
  · have hholds : w.Holds (Offered token) := .of_represents (offered_kept (P := P) token) hrep hoffered
    rw [hi.usable_iff hw' hfile hcontrolId hholds hload hnone, ← hexpires]
    constructor
    · rintro ⟨r, hr, hr', hfresh⟩
      rwa [((offered_kept (P := P) token).same hoffered hsame).only hnone r hr hr'] at hfresh
    · exact fun hfresh => ⟨record, hsame.invites.mem_iff.2 hrecord, hpending, htoken ▸ hfresh⟩

/-- `bootstrap` leaves the invitations alone once a Relay is registered. -/
theorem bootstrap_with_relay (hs : i.Sound P key) (hamb : amb.Offline i) (hload : i.load = some s)
    (hsome : s.relays ≠ []) (done : Nat) :
    ∃ s', (i.after ((i.bootstrap P key amb relayCaDer config).writes.take done)).load = some s' ∧
      s'.invites.Perm s.invites := by
  rcases bootstrap_cases P key amb relayCaDer config i with ⟨hnothing, _⟩ |
    ⟨hprepared, publicUrl, relayUrl, hcheck, hfiles, ⟨hdatabase, hexisting⟩ | ⟨hdatabase, _⟩⟩
  · rw [hnothing, List.take_nil]
    exact ⟨s, hload, .rfl⟩
  · obtain ⟨hnone, w, s₀, hw, hstopped, hloaded, h⟩ :=
      prepareExisting_eq_ok hs hprepared hfiles hdatabase hexisting
    obtain rfl : s₀ = s :=
      Except.ok.inj (hloaded.symm.trans ((Installation.load_eq_some hw).1 hload))
    have hi := hs.control w hw
    obtain ⟨db', w', s', hw', hsync, hrep, ⟨_, hwrites, rfl⟩ | ⟨hempty, _⟩⟩ :=
      prepareRelay_outcome hi hw hstopped hnone hamb hcheck hloaded h
    · rw [hwrites]
      cases done with
      | zero => exact ⟨s', hload, .rfl⟩
      | succ done =>
        obtain ⟨_, _, href⟩ :=
          (controlWhere_simulates_ledgerWhere P key Claims).reachable hi.reachable
        have hschema := (w.database.load_represents hloaded href.represents.keys).2
        obtain ⟨loaded, hloaded', hsame⟩ := hrep.load hschema
        refine ⟨loaded, ?_, hsame.invites⟩
        rw [List.take_succ_cons, List.take_nil]
        exact (Installation.load_eq_some hw').2 hloaded'
    · exact absurd hempty hsome
  · rw [Installation.load, hs.control_none hdatabase] at hload
    cases hload

/-- **`bootstrap` leaves a usable invitation** exactly when it returns in time. In every run of any
    number of invocations, each cut off anywhere, and of a Control that serves claims in between:
    when an invocation returns successfully and no Relay is registered, the invitation file holds a
    token that can be claimed if and only if the pending invitation has not expired. Once a Relay is
    registered, no invocation adds or removes an invitation. -/
theorem bootstrap_leaves_usable_invitation {relayCaDer : List UInt8}
    (hr : (installation P key config).Reachable i) (hamb : amb.Offline i) :
    (∀ now s, (i.bootstrap P key amb relayCaDer config).result = .ok () → i.clock ≤ now →
      ((i.after (i.bootstrap P key amb relayCaDer config).writes).tick now).load = some s →
      s.relays = [] →
      (((i.after (i.bootstrap P key amb relayCaDer config).writes).tick now).Usable P key ↔
        i.InTime config now)) ∧
    ∀ s, i.load = some s → s.relays ≠ [] → ∀ done, ∃ s',
      (i.after ((i.bootstrap P key amb relayCaDer config).writes.take done)).load = some s' ∧
        s'.invites.Perm s.invites := by
  have hs := Installation.sound_of_reachable hr
  refine ⟨?_, fun s hload hsome done => bootstrap_with_relay hs hamb hload hsome done⟩
  intro now s hok hlater hload hnone
  cases hprepared : i.prepared with
  | true =>
    -- the early return: nothing is written, and the file is the one that was found
    rw [Installation.InTime, hprepared, if_pos rfl]
    rw [bootstrap_writes_of_prepared hprepared] at hload ⊢
    rw [show i.after [] = i from rfl] at hload ⊢
    rw [(hs.tick hlater).usable_iff hprepared hload hnone]
    rw [Installation.tick_load] at hload
    constructor
    · exact fun hpending => ⟨s, hload, hpending⟩
    · rintro ⟨_, hload', hpending⟩
      exact Option.some.inj (hload'.symm.trans hload) ▸ hpending
  | false =>
    rw [Installation.InTime, hprepared, if_neg (by simp)]
    have hdone := (bootstrap_safe hs hamb relayCaDer config).done
    have hs' := Installation.Sound.tick hdone ((Installation.after_clock
      (i.bootstrap P key amb relayCaDer config).writes i).trans_le hlater)
    exact (bootstrap_done hs hamb hok hprepared).usable_iff hs' hload hnone

section Example

open Reference

/-- The arguments of a deployment whose Relay invitation lives for fifteen minutes. -/
def relayConfig : BootstrapConfig :=
  { publicUrl := "https://control.example", audience := "agents", relayName := "relay-a",
    relayUrl := "https://relay.example", relayTtlSecs := 900 }

/-- The surroundings of an invocation at the given time. -/
def offlineAt (now : Int) (inviteId : String) : Ambient :=
  { received := now, earlier := initialState "" "" [], clock := now, inviteToken := inviteId,
    secretToken := joinSecret, ioError := none }

/-- A host without a Control, at time zero. -/
def blankHost : Installation := ⟨0, ⟨none, false, none, false, none⟩, none⟩

/-- The host at the given time after a first invocation. -/
def bootstrappedHost (now : Int) : Installation :=
  (blankHost.after (blankHost.bootstrap (platform []) controlKey (offlineAt 0 "invite-r") relayCa
    relayConfig).writes).tick now

theorem bootstrappedHost_reachable (h : 0 ≤ now) :
    (installation (platform []) controlKey relayConfig).Reachable (bootstrappedHost now) := by
  refine ⟨blankHost, ⟨rfl, rfl⟩, .single (Installation.Step.completed ⟨le_rfl, rfl, ?_⟩ h)⟩
  exact fun w hw => absurd hw (by simp [blankHost])

/-- The host at the given time after a second invocation. -/
def reinvokedHost (now : Int) : Installation :=
  ((bootstrappedHost now).after ((bootstrappedHost now).bootstrap (platform []) controlKey
    (offlineAt now "invite-r-2") relayCa relayConfig).writes).tick now

/-- The second invocation returns successfully while no Relay is registered. -/
theorem exists_second_invocation (now : Int) (check : ControlState → Bool)
    (h : (bootstrappedHost now).control.any (fun w => decide ("invite-r-2" ∉ w.drawn)) = true ∧
      ((bootstrappedHost now).bootstrap (platform []) controlKey (offlineAt now "invite-r-2") relayCa
        relayConfig).result.toOption = some () ∧
      (reinvokedHost now).load.any (fun s => decide (s.relays = []) && check s) = true) :
    (offlineAt now "invite-r-2").Offline (bootstrappedHost now) ∧
      ((bootstrappedHost now).bootstrap (platform []) controlKey (offlineAt now "invite-r-2") relayCa
        relayConfig).result = .ok () ∧
      ∃ s, (reinvokedHost now).load = some s ∧ s.relays = [] ∧ check s = true := by
  obtain ⟨hfresh, hok, hload⟩ := h
  obtain ⟨s, hload, hcheck⟩ := (Option.any_eq_true _ _).1 hload
  obtain ⟨hnone, hcheck⟩ := Bool.and_eq_true_iff.1 hcheck
  refine ⟨⟨le_rfl, rfl, fun w hw => ?_⟩, toOption_eq_some.1 hok, s, hload, of_decide_eq_true hnone,
    hcheck⟩
  obtain ⟨w', hw', hfresh⟩ := (Option.any_eq_true _ _).1 hfresh
  cases hw.symm.trans hw'
  exact of_decide_eq_true hfresh

/-- Ten minutes later the invitation is still usable. -/
theorem second_bootstrap_leaves_usable_invitation : ∃ s,
    (installation (platform []) controlKey relayConfig).Reachable (bootstrappedHost 600) ∧
      ((bootstrappedHost 600).bootstrap (platform []) controlKey (offlineAt 600 "invite-r-2") relayCa
        relayConfig).result = .ok () ∧
      (reinvokedHost 600).load = some s ∧ s.relays = [] ∧
      (reinvokedHost 600).Usable (platform []) controlKey := by
  obtain ⟨hamb, hok, s, hload, hnone, hcheck⟩ := exists_second_invocation 600
    (fun s => s.invites.any (fun r => decide (r.state = .pending ∧ 600 ≤ r.invite.expiresAt)))
    (by decide +kernel)
  have hr := bootstrappedHost_reachable (show (0 : Int) ≤ 600 by decide)
  refine ⟨s, hr, hok, hload, hnone, ?_⟩
  refine ((bootstrap_leaves_usable_invitation hr hamb).1 600 s hok le_rfl hload hnone).2 ?_
  obtain ⟨record, hrecord, hcheck⟩ := List.any_eq_true.1 hcheck
  have hprepared : (bootstrappedHost 600).prepared = true := by decide +kernel
  rw [reinvokedHost, bootstrap_writes_of_prepared hprepared, Installation.tick_load] at hload
  rw [Installation.InTime, if_pos hprepared]
  exact ⟨s, hload, record, hrecord, of_decide_eq_true hcheck⟩

/-- Half an hour later the second invocation still returns successfully, and the invitation has
    expired. -/
theorem bootstrap_after_expiry_leaves_expired_invitation : ∃ s,
    (installation (platform []) controlKey relayConfig).Reachable (bootstrappedHost 1800) ∧
      (offlineAt 1800 "invite-r-2").Offline (bootstrappedHost 1800) ∧
      ((bootstrappedHost 1800).bootstrap (platform []) controlKey (offlineAt 1800 "invite-r-2") relayCa
        relayConfig).result = .ok () ∧
      (reinvokedHost 1800).load = some s ∧ s.relays = [] ∧
      ¬ (reinvokedHost 1800).Usable (platform []) controlKey := by
  obtain ⟨hamb, hok, s, hload, hnone, hcheck⟩ := exists_second_invocation 1800
    (fun s => s.invites.all (fun r => decide (r.invite.expiresAt < 1800))) (by decide +kernel)
  refine ⟨s, bootstrappedHost_reachable (by decide), hamb, hok, hload, hnone, ?_⟩
  rintro ⟨token, s', record, _, hload', hrecord, _, htoken, hfresh, _⟩
  cases hload.symm.trans hload'
  have hexpired := of_decide_eq_true (List.all_eq_true.1 hcheck record hrecord)
  rw [htoken] at hexpired
  exact absurd hfresh (not_le.2 hexpired)

end Example

end AgentScale.Control
