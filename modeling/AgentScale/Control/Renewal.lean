import AgentScale.Control.Invitations

set_option autoImplicit false

/-! # The credential a watch hands out

A watch takes the state lock up to three times: to see whether the credential is due for renewal, to
renew it, and, after it has waited, to sign the map. In between anything may happen. The renewal looks
at the Client record of the endpoint first and the map at its Edge record, so what holds of the record
that was renewed holds of the one in the map only when there is just one of them
(`watch_credential_is_fresh`). -/

namespace AgentScale.Control

open Checked ControlApi RelayApi

variable {P : Platform} {key : SecretKey} {amb : Ambient} {s s' : ControlState} {delta : StateDelta}

/-- Claims are served before the credential they create would be due for renewal. -/
def ServedSoon (amb : Ambient) (_ : ControlState) : Operation P → Prop
  | .claim _ => amb.clock < amb.received +
      (RELAY_CREDENTIAL_LIFETIME_SECS - RELAY_CREDENTIAL_RENEW_BEFORE_SECS)
  | _ => True

instance (amb : Ambient) (s : ControlState) (op : Operation P) : Decidable (ServedSoon amb s op) := by
  unfold ServedSoon
  split <;> infer_instance

/-- What is asked for when claims are served soon. -/
def Demand.soon (amb : Ambient) : Demand :=
  ⟨fun _ => True, fun _ => amb.clock < amb.received +
    (RELAY_CREDENTIAL_LIFETIME_SECS - RELAY_CREDENTIAL_RENEW_BEFORE_SECS), fun _ _ => True, True⟩

theorem ServedSoon.within {op : Operation P} (h : ServedSoon amb s op) : op.Within s (.soon amb) where
  removes := fun _ _ => trivial
  enrols := by
    rintro request rfl
    exact h
  moves := fun _ _ => trivial
  invites := fun _ => trivial

/-- The endpoint is not registered as a Client and as an Edge at once. -/
def SingleRole (s : ControlState) (id : String) : Prop :=
  ∀ client ∈ s.clients, ∀ edge ∈ s.edges, client.endpointId = id → edge.endpointId ≠ id

/-- Every registration of the endpoint outlives the time `bound`. -/
def Outlives (bound : Int) (id : String) (s : ControlState) : Prop :=
  ∀ r ∈ s.registrations, r.endpointId = id → bound < r.expiresAt

/-! ## Fresh credentials stay fresh -/

variable {t : Int} {id : String}

/-- A credential issued soon enough after `t` is not due for renewal at `t`. -/
theorem lt_issued {issued : Int} (hissued : t < issued +
      (RELAY_CREDENTIAL_LIFETIME_SECS - RELAY_CREDENTIAL_RENEW_BEFORE_SECS))
    (hrange : t + RELAY_CREDENTIAL_RENEW_BEFORE_SECS < I64.maxValue) :
    t + RELAY_CREDENTIAL_RENEW_BEFORE_SECS <
      I64.saturatingAdd issued RELAY_CREDENTIAL_LIFETIME_SECS :=
  lt_of_lt_of_le (lt_min (by omega) hrange) (le_max_right _ _)

/-- What is not due for renewal at `t` outlives the renewal period. -/
theorem le_renewAt (hrange : t + RELAY_CREDENTIAL_RENEW_BEFORE_SECS < I64.maxValue) :
    t + RELAY_CREDENTIAL_RENEW_BEFORE_SECS ≤ renewAt t :=
  le_max_of_le_right (le_min le_rfl hrange.le)

/-- **One commit.** -/
theorem Outlives.step (h : Outlives (t + RELAY_CREDENTIAL_RENEW_BEFORE_SECS) id s) (hk : s.Keyed)
    (hclock : t ≤ amb.clock) (hrange : t + RELAY_CREDENTIAL_RENEW_BEFORE_SECS < I64.maxValue)
    (hm : Mutation P (.soon amb) amb s delta) :
    Outlives (t + RELAY_CREDENTIAL_RENEW_BEFORE_SECS) id (delta.commit s) := by
  intro r hr hid
  rcases hm.registration_cases hk hr with ⟨old, hold, hold', hle⟩ | ⟨⟨_, hsoon⟩, hexpires⟩
  · exact (h old hold (hold'.trans hid)).trans_le hle
  · rw [hexpires]
    exact lt_issued (hclock.trans_lt hsoon) hrange

/-- **Every run** in which claims are served soon. -/
theorem Ledger.outlives_of_steps {l l' : Ledger} (hl : (ledgerWhere P key ServedSoon).Reachable l)
    (hsteps : (ledgerWhere P key ServedSoon).Steps l l') (hclock : t ≤ l.clock)
    (hrange : t + RELAY_CREDENTIAL_RENEW_BEFORE_SECS < I64.maxValue)
    (h : Outlives (t + RELAY_CREDENTIAL_RENEW_BEFORE_SECS) id l.state) :
    t ≤ l'.clock ∧ Outlives (t + RELAY_CREDENTIAL_RENEW_BEFORE_SECS) id l'.state := by
  refine hsteps.preserves (P := fun l' => t ≤ l'.clock ∧
    Outlives (t + RELAY_CREDENTIAL_RENEW_BEFORE_SECS) id l'.state) hl ?_ ⟨hclock, h⟩
  intro a b ha hfresh hstep
  obtain ⟨hclock, hfresh⟩ := hfresh
  cases hstep with
  | tick now later => exact ⟨hclock.trans later, hfresh⟩
  | draw | issue => exact ⟨hclock, hfresh⟩
  | reorder s same =>
    exact ⟨hclock, fun r hr => hfresh r ((same.mem_registrations r).1 hr)⟩
  | commit amb delta tokens enrolled received clock draws decision =>
    exact ⟨hclock, hfresh.step (Ledger.wellFormed_of_reachable ha).keyed (clock ▸ hclock) hrange
      (decision.mutation (fun op allows => allows.within) trivial)⟩

/-! ## What the renewal leaves behind -/

/-- The expiry the renewal looks at, when there is only one registration. -/
theorem outlives_of_expiry {bound expiresAt : Int} (hk : s.Keyed) (hsingle : SingleRole s id)
    (hexpiry : credentialExpiry s id = some expiresAt) (hlt : bound < expiresAt) :
    Outlives bound id s := by
  intro r hr hid
  unfold credentialExpiry at hexpiry
  rcases mem_registrations.1 hr with ⟨client, hclient, rfl⟩ | ⟨edge, hedge, rfl⟩
  · rw [(Keyed.lookup_eq_some hk.clients).2 ⟨hclient, hid⟩] at hexpiry
    cases hexpiry
    exact hlt
  · have hnone : Keyed.lookup ClientRecord.endpointId id s.clients = none :=
      Keyed.lookup_eq_none.2 (fun client hclient heq => hsingle client hclient edge hedge heq hid)
    rw [hnone, (Keyed.lookup_eq_some hk.edges).2 ⟨hedge, hid⟩] at hexpiry
    cases hexpiry
    exact hlt

variable {endpoint : EndpointId P}

/-- An endpoint without a Client and an Edge record is no node. -/
theorem node_exists_of_lookups
    (hclient : Keyed.lookup ClientRecord.endpointId endpoint.text s.clients = none)
    (hedge : Keyed.lookup EdgeRecord.endpointId endpoint.text s.edges = none) {u : Unit} :
    anyhowNodeExists P s endpoint ≠ .ok u := by
  intro h
  rcases ensure_eq_ok.1 h with h | h <;> obtain ⟨record, hmem, hid⟩ := List.any_eq_true.1 h
  · exact Keyed.lookup_eq_none.1 hclient record hmem (of_decide_eq_true hid)
  · exact Keyed.lookup_eq_none.1 hedge record hmem (of_decide_eq_true hid)

/-- The second critical section of a renewal finds a credential that is not due, or replaces it. -/
theorem renewal_outlives (hk : s.Keyed) (hsingle : SingleRole s endpoint.text)
    (hrange : t + RELAY_CREDENTIAL_RENEW_BEFORE_SECS < I64.maxValue) {plan : Plan Bool}
    (h : renewRelayCredential P t endpoint s = .ok plan) :
    (plan = .reply false ∧ Outlives (t + RELAY_CREDENTIAL_RENEW_BEFORE_SECS) endpoint.text s) ∨
      ∃ delta, plan = .commit delta (fun _ => .ok true) ∧
        Outlives (t + RELAY_CREDENTIAL_RENEW_BEFORE_SECS) endpoint.text (delta.commit s) := by
  have hissued : t + RELAY_CREDENTIAL_RENEW_BEFORE_SECS <
      I64.saturatingAdd t RELAY_CREDENTIAL_LIFETIME_SECS := by
    refine lt_issued ?_ hrange
    unfold RELAY_CREDENTIAL_LIFETIME_SECS RELAY_CREDENTIAL_RENEW_BEFORE_SECS
    omega
  unfold renewRelayCredential at h
  split at h
  · next record hrecord =>
    split at h
    · next hlate =>
      refine .inl ⟨(Except.ok.inj h).symm, outlives_of_expiry hk hsingle ?_
        ((le_renewAt hrange).trans_lt hlate)⟩
      simp [credentialExpiry, hrecord]
    · refine .inr ⟨_, (Except.ok.inj h).symm, fun r hr hid => ?_⟩
      obtain ⟨hmem, hrecordId⟩ := Keyed.mem_of_lookup hrecord
      have hreplaced : r = (record.renew t).registration ∨
          (r ∈ s.registrations ∧ r ≠ record.registration) :=
        (mem_registrations_replaceClient hk hmem (by rfl) (by rfl) (by rfl) r).1 hr
      rcases hreplaced with rfl | ⟨hold, hne⟩
      · exact hissued
      · rcases mem_registrations.1 hold with ⟨client, hclient, rfl⟩ | ⟨edge, hedge, rfl⟩
        · exact absurd (hid.trans hrecordId.symm) ((client_registration_ne_iff hk hmem hclient).1 hne)
        · exact absurd hid (hsingle record hmem edge hedge hrecordId)
  · next hnoClient =>
    split at h
    · next record hrecord =>
      split at h
      · next hlate =>
        refine .inl ⟨(Except.ok.inj h).symm, outlives_of_expiry hk hsingle ?_
          ((le_renewAt hrange).trans_lt hlate)⟩
        simp [credentialExpiry, hnoClient, hrecord]
      · refine .inr ⟨_, (Except.ok.inj h).symm, fun r hr hid => ?_⟩
        obtain ⟨hmem, hrecordId⟩ := Keyed.mem_of_lookup hrecord
        have hreplaced : r = (record.renew t).registration ∨
            (r ∈ s.registrations ∧ r ≠ record.registration) :=
          (mem_registrations_replaceEdge hk hmem (by rfl) (by rfl) (by rfl) r).1 hr
        rcases hreplaced with rfl | ⟨hold, hne⟩
        · exact hissued
        · rcases mem_registrations.1 hold with ⟨client, hclient, rfl⟩ | ⟨edge, hedge, rfl⟩
          · exact absurd hid (Keyed.lookup_eq_none.1 hnoClient client hclient)
          · exact absurd (hid.trans hrecordId.symm)
              ((edge_registration_ne_iff hk hmem hedge).1 hne)
    · next hnoEdge =>
      obtain ⟨_, hexists, _⟩ := of_bind h
      exact absurd hexists (node_exists_of_lookups hnoClient hnoEdge)

variable {request : WatchRequest}

/-- A renewal that is over leaves a credential that is not due, where it has looked last: in the state
    it has read first when nothing was due there, or in the state it has served in or left behind. -/
theorem watchRenewal_outlives (hverify : request.verify P = .ok endpoint) (hk₀ : amb.earlier.Keyed)
    (hk : s.Keyed) (hsingle₀ : SingleRole amb.earlier endpoint.text)
    (hsingle : SingleRole s endpoint.text)
    (hrange : amb.received + RELAY_CREDENTIAL_RENEW_BEFORE_SECS < I64.maxValue) {plan : Plan Bool}
    (h : watchRenewal P amb request s = .ok plan) :
    Outlives (amb.received + RELAY_CREDENTIAL_RENEW_BEFORE_SECS) endpoint.text amb.earlier ∨
      Outlives (amb.received + RELAY_CREDENTIAL_RENEW_BEFORE_SECS) endpoint.text s ∨
      ∃ delta, plan = .commit delta (fun _ => .ok true) ∧
        Outlives (amb.received + RELAY_CREDENTIAL_RENEW_BEFORE_SECS) endpoint.text
          (delta.commit s) := by
  obtain ⟨endpoint', hverify', h⟩ := of_bind h
  cases (mapError_eq_ok.1 hverify').symm.trans hverify
  obtain ⟨_, _, h⟩ := of_bind h
  obtain ⟨due, hdue, h⟩ := of_bind h
  cases due with
  | true =>
    rcases renewal_outlives hk hsingle hrange h with ⟨_, hfresh⟩ | hcommit
    · exact .inr (.inl hfresh)
    · exact .inr (.inr hcommit)
  | false =>
    refine .inl ?_
    unfold renewalDue at hdue
    split at hdue
    · next hnone =>
      obtain ⟨hclient, hedge⟩ := Option.or_eq_none_iff.1 hnone
      obtain ⟨_, hexists, _⟩ := of_bind hdue
      exact absurd hexists (node_exists_of_lookups (Option.map_eq_none_iff.1 hclient)
        (Option.map_eq_none_iff.1 hedge))
    · next expiresAt hexpiry =>
      have hlate := of_decide_eq_false (Except.ok.inj hdue)
      exact outlives_of_expiry hk₀ hsingle₀ hexpiry
        ((le_renewAt hrange).trans_lt (not_le.1 hlate))

variable {signed : SignedNodeMap}

/-- The credential in a map outlives what every registration of the recipient outlives. -/
theorem signedMap_outlives {bound now : Int} {recipient : EndpointId P}
    (h : Outlives bound recipient.text s) (hsigned : signedMap P s key now recipient = .ok signed) :
    signed.map.relayCredential = (issuedCredential P key s signed.map).map (fun c =>
        P.encodeRelayCredential ⟨c, P.sign key (canonicalBytes CREDENTIAL_DOMAIN c)⟩) ∧
      ∀ c, issuedCredential P key s signed.map = some c →
        c.endpointId = recipient.text ∧ bound < c.expiresAt := by
  obtain ⟨role, token, hrole, htoken, hmap⟩ := signedMap_eq_ok hsigned
  have hissued : issuedCredential P key s signed.map = role.credential P s key recipient := by
    have hrecipient : signed.map.recipientId = recipient.text := by rw [hmap]; rfl
    unfold issuedCredential
    rw [hrecipient, parseEndpointId_text]
    simp [hrole]
  rw [hissued]
  refine ⟨?_, fun c hc => ?_⟩
  · rw [hmap]
    exact signCredential_eq_ok htoken
  · cases role with
    | edge edge =>
      obtain ⟨hmem, hid⟩ := roleOf_edge hrole
      cases hc
      exact ⟨rfl, h _ (mem_registrations.2 (.inr ⟨edge, hmem, rfl⟩)) hid⟩
    | client client =>
      obtain ⟨hmem, hid⟩ := roleOf_client hrole
      cases hc
      exact ⟨rfl, h _ (mem_registrations.2 (.inl ⟨client, hmem, rfl⟩)) hid⟩
    | relay => exact absurd hc (by simp [Role.credential])

/-! ## Watches -/

/-- What a run makes of registrations that are fresh in some world. -/
theorem World.outlives_of_steps {w w' : World} (hr : (controlWhere P key ServedSoon).Reachable w)
    (hrun : w.process = some s) (hclock : t ≤ w.clock)
    (hsteps : (controlWhere P key ServedSoon).Steps w w') (hrun' : w'.process = some s')
    (hrange : t + RELAY_CREDENTIAL_RENEW_BEFORE_SECS < I64.maxValue)
    (h : Outlives (t + RELAY_CREDENTIAL_RENEW_BEFORE_SECS) id s) :
    Outlives (t + RELAY_CREDENTIAL_RENEW_BEFORE_SECS) id s' := by
  have hsim := controlWhere_simulates_ledgerWhere P key ServedSoon
  obtain ⟨l, hl, href⟩ := hsim.reachable hr
  obtain ⟨l', hsteps', href'⟩ := hsim.steps hr hl href hsteps
  obtain rfl := href.process s hrun
  obtain rfl := href'.process s' hrun'
  exact (Ledger.outlives_of_steps hl hsteps' (href.clock ▸ hclock) hrange h).2

/-- A renewal that is answered has been decided on, and if it commits it has been committed. -/
theorem World.renewal_plan {w : World} {l : Ledger} (href : Refines w l) (hrun : w.process = some s)
    {renewed : Bool}
    (h : (w.operate P key amb (.watchRenewal request) s).1 = .ok (.renewed renewed)) :
    ∃ plan, watchRenewal P amb request s = .ok plan ∧ ∀ delta respond, plan = .commit delta respond →
      (w.operate P key amb (.watchRenewal request) s).2.process = some (delta.commit s) := by
  rcases World.operate_ok href hrun h with ⟨hreply, _⟩ | ⟨delta, respond, hcommit, hprocess, _⟩
  · obtain ⟨value, hvalue, _⟩ := map_eq_reply hreply
    exact ⟨_, hvalue, fun delta respond heq => absurd heq (by simp)⟩
  · obtain ⟨respond', hrespond', _⟩ := map_eq_commit hcommit
    refine ⟨_, hrespond', fun delta' respond'' heq => ?_⟩
    rw [(Plan.commit.inj heq).1] at hprocess
    exact hprocess

/-- A watch that is answered with a map has signed it for its endpoint. -/
theorem World.watch_signed {w : World} {l : Ledger} (href : Refines w l) (hrun : w.process = some s)
    {renewed : Bool} (hverify : request.verify P = .ok endpoint)
    (h : (w.operate P key amb (.watch request renewed) s).1 = .ok (.map signed)) :
    signedMap P s key amb.clock endpoint = .ok signed := by
  rcases World.operate_ok href hrun h with ⟨hreply, _⟩ | ⟨_, _, hcommit, _⟩
  · obtain ⟨value, hwatch, hvalue⟩ := map_eq_ok hreply
    cases value with
    | none => exact absurd (Plan.reply.inj hvalue) (by simp)
    | some signed' =>
      obtain rfl := Response.map.inj (Plan.reply.inj hvalue)
      obtain ⟨recipient, hrecipient, hsigned⟩ := watch_eq_ok hwatch
      cases hrecipient.symm.trans hverify
      exact hsigned
  · obtain ⟨_, _, hcommit⟩ := map_eq_ok hcommit
    cases hcommit

/-- **A watch hands out a fresh credential.** A watch looks at the state, renews the credential if that
    is due, waits, and signs a map. Whatever happens in between, as long as claims are served within
    five days, the credential in the map is not due for renewal at the time the watch was received,
    provided that its endpoint had a single role when the renewal looked at it and that the clock is
    not about to end. -/
theorem watch_credential_is_fresh {w₀ w₁ w₂ : World} {s₀ s₁ s₂ : ControlState} {amb₁ amb₂ : Ambient}
    {request : WatchRequest} {endpoint : EndpointId P} {renewed : Bool} {signed : SignedNodeMap}
    (hr : (controlWhere P key ServedSoon).Reachable w₀) (hrun₀ : w₀.process = some s₀)
    (hstart : amb₁.received ≤ w₀.clock)
    (h₀₁ : (controlWhere P key ServedSoon).Steps w₀ w₁) (hrun₁ : w₁.process = some s₁)
    (hamb₁ : amb₁.Admissible w₁) (hread : amb₁.earlier = s₀)
    (hrenewal : (w₁.operate P key amb₁ (.watchRenewal request) s₁).1 = .ok (.renewed renewed))
    (h₁₂ : (controlWhere P key ServedSoon).Steps
      (w₁.operate P key amb₁ (.watchRenewal request) s₁).2 w₂) (hrun₂ : w₂.process = some s₂)
    (hanswer : (w₂.operate P key amb₂ (.watch request renewed) s₂).1 = .ok (.map signed))
    (hverify : request.verify P = .ok endpoint) (hsingle₀ : SingleRole s₀ endpoint.text)
    (hsingle₁ : SingleRole s₁ endpoint.text)
    (hrange : amb₁.received + RELAY_CREDENTIAL_RENEW_BEFORE_SECS < I64.maxValue) :
    signed.map.relayCredential = (issuedCredential P key s₂ signed.map).map (fun c =>
        P.encodeRelayCredential ⟨c, P.sign key (canonicalBytes CREDENTIAL_DOMAIN c)⟩) ∧
      ∀ c, issuedCredential P key s₂ signed.map = some c → c.endpointId = endpoint.text ∧
        amb₁.received + RELAY_CREDENTIAL_RENEW_BEFORE_SECS < c.expiresAt := by
  have hsim := controlWhere_simulates_ledgerWhere P key ServedSoon
  have hstep : World.Step P key ServedSoon w₁ (w₁.operate P key amb₁ (.watchRenewal request) s₁).2 :=
    .operate w₁ amb₁ (.watchRenewal request) s₁ hrun₁ hamb₁ trivial
  have hr₁ := hr.steps h₀₁
  obtain ⟨l₀, hl₀, href₀⟩ := hsim.reachable hr
  obtain ⟨l₁, hl₁, href₁⟩ := hsim.reachable hr₁
  obtain ⟨l₂, _, href₂⟩ := hsim.reachable ((hr₁.step hstep).steps h₁₂)
  have hk₀ := (href₀.process s₀ hrun₀) ▸ (Ledger.wellFormed_of_reachable hl₀).keyed
  have hk₁ := (href₁.process s₁ hrun₁) ▸ (Ledger.wellFormed_of_reachable hl₁).keyed
  subst hread
  obtain ⟨plan, hplan, hcommitted⟩ := World.renewal_plan href₁ hrun₁ hrenewal
  have hfresh : Outlives (amb₁.received + RELAY_CREDENTIAL_RENEW_BEFORE_SECS) endpoint.text s₂ := by
    rcases watchRenewal_outlives hverify hk₀ hk₁ hsingle₀ hsingle₁ hrange hplan with
      hfresh | hfresh | ⟨delta, hcommit, hfresh⟩
    · exact World.outlives_of_steps hr hrun₀ hstart ((h₀₁.tail hstep).trans h₁₂) hrun₂ hrange hfresh
    · exact World.outlives_of_steps hr₁ hrun₁ hamb₁.received (.head hstep h₁₂) hrun₂ hrange hfresh
    · exact World.outlives_of_steps (hr₁.step hstep) (hcommitted delta _ hcommit) hamb₁.received h₁₂
        hrun₂ hrange hfresh
  exact signedMap_outlives hfresh (World.watch_signed href₂ hrun₂ hverify hanswer)

section Example

open Reference

/-- The watch of the node is received at the given time. -/
def World.renews (w : World) (s : ControlState) (node : SecretKey) (now : Int) :
    Except ApiError Response × World :=
  w.operate (platform []) controlKey (w.ambient s "renewal")
    (.watchRenewal (watchRequest (platform []) node now 0)) s

/-- The map that answers the watch. -/
def World.watches (w : World) (s : ControlState) (node : SecretKey) (now : Int) :
    Except ApiError Response :=
  (w.operate (platform []) controlKey (w.ambient s "watch")
    (.watch (watchRequest (platform []) node now 0) true) s).1

def answeredMap : Except ApiError Response → Option SignedNodeMap
  | .ok (.map signed) => some signed
  | _ => none

theorem answeredMap_eq_some {answer : Except ApiError Response}
    (h : answeredMap answer = some signed) : answer = .ok (.map signed) := by
  unfold answeredMap at h
  split at h
  · rw [Option.some.inj h]
  · cases h

/-- Some nodes have enrolled at the start, and five days later one of them watches. -/
theorem exists_watch (events : List (Event (platform []))) (check : ControlState → RelayCredential → Bool)
    (h : (World.after controlKey ServedSoon (events ++ [.tick 500000])).any (fun w =>
      w.process.any (fun s => "renewal" ∉ w.drawn ∧ w.clock = 500000 ∧
        (w.renews s nodeKey 500000).1 = .ok (.renewed true) ∧
        (w.renews s nodeKey 500000).2.process.any (fun s₂ =>
          (answeredMap ((w.renews s nodeKey 500000).2.watches s₂ nodeKey 500000)).any (fun signed =>
            (issuedCredential (platform []) controlKey s₂ signed.map).any (check s))) = true)) =
      true) :
    ∃ w s s₂ signed c, (controlWhere (platform []) controlKey ServedSoon).Reachable w ∧
      w.process = some s ∧ (w.ambient s "renewal").Admissible w ∧ w.clock = 500000 ∧
      (w.renews s nodeKey 500000).1 = .ok (.renewed true) ∧
      (w.renews s nodeKey 500000).2.process = some s₂ ∧
      (w.renews s nodeKey 500000).2.watches s₂ nodeKey 500000 = .ok (.map signed) ∧
      issuedCredential (platform []) controlKey s₂ signed.map = some c ∧ check s c = true := by
  obtain ⟨w, hr, hcheck⟩ := World.exists_after controlKey ServedSoon _ _ h
  obtain ⟨s, hs, hcheck⟩ := (Option.any_eq_true _ _).1 hcheck
  obtain ⟨hfresh, hclock, hrenewed, hcheck⟩ := of_decide_eq_true hcheck
  obtain ⟨s₂, hs₂, hcheck⟩ := (Option.any_eq_true _ _).1 hcheck
  obtain ⟨signed, hsigned, hcheck⟩ := (Option.any_eq_true _ _).1 hcheck
  obtain ⟨c, hc, hcheck⟩ := (Option.any_eq_true _ _).1 hcheck
  exact ⟨w, s, s₂, signed, c, hr, hs, World.ambient_admissible hr hs hfresh, hclock, hrenewed, hs₂,
    answeredMap_eq_some hsigned, hc, hcheck⟩

/-- A client that watches after five days gets a renewed credential. -/
theorem client_watch_is_fresh : ∃ w s s₂ signed c,
    (controlWhere (platform []) controlKey ServedSoon).Reachable w ∧ w.process = some s ∧
      (w.renews s nodeKey 500000).1 = .ok (.renewed true) ∧
      (w.renews s nodeKey 500000).2.process = some s₂ ∧
      (w.renews s nodeKey 500000).2.watches s₂ nodeKey 500000 = .ok (.map signed) ∧
      issuedCredential (platform []) controlKey s₂ signed.map = some c ∧
      500000 + RELAY_CREDENTIAL_RENEW_BEFORE_SECS < c.expiresAt := by
  obtain ⟨w, s, s₂, signed, c, hr, hs, hamb, hclock, hrenewed, hs₂, hsigned, hc, hcheck⟩ :=
    exists_watch (enrolClient (platform []) controlKey nodeKey) (fun s _ => s.edges.isEmpty)
      (by decide +kernel)
  have hsingle : SingleRole s (nodeKey.public (platform [])).text := by
    intro _ _ edge hedge
    rw [List.isEmpty_iff.1 hcheck] at hedge
    exact absurd hedge List.not_mem_nil
  have hverify : (watchRequest (platform []) nodeKey 500000 0).verify (platform []) =
      .ok (nodeKey.public (platform [])) := by decide +kernel
  have hrange : (w.ambient s "renewal").received + RELAY_CREDENTIAL_RENEW_BEFORE_SECS <
      I64.maxValue := by
    have hreceived : (w.ambient s "renewal").received = 500000 := hclock
    rw [hreceived]
    decide
  have hfresh := ((watch_credential_is_fresh hr hs le_rfl .refl hs hamb rfl hrenewed .refl hs₂ hsigned
    hverify hsingle hsingle hrange).2 c hc).2
  exact ⟨w, s, s₂, signed, c, hr, hs, hrenewed, hs₂, hsigned, hc, hclock ▸ hfresh⟩

/-- An endpoint that is a Client and an Edge has its Client credential renewed and is handed its Edge
    credential, which is due. -/
theorem watch_of_two_roles_is_stale : ∃ w s s₂ signed c,
    (controlWhere (platform []) controlKey ServedSoon).Reachable w ∧ w.process = some s ∧
      (w.ambient s "renewal").Admissible w ∧ (w.ambient s "renewal").received = 500000 ∧
      (w.renews s nodeKey 500000).1 = .ok (.renewed true) ∧
      (w.renews s nodeKey 500000).2.process = some s₂ ∧
      (w.renews s nodeKey 500000).2.watches s₂ nodeKey 500000 = .ok (.map signed) ∧
      issuedCredential (platform []) controlKey s₂ signed.map = some c ∧
      c.expiresAt ≤ 500000 + RELAY_CREDENTIAL_RENEW_BEFORE_SECS := by
  obtain ⟨w, s, s₂, signed, c, hr, hs, hamb, hclock, hrenewed, hs₂, hsigned, hc, hcheck⟩ :=
    exists_watch (enrolEdge (platform []) controlKey nodeKey nodeKey)
      (fun _ c => c.expiresAt ≤ 500000 + RELAY_CREDENTIAL_RENEW_BEFORE_SECS) (by decide +kernel)
  exact ⟨w, s, s₂, signed, c, hr, hs, hamb, hclock, hrenewed, hs₂, hsigned, hc,
    of_decide_eq_true hcheck⟩

end Example

end AgentScale.Control
