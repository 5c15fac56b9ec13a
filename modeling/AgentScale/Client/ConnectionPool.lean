import AgentScale.Api.Reference
import AgentScale.Client.Daemon

set_option autoImplicit false

/-! # The connection pool

A connection that `get_conn` has returned is either closed or the one in the pool, and the pool has no
open connection to an id that the configuration does not give the edge. The reload evicts under the lock
of the edge set, and a finished dial is checked and published under the same lock. While a dial is under
way its lock keeps every other call from putting a second connection beside it. -/

namespace AgentScale.Client

open Checked Transition

variable {P : Platform}

namespace Daemon

/-- No open connection of the edge is in the pool. -/
def Clear (s : Daemon P) (name : String) : Prop := ∀ c, (name, c) ∈ s.conns → s.isOpen c = false

/-- What holds of a call where it stands. -/
structure CallSound (s : Daemon P) (i : Nat) (call : Call P) : Prop where
  clear : ∀ name, call.dials = some name → s.Clear name
  dialled : ∀ id c, call.dialled = some (id, c) → s.remote c = some id
  checked : ∀ edge id c, call = .checked edge id c →
    s.holder = some (.call i) ∧ endpointOf P s.edges edge.name = some id
  done : ∀ edge c, call = .done edge (.ok c) →
    (s.links c).isSome = true ∧ (s.isOpen c = true → (edge.name, c) ∈ s.conns)

/-- No two calls have locked the dial of one edge. -/
def Exclusive (calls : Nat → Call P) : Prop :=
  ∀ i j name, (calls i).dialLock = some name → (calls j).dialLock = some name → i = j

structure Sound (s : Daemon P) : Prop where
  distinct : Keyed.Distinct Prod.fst s.conns
  known : ∀ name c, (name, c) ∈ s.conns → (s.links c).isSome = true
  configured : ∀ name c, (name, c) ∈ s.conns → s.isOpen c = true →
    endpointOf P s.edges name = s.remote c
  calls : ∀ i, s.CallSound i (s.calls i)
  exclusive : Exclusive s.calls
  reloading : ∀ r new, s.reloads r = .locked new → s.holder = some (.reload r)

variable {s t : Daemon P} {i c : Nat} {call : Call P}

/-! ## Calls -/

theorem isSome_links_of_remote {id : EndpointId P} (h : s.remote c = some id) :
    (s.links c).isSome = true := by
  simpa [remote] using congrArg Option.isSome h

theorem Exclusive.update {calls : Nat → Call P} (h : Exclusive calls)
    (hcall : ∀ name, call.dialLock = some name → ∀ j, j ≠ i → (calls j).dialLock ≠ some name) :
    Exclusive (Function.update calls i call) := by
  intro j k name hj hk
  rcases eq_or_ne j i with rfl | hji <;> rcases eq_or_ne k j with rfl | hkj
  · rfl
  · rw [Function.update_self] at hj
    rw [Function.update_of_ne hkj] at hk
    exact absurd hk (hcall name hj k hkj)
  · rfl
  · rw [Function.update_of_ne hji] at hj
    rcases eq_or_ne k i with rfl | hki
    · rw [Function.update_self] at hk
      exact absurd hj (hcall name hk j hji)
    · rw [Function.update_of_ne hki] at hk
      exact h j k name hj hk

/-- A call that keeps the lock it has, or that has none, takes nobody's lock. -/
theorem Exclusive.unshared {calls : Nat → Call P} (h : Exclusive calls)
    (hlock : call.dialLock = none ∨ call.dialLock = (calls i).dialLock) :
    ∀ name, call.dialLock = some name → ∀ j, j ≠ i → (calls j).dialLock ≠ some name := by
  intro name hname j hji hj
  rcases hlock with hnone | hsame
  · simp [hnone] at hname
  · exact hji (h j i name hj (hsame ▸ hname))

/-- A call that has not dialled and has returned nothing. -/
theorem CallSound.of_unconnected (hdials : call.dials = none) (hdialled : call.dialled = none)
    (hdone : ∀ edge c, call ≠ .done edge (.ok c)) : s.CallSound i call := by
  refine ⟨by simp [hdials], by simp [hdialled], ?_, fun edge c h => absurd h (hdone edge c)⟩
  rintro edge id c rfl
  cases hdialled

theorem Sound.setCall (hs : s.Sound) (hcall : s.CallSound i call)
    (hlock : ∀ name, call.dialLock = some name → ∀ j, j ≠ i → (s.calls j).dialLock ≠ some name) :
    (s.setCall i call).Sound where
  __ := hs
  calls := (Function.forall_update_iff s.calls (fun j call => (s.setCall i _).CallSound j call)).2
    ⟨⟨hcall.clear, hcall.dialled, hcall.checked, hcall.done⟩,
      fun j _ => ⟨(hs.calls j).clear, (hs.calls j).dialled, (hs.calls j).checked, (hs.calls j).done⟩⟩
  exclusive := hs.exclusive.update hlock

/-- The same for a call that takes no new lock. -/
theorem Sound.moveCall (hs : s.Sound) (hcall : s.CallSound i call)
    (hlock : call.dialLock = none ∨ call.dialLock = (s.calls i).dialLock) :
    (s.setCall i call).Sound :=
  hs.setCall hcall (hs.exclusive.unshared hlock)

/-- A call that ends without a connection. -/
theorem Sound.fail (hs : s.Sound) (edge : EdgeCfg) (error : String) :
    (s.setCall i (.done edge (.error error))).Sound :=
  hs.moveCall (.of_unconnected rfl rfl (by simp)) (.inl rfl)

/-- What is known of a call stays true when connections are closed and the pool loses only closed
    ones. -/
theorem CallSound.mono (h : s.CallSound i call) (hopen : ∀ c, t.isOpen c = true → s.isOpen c = true)
    (hremote : ∀ c, t.remote c = s.remote c) (hknown : ∀ c, (t.links c).isSome = (s.links c).isSome)
    (hsub : ∀ entry ∈ t.conns, entry ∈ s.conns)
    (hkept : ∀ entry ∈ s.conns, t.isOpen entry.2 = true → entry ∈ t.conns)
    (hholder : s.holder = some (.call i) → t.holder = some (.call i) ∧ t.edges = s.edges) :
    t.CallSound i call where
  clear name hname c hc := by
    by_contra hopen'
    have hclosed := h.clear name hname c (hsub _ hc)
    simp [hopen c (by simpa using hopen')] at hclosed
  dialled id c hc := (hremote c).trans (h.dialled id c hc)
  checked edge id c hc := by
    obtain ⟨hown, hid⟩ := h.checked edge id c hc
    obtain ⟨hown', hedges⟩ := hholder hown
    exact ⟨hown', hedges ▸ hid⟩
  done edge c hc := by
    obtain ⟨hlink, hmem⟩ := h.done edge c hc
    exact ⟨(hknown c).trans hlink, fun hopen' => hkept _ (hmem (hopen c hopen')) hopen'⟩

/-- The pool does not look at the stored configuration, at inbound connections, or at what a reload has
    read. -/
theorem Sound.frame (hs : s.Sound) (hedges : t.edges = s.edges) (hconns : t.conns = s.conns)
    (hlinks : t.links = s.links) (hholder : t.holder = s.holder) (hcalls : t.calls = s.calls)
    (hreloads : ∀ r new, t.reloads r = .locked new → s.reloads r = .locked new) : t.Sound := by
  have hopen : ∀ c, t.isOpen c = s.isOpen c := fun c => by rw [isOpen, isOpen, hlinks]
  have hremote : ∀ c, t.remote c = s.remote c := fun c => by rw [remote, remote, hlinks]
  refine ⟨hconns ▸ hs.distinct, ?_, ?_, fun j => ?_, hcalls ▸ hs.exclusive, ?_⟩
  · rw [hconns, hlinks]
    exact hs.known
  · intro name c hc hc'
    rw [hedges, hremote]
    exact hs.configured name c (hconns ▸ hc) (hopen c ▸ hc')
  · rw [hcalls]
    refine (hs.calls j).mono (fun c hc => hopen c ▸ hc) hremote (fun c => by rw [hlinks])
      (fun _ hc => hconns ▸ hc) (fun _ hc _ => hconns ▸ hc) (fun hown => ?_)
    exact ⟨hholder.trans hown, hedges⟩
  · intro r new hlocked
    exact hholder.trans (hs.reloading r new (hreloads r new hlocked))

/-! ## Connections -/

theorem Sound.closeAll (hs : s.Sound) (cs : List Nat) : (s.closeAll cs).Sound where
  __ := hs
  known name c hc := by simpa using hs.known name c hc
  configured name c hc hopen := by
    rw [remote_closeAll]
    exact hs.configured name c hc (isOpen_closeAll.1 hopen).1
  calls i := (hs.calls i).mono (fun _ hopen => (isOpen_closeAll.1 hopen).1)
    (fun _ => remote_closeAll) (fun _ => isSome_links_closeAll) (fun _ hc => hc) (fun _ hc _ => hc)
    (fun hholder => ⟨hholder, rfl⟩)

/-- A new connection is nobody's. -/
theorem Sound.connect (hs : s.Sound) (hfresh : s.links c = none) (id : EndpointId P) :
    (s.connect c id).Sound := by
  have hother : ∀ c', (s.links c').isSome = true → (s.connect c id).links c' = s.links c' := by
    intro c' hknown
    refine Function.update_of_ne ?_ _ _
    rintro rfl
    simp [hfresh] at hknown
  have hopen : ∀ c', (s.links c').isSome = true → (s.connect c id).isOpen c' = s.isOpen c' :=
    fun c' hknown => by simp only [isOpen, hother c' hknown]
  have hremote : ∀ c', (s.links c').isSome = true → (s.connect c id).remote c' = s.remote c' :=
    fun c' hknown => by simp only [remote, hother c' hknown]
  refine ⟨hs.distinct, ?_, ?_, fun j => ⟨?_, ?_, (hs.calls j).checked, ?_⟩, hs.exclusive, hs.reloading⟩
  · intro name c' hc
    rw [hother c' (hs.known name c' hc)]
    exact hs.known name c' hc
  · intro name c' hc hopen'
    rw [hremote c' (hs.known name c' hc)]
    exact hs.configured name c' hc (hopen c' (hs.known name c' hc) ▸ hopen')
  · intro name hname c' hc
    exact (hopen c' (hs.known name c' hc)).trans ((hs.calls j).clear name hname c' hc)
  · intro id' c' hc
    have hid := (hs.calls j).dialled id' c' hc
    exact (hremote c' (isSome_links_of_remote hid)).trans hid
  · intro edge c' hc
    obtain ⟨hlink, hmem⟩ := (hs.calls j).done edge c' hc
    exact ⟨hother c' hlink ▸ hlink, fun hopen' => hmem (hopen c' hlink ▸ hopen')⟩

/-- A call that has been dropped leaves the lock of the edge set. -/
theorem Sound.release (hs : s.Sound) (hcall : s.calls i = .cancelled) : (s.release i).Sound := by
  by_cases hholder : s.holder = some (.call i)
  · refine ⟨hs.distinct, hs.known, hs.configured, ?_, hs.exclusive, ?_⟩
    · intro j
      rcases eq_or_ne j i with rfl | hji
      · change (s.release j).CallSound j (s.calls j)
        rw [hcall]
        exact .of_unconnected rfl rfl (by simp)
      · refine (hs.calls j).mono (fun _ h => h) (fun _ => rfl) (fun _ => rfl) (fun _ h => h)
          (fun _ h _ => h) (fun hj => ?_)
        rw [hholder] at hj
        cases hj
        exact absurd rfl hji
    · intro r new hlocked
      have hr := hs.reloading r new hlocked
      rw [hholder] at hr
      cases hr
  · rw [show s.release i = s by simp [Daemon.release, hholder]]
    exact hs

/-! ## The pool -/

theorem Sound.publish {edge : EdgeCfg} {id : EndpointId P} (hs : s.Sound)
    (hcall : s.calls i = .checked edge id c) :
    ((s.publish edge.name c).setCall i (.done edge (.ok c))).Sound := by
  have hclear := (hs.calls i).clear edge.name (by rw [hcall]; rfl)
  have hremote := (hs.calls i).dialled id c (by rw [hcall]; rfl)
  obtain ⟨hholder, hid⟩ := (hs.calls i).checked edge id c hcall
  have hknown := isSome_links_of_remote hremote
  have hmem : ∀ entry, entry ∈ Keyed.upsert Prod.fst (edge.name, c) s.conns ↔
      entry = (edge.name, c) ∨ entry ∈ s.conns ∧ entry.1 ≠ edge.name :=
    fun _ => Keyed.mem_upsert hs.distinct
  refine ⟨hs.distinct.upsert, ?_, ?_, ?_, ?_, ?_⟩
  · intro name c' hc
    rcases (hmem _).1 hc with heq | ⟨hold, _⟩
    · obtain ⟨rfl, rfl⟩ := Prod.mk.inj heq
      exact hknown
    · exact hs.known name c' hold
  · intro name c' hc hopen
    rcases (hmem _).1 hc with heq | ⟨hold, _⟩
    · obtain ⟨rfl, rfl⟩ := Prod.mk.inj heq
      exact hid.trans hremote.symm
    · exact hs.configured name c' hold hopen
  · refine (Function.forall_update_iff s.calls (fun j call =>
      ((s.publish edge.name c).setCall i _).CallSound j call)).2 ⟨?_, fun j hji => ⟨?_, ?_, ?_, ?_⟩⟩
    · refine ⟨by simp [Call.dials], by simp [Call.dialled], by simp, ?_⟩
      rintro _ _ ⟨⟩
      exact ⟨hknown, fun _ => (hmem _).2 (.inl rfl)⟩
    · -- Nobody else dials the edge, so nobody else relies on its name being clear.
      intro name hname c' hc
      rcases (hmem _).1 hc with heq | ⟨hold, _⟩
      · obtain ⟨rfl, rfl⟩ := Prod.mk.inj heq
        exact absurd (hs.exclusive j i edge.name (Call.dialLock_of_dials hname) (by rw [hcall]; rfl)) hji
      · exact (hs.calls j).clear name hname c' hold
    · exact (hs.calls j).dialled
    · intro edge' id' c' hj
      have hown := ((hs.calls j).checked edge' id' c' hj).1
      rw [hholder] at hown
      cases hown
      exact absurd rfl hji
    · intro edge' c' hj
      obtain ⟨hlink, hpooled⟩ := (hs.calls j).done edge' c' hj
      refine ⟨hlink, fun hopen => (hmem _).2 (.inr ⟨hpooled hopen, fun hname => ?_⟩)⟩
      -- The edge had no open connection in the pool, so this one is not open.
      have hclosed := hclear c' (hname ▸ hpooled hopen)
      have hopen' : s.isOpen c' = true := hopen
      simp [hclosed] at hopen'
  · exact hs.exclusive.update (fun _ hnone => by cases hnone)
  · intro r new hlocked
    have hr := hs.reloading r new hlocked
    rw [hholder] at hr
    cases hr

theorem Sound.evict (hs : s.Sound) (task : String × Nat) : (s.evict task).Sound := by
  have hsub : ∀ entry ∈ (s.evict task).conns, entry ∈ s.conns := by
    intro entry hentry
    simp only [Daemon.evict] at hentry
    split at hentry
    · exact (Keyed.mem_discard.1 hentry).1
    · exact hentry
  have hkept : ∀ entry ∈ s.conns, s.isOpen entry.2 = true → entry ∈ (s.evict task).conns := by
    intro entry hentry hopen
    simp only [Daemon.evict]
    split
    · next hdead =>
      refine Keyed.mem_discard.2 ⟨hentry, fun hname => ?_⟩
      have hlookup := (Keyed.lookup_eq_some hs.distinct).2 ⟨hentry, hname⟩
      simp [hlookup, hopen] at hdead
    · exact hentry
  refine ⟨?_, fun name c hc => hs.known name c (hsub _ hc),
    fun name c hc => hs.configured name c (hsub _ hc), fun j => ?_, hs.exclusive, hs.reloading⟩
  · simp only [Daemon.evict]
    split
    · exact hs.distinct.discard
    · exact hs.distinct
  · exact (hs.calls j).mono (fun _ h => h) (fun _ => rfl) (fun _ => rfl) hsub hkept
      (fun hholder => ⟨hholder, rfl⟩)

theorem Sound.install {r : Reloader} {new : List EdgeCfg} (hs : s.Sound)
    (hlocked : s.reloads r = .locked new) : (s.install r new).Sound := by
  have hholder := hs.reloading r new hlocked
  have hconns := conns_install hs.distinct r new
  have hsub : ∀ entry ∈ (s.install r new).conns, entry ∈ s.conns ∧ s.remains new entry = true := by
    intro entry hentry
    rw [hconns] at hentry
    exact List.mem_filter.1 hentry
  refine ⟨?_, ?_, ?_, fun j => ?_, hs.exclusive, ?_⟩
  · rw [hconns]
    exact hs.distinct.sublist List.filter_sublist
  · intro name c hc
    exact isSome_links_closeAll.trans (hs.known name c (hsub _ hc).1)
  · intro name c hc _
    obtain ⟨id, hid, hremote⟩ := remains_iff.1 (hsub _ hc).2
    exact hid.trans (remote_closeAll.trans hremote).symm
  · refine (hs.calls j).mono (fun _ hopen => (isOpen_closeAll.1 hopen).1) (fun _ => remote_closeAll)
      (fun _ => isSome_links_closeAll) (fun entry hentry => (hsub entry hentry).1)
      (fun entry hentry hopen => mem_conns_install hs.distinct hentry hopen) (fun hj => ?_)
    rw [hholder] at hj
    cases hj
  · intro r' new' hlocked'
    rcases eq_or_ne r' r with rfl | hne
    · simp [Daemon.install] at hlocked'
    · have hr' := hs.reloading r' new' (by simpa [Daemon.install, hne] using hlocked')
      rw [hholder] at hr'
      cases hr'
      exact absurd rfl hne

/-! ## Runs -/

theorem Sound.step {e : DaemonEvent P} (hs : s.Sound) (h : Step s e t) : t.Sound := by
  cases h with
  | call i edge hcall => exact hs.moveCall (.of_unconnected rfl rfl (by simp)) (.inl rfl)
  | hit i edge c hcall hpooled =>
    obtain ⟨hmem, _⟩ := pooled_eq_some hpooled
    refine hs.moveCall ⟨by simp [Call.dials], by simp [Call.dialled], by simp, ?_⟩ (.inl rfl)
    rintro _ _ ⟨⟩
    exact ⟨hs.known _ c hmem, fun _ => hmem⟩
  | miss i edge hcall hpooled => exact hs.moveCall (.of_unconnected rfl rfl (by simp)) (.inl rfl)
  | lock i edge hcall hfree =>
    refine hs.setCall (.of_unconnected rfl rfl (by simp)) (fun name hname j _ => ?_)
    cases hname
    exact hfree j
  | noAddr i edge error hcall hpooled haddr => exact hs.fail edge error
  | dial i edge addr hcall hpooled haddr =>
    refine hs.moveCall ⟨?_, by simp [Call.dialled], by simp, by simp⟩ (.inr (by rw [hcall]; rfl))
    rintro _ ⟨⟩ c hc
    exact isOpen_of_pooled_eq_none hs.distinct hpooled hc
  | timeout i edge id hcall => exact hs.fail edge _
  | unreachable i edge id error hcall => exact hs.fail edge _
  | dialed i edge id c hcall hfresh =>
    have hconnected := hs.connect hfresh id
    have hclear := (hconnected.calls i).clear edge.name (by simp [Daemon.connect, hcall, Call.dials])
    refine hconnected.moveCall ⟨?_, ?_, by simp, by simp⟩ (.inr ?_)
    · rintro _ ⟨⟩
      exact hclear
    · rintro _ _ ⟨⟩
      simp [remote, Daemon.connect]
    · simp [Daemon.connect, hcall, Call.dialLock]
  | mismatch i edge id remote c hcall hfresh hne =>
    exact ((hs.connect hfresh remote).closeAll [c]).fail edge _
  | authorize i edge id c hcall hfree hid =>
    have hclear := (hs.calls i).clear edge.name (by rw [hcall]; rfl)
    have hremote := (hs.calls i).dialled id c (by rw [hcall]; rfl)
    -- The lock was free, so no other call and no reload counts on having it.
    refine ⟨hs.distinct, hs.known, hs.configured, ?_, ?_, ?_⟩
    · refine (Function.forall_update_iff s.calls (fun j call =>
        CallSound { s.setCall i _ with holder := some (.call i) } j call)).2 ⟨?_, fun j _ => ?_⟩
      · refine ⟨?_, ?_, ?_, by simp⟩
        · rintro _ ⟨⟩
          exact hclear
        · rintro _ _ ⟨⟩
          exact hremote
        · rintro _ _ _ ⟨⟩
          exact ⟨rfl, hid⟩
      · refine (hs.calls j).mono (fun _ h => h) (fun _ => rfl) (fun _ => rfl) (fun _ h => h)
          (fun _ h _ => h) (fun hj => ?_)
        rw [hfree] at hj
        cases hj
    · exact hs.exclusive.update (hs.exclusive.unshared (.inr (by rw [hcall]; rfl)))
    · intro r new hlocked
      have hr := hs.reloading r new hlocked
      rw [hfree] at hr
      cases hr
  | refuse i edge id c hcall hfree hid => exact (hs.closeAll [c]).fail edge _
  | publish i edge id c hcall => exact hs.publish hcall
  | cancel i hcall =>
    have hcancelled : ((s.closeAll ((s.calls i).dialled.map Prod.snd).toList).setCall i
        .cancelled).Sound :=
      (hs.closeAll _).moveCall (.of_unconnected rfl rfl (by simp)) (.inl rfl)
    exact hcancelled.release (Function.update_self ..)
  | close c => exact hs.closeAll [c]
  | evict task htask hclosed => exact hs.evict task
  | commit config => exact hs.frame rfl rfl rfl rfl rfl (fun _ _ h => h)
  | read r config hidle hload =>
    refine hs.frame rfl rfl rfl rfl rfl (fun r' new hlocked => ?_)
    rcases eq_or_ne r' r with rfl | hne
    · simp at hlocked
    · simpa [hne] using hlocked
  | readFails r error hidle hload => exact hs.frame rfl rfl rfl rfl rfl (fun _ _ h => h)
  | lockEdges r new hread hfree =>
    refine { hs with calls := fun j => ?_, reloading := fun r' new' hlocked => ?_ }
    · refine (hs.calls j).mono (fun _ h => h) (fun _ => rfl) (fun _ => rfl) (fun _ h => h)
        (fun _ h _ => h) (fun hj => ?_)
      rw [hfree] at hj
      cases hj
    · rcases eq_or_ne r' r with rfl | hne
      · rfl
      · have hr' := hs.reloading r' new' (by simpa [hne] using hlocked)
        rw [hfree] at hr'
        cases hr'
  | install r new hlocked => exact hs.install hlocked
  | accept | check | serve | hangUp => exact hs.frame rfl rfl rfl rfl rfl (fun _ _ h => h)

theorem sound_started (config : Config) : (started config : Daemon P).Sound := by
  refine ⟨List.nodup_nil, ?_, ?_, fun _ => .of_unconnected rfl rfl (by simp [started]), ?_, ?_⟩ <;>
    simp [started, Exclusive, Call.dialLock]

theorem sound_of_reachable (hs : (daemon P).Reachable s) : s.Sound := by
  refine hs.invariant ?_ ?_
  · rintro s ⟨config, _, _, rfl⟩
    exact sound_started config
  · rintro s t _ h ⟨e, _, hstep⟩
    exact h.step hstep

/-- Some call has returned the connection for the edge. -/
def Returned (s : Daemon P) (name : String) (c : Nat) : Prop :=
  ∃ i edge, s.calls i = .done edge (.ok c) ∧ edge.name = name

theorem Sound.returned {name : String} (hs : s.Sound) (h : s.Returned name c)
    (hopen : s.isOpen c = true) : (name, c) ∈ s.conns := by
  obtain ⟨i, edge, hcall, rfl⟩ := h
  exact ((hs.calls i).done edge c hcall).2 hopen

/-- An open connection that was returned has the id that is configured. -/
theorem Sound.configured_of_returned {name : String} (hs : s.Sound) (h : s.Returned name c)
    (hopen : s.isOpen c = true) :
    ∃ id, s.remote c = some id ∧ endpointOf P s.edges name = some id := by
  obtain ⟨id, _, hremote⟩ := exists_link_of_isOpen hopen
  exact ⟨id, hremote, (hs.configured name c (hs.returned h hopen) hopen).trans hremote⟩

/-- A reload that gives an edge another id, or none, closes what was returned for it. -/
theorem Sound.closed_of_install {r : Reloader} {name : String} (hs : s.Sound)
    (hstep : Step s (.install r) t) (hchanged : endpointOf P t.edges name ≠ endpointOf P s.edges name)
    (h : s.Returned name c) : t.isOpen c = false := by
  have ht := hs.step hstep
  cases hstep with
  | install _ new hlocked =>
    by_contra hopen
    rw [Bool.not_eq_false] at hopen
    have hstill : (s.install r new).Returned name c := h
    obtain ⟨id, hremote, hid⟩ := ht.configured_of_returned hstill hopen
    obtain ⟨id', hremote', hid'⟩ := hs.configured_of_returned h (isOpen_closeAll.1 hopen).1
    have hsame : s.remote c = some id := remote_closeAll.symm.trans hremote
    rw [hremote'] at hsame
    cases hsame
    exact hchanged (hid.trans hid'.symm)

end Daemon

/-- **The pool never outlives the configuration.** An open connection in the pool has the id that is
    configured for its edge; what `get_conn` has returned for an edge is closed or is the pooled
    connection; a reload that removes or re-keys an edge closes what was returned for it; and a dial,
    whenever it was started, is published only while the configuration gives the edge the id that was
    dialled. -/
theorem pool_never_outlives_policy {s : Daemon P} (hs : (daemon P).Reachable s) :
    (∀ name c, (name, c) ∈ s.conns → s.isOpen c = true → endpointOf P s.edges name = s.remote c) ∧
    (∀ name c, s.Returned name c → s.isOpen c = true →
      s.pooled name = some c ∧ ∀ c', s.Returned name c' → s.isOpen c' = true → c' = c) ∧
    (∀ r t name, Daemon.Step s (.install r) t →
      endpointOf P t.edges name ≠ endpointOf P s.edges name →
      ∀ c, s.Returned name c → t.isOpen c = false) ∧
    ∀ i t, Daemon.Step s (.publish i) t → ∃ edge id c, s.calls i = .checked edge id c ∧
      s.remote c = some id ∧ endpointOf P s.edges edge.name = some id := by
  have hsound := Daemon.sound_of_reachable hs
  refine ⟨hsound.configured, ?_, ?_, ?_⟩
  · intro name c hreturned hopen
    have hmem := hsound.returned hreturned hopen
    refine ⟨?_, fun c' hreturned' hopen' => ?_⟩
    · have hlookup := (Keyed.lookup_eq_some hsound.distinct).2 ⟨hmem, rfl⟩
      simp [Daemon.pooled, hlookup, hopen]
    · exact congrArg Prod.snd (hsound.distinct.eq_of_key (hsound.returned hreturned' hopen') hmem rfl)
  · intro r t name hstep hchanged c hreturned
    exact hsound.closed_of_install hstep hchanged hreturned
  · intro i t hstep
    cases hstep with
    | publish _ edge id c hcall =>
      exact ⟨edge, id, c, hcall, (hsound.calls i).dialled id c (by rw [hcall]; rfl),
        ((hsound.calls i).checked edge id c hcall).2⟩

section Example

open Reference

/-- A configured edge. -/
def exampleEdge : EdgeCfg := ⟨"e", publicKey otherKey, ["https://relay.example/"], false⟩

def exampleConfig : Config := ⟨CONFIG_SCHEMA, [exampleEdge], none⟩

/-- A daemon that has been started with it and dials the edge. -/
def dialingDaemon : Daemon (platform []) :=
  ((((Daemon.started exampleConfig).setCall 0 (.start exampleEdge)).setCall 0
    (.missed exampleEdge)).setCall 0 (.locked exampleEdge)).setCall 0
    (.dialing exampleEdge (otherKey.public (platform [])))

theorem dialingDaemon_reachable {allowed : Daemon (platform []) → DaemonEvent (platform []) → Prop}
    (hallowed : ∀ s e, (∀ r, e ≠ .install r) → allowed s e) :
    (daemonWhere (platform []) allowed).Reachable dialingDaemon := by
  have h0 : (daemonWhere (platform []) allowed).Reachable (.started exampleConfig) :=
    ⟨_, ⟨exampleConfig, rfl, by simp [exampleConfig], rfl⟩, .refl⟩
  have h1 := h0.step ⟨_, hallowed _ _ (by simp), .call _ 0 exampleEdge rfl⟩
  have h2 := h1.step ⟨_, hallowed _ _ (by simp), .miss _ 0 exampleEdge rfl rfl⟩
  have h3 := h2.step ⟨_, hallowed _ _ (by simp), .lock _ 0 exampleEdge rfl (by
    intro j
    cases j <;> simp [Daemon.setCall, Daemon.started, Call.dialLock])⟩
  exact h3.step ⟨_, hallowed _ _ (by simp), .dial _ 0 exampleEdge
    ⟨otherKey.public (platform []),
      [⟨"https", "", none, some "relay.example", none, "/", none, none⟩]⟩ rfl rfl
    (toOption_eq_some.1 (by decide +kernel))⟩

/-- The daemon after the dial has been published. -/
def pooledDaemon : Daemon (platform []) :=
  let dialed := (dialingDaemon.connect 0 (otherKey.public (platform []))).setCall 0
    (.dialed exampleEdge (otherKey.public (platform [])) 0)
  let checked : Daemon (platform []) :=
    { dialed.setCall 0 (.checked exampleEdge (otherKey.public (platform [])) 0) with
      holder := some (.call 0) }
  (checked.publish exampleEdge.name 0).setCall 0 (.done exampleEdge (.ok 0))

theorem pooledDaemon_reachable {allowed : Daemon (platform []) → DaemonEvent (platform []) → Prop}
    (hallowed : ∀ s e, (∀ r, e ≠ .install r) → allowed s e) :
    (daemonWhere (platform []) allowed).Reachable pooledDaemon := by
  have h1 := (dialingDaemon_reachable hallowed).step ⟨_, hallowed _ _ (by simp),
    .dialed _ 0 exampleEdge (otherKey.public (platform [])) 0 rfl rfl⟩
  have h2 := h1.step ⟨_, hallowed _ _ (by simp),
    .authorize _ 0 exampleEdge (otherKey.public (platform [])) 0 rfl rfl (by decide +kernel)⟩
  exact h2.step ⟨_, hallowed _ _ (by simp),
    .publish _ 0 exampleEdge (otherKey.public (platform [])) 0 rfl⟩

def Daemon.installing (s : Daemon P) (r : Reloader) (config : Config) : Daemon P :=
  { s with
    file := some config
    readSince := true
    reloads := Function.update (Function.update s.reloads r
      (.read (Keyed.collect EdgeCfg.name config.edges))) r
      (.locked (Keyed.collect EdgeCfg.name config.edges))
    holder := some (.reload r) }

/-- A reload gets as far as its critical section when no other task is in its way. -/
theorem Daemon.steps_installing {allowed : Daemon P → DaemonEvent P → Prop} (s : Daemon P)
    (r : Reloader) (config : Config) (hcommit : ∀ t, allowed t (.commit config))
    (hread : ∀ t, t.reloads = s.reloads → allowed t (.read r)) (hlock : ∀ t, allowed t (.lockEdges r))
    (hparse : parseConfig config = .ok config) (hidle : s.reloads r = .idle)
    (hfree : s.holder = none) :
    (daemonWhere P allowed).Steps s (s.installing r config) :=
  .tail (.tail (.tail .refl ⟨_, hcommit _, .commit s config⟩)
    ⟨_, hread _ rfl, .read _ r config hidle hparse⟩)
    ⟨_, hlock _, .lockEdges _ r _ (Function.update_self ..) hfree⟩

/-- The pooled connection is closed by the reload that removes its edge. -/
theorem removed_edge_is_disconnected : ∃ s t : Daemon (platform []),
    (daemon (platform [])).Reachable s ∧ s.pooled "e" = some 0 ∧ s.isOpen 0 = true ∧
      Daemon.Step s (.install .admin) t ∧ t.isOpen 0 = false := by
  have hs : (daemon (platform [])).Reachable (pooledDaemon.installing .admin .default) :=
    (pooledDaemon_reachable (fun _ _ _ => trivial)).steps
      (pooledDaemon.steps_installing .admin .default (fun _ => trivial) (fun _ _ => trivial)
        (fun _ => trivial) rfl rfl rfl)
  have hreturned : (pooledDaemon.installing .admin .default).Returned "e" 0 :=
    ⟨0, exampleEdge, rfl, rfl⟩
  obtain ⟨_, hpooled, hinstalled, _⟩ := pool_never_outlives_policy hs
  have hstep := Daemon.Step.install (pooledDaemon.installing .admin .default) .admin [] rfl
  refine ⟨_, _, hs, (hpooled "e" 0 hreturned rfl).1, rfl, hstep, ?_⟩
  exact hinstalled .admin _ "e" hstep (by decide +kernel) 0 hreturned

/-- A dial starts, a reload removes the edge, another one configures it again as it was: the dial is
    published, although it was started before the reload that removed its edge. -/
theorem dial_outlives_removal : ∃ s t u v : Daemon (platform []),
    (daemon (platform [])).Reachable s ∧
      s.calls 0 = .dialing exampleEdge (otherKey.public (platform [])) ∧
      Daemon.Step s (.install .admin) t ∧ endpointOf (platform []) s.edges "e" ≠ none ∧
      endpointOf (platform []) t.edges "e" = none ∧
      (daemonWhere (platform []) (fun _ e => ∀ i edge, e ≠ .call i edge)).Steps t u ∧
      Daemon.Step u (.publish 0) v ∧ v.pooled "e" = some 0 := by
  have hs : (daemon (platform [])).Reachable (dialingDaemon.installing .admin .default) :=
    (dialingDaemon_reachable (fun _ _ _ => trivial)).steps
      (dialingDaemon.steps_installing .admin .default (fun _ => trivial) (fun _ _ => trivial)
        (fun _ => trivial) rfl rfl rfl)
  let removed := (dialingDaemon.installing .admin .default).install .admin []
  have hrun : (daemonWhere (platform []) (fun _ e => ∀ i edge, e ≠ .call i edge)).Steps removed
      (removed.installing .admin exampleConfig) :=
    removed.steps_installing .admin exampleConfig (by simp) (by simp) (by simp) rfl rfl rfl
  have h1 := hrun.tail ⟨_, by simp, .install _ .admin [exampleEdge] rfl⟩
  have h2 := h1.tail ⟨_, by simp,
    .dialed _ 0 exampleEdge (otherKey.public (platform [])) 0 rfl rfl⟩
  have h3 := h2.tail ⟨_, by simp,
    .authorize _ 0 exampleEdge (otherKey.public (platform [])) 0 rfl rfl (by decide +kernel)⟩
  exact ⟨_, removed, _, _, hs, rfl, .install _ .admin [] rfl, by decide +kernel, by decide +kernel,
    h3, .publish _ 0 exampleEdge (otherKey.public (platform [])) 0 rfl, by decide +kernel⟩

end Example

end AgentScale.Client
