import AgentScale.Client.ConnectionPool

set_option autoImplicit false

/-! # Reloading the configuration

`reload_edges` reads `config.json` first and installs what it has read later. Two tasks execute it, and
nothing orders their installations as their reads were ordered. Installing closes the connections that
the daemon has dialled to edges that are gone; the connections that edges have made to the daemon are
checked once, when they are accepted. -/

namespace AgentScale.Client

open Checked Transition

variable {P : Platform}

namespace Daemon

/-! ## What is installed last -/

/-- The edge set of the stored configuration. -/
def Stored (s : Daemon P) (edges : List EdgeCfg) : Prop :=
  ∀ config, loadConfigOrDefault s.file = .ok config → edges = Keyed.collect EdgeCfg.name config.edges

/-- A reload reads the configuration only while no other reload is under way. -/
def ReadsAlone (s : Daemon P) : DaemonEvent P → Prop
  | .read r => ∀ r', r' ≠ r → s.reloads r' = .idle
  | _ => True

/-- At most one reload is under way, and it has read what is stored, unless a commit has come after. -/
structure Converging (s : Daemon P) : Prop where
  alone : ∀ r r', s.reloads r ≠ .idle → s.reloads r' ≠ .idle → r = r'
  idle : (∀ r, s.reloads r = .idle) → s.readSince = true → s.Stored s.edges
  read : ∀ r new, s.reloads r = .read new ∨ s.reloads r = .locked new → s.readSince = true →
    s.Stored new

variable {s t : Daemon P}

/-- A commit leaves what was read behind; the next read catches up with it, and nothing else bears on
    what is installed last. -/
theorem Converging.step {e : DaemonEvent P} (h : s.Converging) (halone : s.ReadsAlone e)
    (hstep : Step s e t) : t.Converging := by
  cases hstep with
  | commit config =>
    exact ⟨h.alone, fun _ hsince => absurd hsince (by simp),
      fun _ _ _ hsince => absurd hsince (by simp)⟩
  | read r config hidle hload =>
    have hothers : ∀ r', r' ≠ r → s.reloads r' = .idle := halone
    refine ⟨?_, ?_, ?_⟩
    · intro r₁ r₂ h₁ h₂
      have hr : ∀ r', Function.update s.reloads r
          (.read (Keyed.collect EdgeCfg.name config.edges)) r' ≠ .idle → r' = r := by
        intro r' hr'
        by_contra hne
        rw [Function.update_of_ne hne] at hr'
        exact hr' (hothers r' hne)
      rw [hr r₁ h₁, hr r₂ h₂]
    · intro hall
      have hr := hall r
      simp at hr
    · intro r' new hr' _ config' hload'
      cases hload.symm.trans hload'
      rcases eq_or_ne r' r with rfl | hne
      · have hnew : Keyed.collect EdgeCfg.name config.edges = new := by simpa using hr'
        exact hnew.symm
      · simp [hne, hothers r' hne] at hr'
  | readFails r error hidle hload =>
    have hvacuous : ∀ edges, s.Stored edges := fun edges config hload' => by
      rw [hload] at hload'
      cases hload'
    exact ⟨h.alone, fun _ _ => hvacuous _, fun _ _ _ _ => hvacuous _⟩
  | lockEdges r new hread hfree =>
    have hidle : ∀ r', Function.update s.reloads r (.locked new) r' = .idle ↔
        s.reloads r' = .idle := by
      intro r'
      rcases eq_or_ne r' r with rfl | hne
      · simp [hread]
      · simp [hne]
    refine ⟨?_, ?_, ?_⟩
    · intro r₁ r₂ h₁ h₂
      exact h.alone r₁ r₂ (mt (hidle r₁).2 h₁) (mt (hidle r₂).2 h₂)
    · exact fun hall => h.idle (fun r' => (hidle r').1 (hall r'))
    · intro r' new' hr' hsince
      rcases eq_or_ne r' r with rfl | hne
      · have hnew : new = new' := by simpa using hr'
        exact h.read r' new' (.inl (hnew ▸ hread)) hsince
      · exact h.read r' new' (by simpa [hne] using hr') hsince
  | install r new hlocked =>
    have hothers : ∀ r', r' ≠ r → s.reloads r' = .idle := by
      intro r' hne
      by_contra hbusy
      exact hne (h.alone r' r hbusy (by simp [hlocked]))
    have hall : ∀ r', (s.install r new).reloads r' = .idle := by
      intro r'
      rcases eq_or_ne r' r with rfl | hne
      · simp [Daemon.install]
      · simpa [Daemon.install, hne] using hothers r' hne
    refine ⟨fun r₁ _ h₁ => absurd (hall r₁) h₁, fun _ => h.read r new (.inr hlocked), ?_⟩
    intro r' new' hr'
    simp [hall r'] at hr'
  | call | hit | miss | lock | noAddr | dial | timeout | unreachable | dialed | mismatch | authorize
  | refuse | publish | cancel | close | evict | accept | check | serve | hangUp => exact { h with }

theorem converging_of_reachable (hs : (daemonWhere P ReadsAlone).Reachable s) : s.Converging := by
  refine hs.invariant ?_ ?_
  · rintro s ⟨config, hparse, _, rfl⟩
    refine ⟨by simp [started], fun _ _ config' hload => ?_, by simp [started]⟩
    cases hparse.symm.trans hload
    rfl
  · rintro s t _ h ⟨e, halone, hstep⟩
    exact h.step halone hstep

end Daemon

/-- **Reloading converges to the stored configuration**, in every run in which a reload reads
    `config.json` only while no other reload is between its read and its installation: when no reload is
    under way and one has started since the last commit, the edges of the daemon are those that are
    stored, and an open connection that `get_conn` has returned is to an edge that is stored. -/
theorem reload_converges {s : Daemon P} (hs : (daemonWhere P Daemon.ReadsAlone).Reachable s)
    (hidle : ∀ r, s.reloads r = .idle) (hread : s.readSince = true) (config : Config)
    (hfile : loadConfigOrDefault s.file = .ok config) :
    s.edges = Keyed.collect EdgeCfg.name config.edges ∧
      ∀ name c, s.Returned name c → s.isOpen c = true →
        endpointOf P (Keyed.collect EdgeCfg.name config.edges) name = s.remote c := by
  have hedges := (Daemon.converging_of_reachable hs).idle hidle hread config hfile
  refine ⟨hedges, fun name c hreturned hopen => ?_⟩
  have hsound := Daemon.sound_of_reachable (Daemon.reachable_of_where hs)
  rw [← hedges]
  exact hsound.configured name c (hsound.returned hreturned hopen) hopen

section Example

open Reference

/-- The daemon follows a configuration without edges. -/
theorem emptied_configuration_is_installed : ∃ s : Daemon (platform []),
    (daemonWhere (platform []) Daemon.ReadsAlone).Reachable s ∧ (∀ r, s.reloads r = .idle) ∧
      s.readSince = true ∧ loadConfigOrDefault s.file = .ok .default ∧ s.edges = [] := by
  have h0 : (daemonWhere (platform []) Daemon.ReadsAlone).Reachable (.started exampleConfig) :=
    ⟨_, ⟨exampleConfig, rfl, by simp [exampleConfig], rfl⟩, .refl⟩
  have h1 := (h0.steps (Daemon.steps_installing _ .admin .default (fun _ => trivial)
    (fun t ht r' _ => by rw [ht]; rfl) (fun _ => trivial) rfl rfl rfl)).step
    ⟨.install .admin, trivial, .install _ .admin [] rfl⟩
  have hidle : ∀ r, (((Daemon.started exampleConfig).installing .admin .default).install .admin [] :
      Daemon (platform [])).reloads r = .idle := by
    intro r
    cases r <;> rfl
  exact ⟨_, h1, hidle, rfl, rfl, (reload_converges h1 hidle rfl .default rfl).1⟩

/-- One reload has read the edge, another one reads and installs the configuration that no longer has
    it, and then the first one installs what it has read. -/
theorem removed_edge_is_installed_again : ∃ s : Daemon (platform []),
    (daemon (platform [])).Reachable s ∧ (∀ r, s.reloads r = .idle) ∧ s.readSince = true ∧
      loadConfigOrDefault s.file = .ok .default ∧ s.edges = [exampleEdge] := by
  have h0 : (daemon (platform [])).Reachable (.started exampleConfig) :=
    ⟨_, ⟨exampleConfig, rfl, by simp [exampleConfig], rfl⟩, .refl⟩
  have h1 := h0.step ⟨_, trivial, .read _ .admin exampleConfig rfl rfl⟩
  have h2 := (h1.steps (Daemon.steps_installing _ .watcher .default (fun _ => trivial)
    (fun _ _ => trivial) (fun _ => trivial) rfl rfl rfl)).step
    ⟨_, trivial, .install _ .watcher [] rfl⟩
  have h3 := h2.step ⟨_, trivial, .lockEdges _ .admin [exampleEdge] rfl rfl⟩
  have h4 := h3.step ⟨_, trivial, .install _ .admin [exampleEdge] rfl⟩
  exact ⟨_, h4, fun r => by cases r <;> rfl, rfl, rfl, rfl⟩

end Example

/-! ## Connections in both directions -/

namespace Daemon

/-- A configuration is installed only after every edge that it does not list has hung up the connections
    with which it has passed the acceptor's check. -/
def PeersListed (s : Daemon P) : DaemonEvent P → Prop
  | .install r => ∀ new, s.reloads r = .locked new → ∀ k conn, s.inbound k = some conn →
      conn.Admitted → Listed P new conn.remote
  | _ => True

/-- The edges that are served are listed. -/
def InboundListed (s : Daemon P) : Prop :=
  ∀ k conn, s.inbound k = some conn → conn.Admitted → Listed P s.edges conn.remote

variable {s t : Daemon P}

theorem InboundListed.setInbound {k : Nat} {conn : Inbound P} (h : s.InboundListed)
    (hconn : conn.Admitted → Listed P s.edges conn.remote) : (s.setInbound k conn).InboundListed := by
  intro k' conn' hconn'
  rcases eq_or_ne k' k with rfl | hne
  · obtain rfl : conn = conn' := by simpa [Daemon.setInbound] using hconn'
    exact hconn
  · exact h k' conn' (by simpa [Daemon.setInbound, hne] using hconn')

theorem InboundListed.step {e : DaemonEvent P} (h : s.InboundListed) (hlisted : s.PeersListed e)
    (hstep : Step s e t) : t.InboundListed := by
  cases hstep with
  | install r new hlocked => exact hlisted new hlocked
  | accept k remote blobs hfresh => exact h.setInbound (by simp [Inbound.Admitted])
  | check k conn hconn hwaiting hfree =>
    refine h.setInbound (fun hadmitted => ?_)
    by_contra hunlisted
    simp [Inbound.Admitted, hunlisted] at hadmitted
  | serve k conn hconn hadmitted => exact h.setInbound (fun _ => h k conn hconn (.inl hadmitted))
  | hangUp k conn hconn => exact h.setInbound (by simp [Inbound.Admitted])
  | call | hit | miss | lock | noAddr | dial | timeout | unreachable | dialed | mismatch | authorize
  | refuse | publish | cancel | close | evict | commit | read | readFails | lockEdges => exact h

theorem inboundListed_of_reachable (hs : (daemonWhere P PeersListed).Reachable s) :
    s.InboundListed := by
  refine hs.invariant ?_ ?_
  · rintro s ⟨config, _, _, rfl⟩ k conn hconn
    cases hconn
  · rintro s t _ h ⟨e, hlisted, hstep⟩
    exact h.step hlisted hstep

theorem listed_of_endpointOf {edges : List EdgeCfg} {name : String} {id : EndpointId P}
    (h : endpointOf P edges name = some id) : Listed P edges id := by
  obtain ⟨edge, hlookup, hid⟩ := Option.bind_eq_some_iff.1 h
  exact ⟨edge, (Keyed.mem_of_lookup hlookup).1, hid⟩

end Daemon

/-- **Revoking an edge ends every session with it**, in every run in which the edges that a configuration
    no longer lists have hung up on the acceptor before it is installed: no connection with an id that
    no edge has is served, in either direction. The connection that `fetch_to_file` makes for itself is
    not in the model. -/
theorem revocation_ends_sessions {s : Daemon P} (hs : (daemonWhere P Daemon.PeersListed).Reachable s)
    (x : EndpointId P) (hx : ¬ Listed P s.edges x) :
    (∀ k conn, s.inbound k = some conn → conn.Admitted → conn.remote ≠ x) ∧
      ∀ name c, s.Returned name c → s.isOpen c = true → s.remote c ≠ some x := by
  constructor
  · rintro k conn hconn hadmitted rfl
    exact hx (Daemon.inboundListed_of_reachable hs k conn hconn hadmitted)
  · intro name c hreturned hopen hremote
    have hsound := Daemon.sound_of_reachable (Daemon.reachable_of_where hs)
    obtain ⟨id, hid, hconfigured⟩ := hsound.configured_of_returned hreturned hopen
    rw [hremote] at hid
    cases hid
    exact hx (Daemon.listed_of_endpointOf hconfigured)

section Example

open Reference

/-- An edge that the daemon has dialled has connected back and is served. -/
def servingDaemon : Daemon (platform []) :=
  ((pooledDaemon.setInbound 0 ⟨otherKey.public (platform []), true, .waiting⟩).check 0
    ⟨otherKey.public (platform []), true, .waiting⟩).setInbound 0
    ⟨otherKey.public (platform []), true, .serving⟩

theorem servingDaemon_reachable {allowed : Daemon (platform []) → DaemonEvent (platform []) → Prop}
    (hallowed : ∀ s e, (∀ r, e ≠ .install r) → allowed s e) :
    (daemonWhere (platform []) allowed).Reachable servingDaemon := by
  have h1 := (pooledDaemon_reachable hallowed).step ⟨_, hallowed _ _ (by simp),
    .accept _ 0 (otherKey.public (platform [])) true rfl⟩
  have h2 := h1.step ⟨_, hallowed _ _ (by simp), .check _ 0 _ rfl rfl rfl⟩
  exact h2.step ⟨_, hallowed _ _ (by simp), .serve _ 0 ⟨otherKey.public (platform []), true, .admitted⟩
    (by decide +kernel) rfl⟩

/-- The same after the edge has hung up. -/
def hungUpDaemon : Daemon (platform []) :=
  servingDaemon.setInbound 0 ⟨otherKey.public (platform []), true, .closed⟩

/-- The edge hangs up before the reload that removes it, and the daemon closes its own connection to
    the edge. -/
theorem removed_edge_has_no_session : ∃ s : Daemon (platform []),
    (daemonWhere (platform []) Daemon.PeersListed).Reachable s ∧
      ¬ Listed (platform []) s.edges (otherKey.public (platform [])) ∧ s.Returned "e" 0 ∧
      s.remote 0 = some (otherKey.public (platform [])) ∧ s.isOpen 0 = false := by
  have hallowed : ∀ (s : Daemon (platform [])) e, (∀ r, e ≠ .install r) → s.PeersListed e := by
    intro s e he
    cases e with
    | install r => exact absurd rfl (he r)
    | _ => trivial
  have hlisted : (hungUpDaemon.installing .admin .default).PeersListed (.install .admin) := by
    intro new _ k conn hconn hadmitted
    cases k with
    | zero =>
      cases hconn
      simp [Inbound.Admitted] at hadmitted
    | succ k => cases hconn
  have h1 : (daemonWhere (platform []) Daemon.PeersListed).Reachable hungUpDaemon :=
    (servingDaemon_reachable hallowed).step ⟨.hangUp 0, trivial,
      .hangUp servingDaemon 0 ⟨otherKey.public (platform []), true, .serving⟩ rfl⟩
  have h2 := h1.steps (hungUpDaemon.steps_installing .admin .default (fun _ => trivial)
    (fun _ _ => trivial) (fun _ => trivial) rfl rfl rfl)
  have h3 := h2.step ⟨_, hlisted, .install _ .admin [] rfl⟩
  have hunlisted : ¬ Listed (platform []) [] (otherKey.public (platform [])) := by simp [Listed]
  refine ⟨_, h3, hunlisted, ⟨0, exampleEdge, rfl, rfl⟩, by decide +kernel, ?_⟩
  by_contra hopen
  exact (revocation_ends_sessions h3 _ hunlisted).2 "e" 0 ⟨0, exampleEdge, rfl, rfl⟩
    (Bool.eq_true_of_not_eq_false hopen) (by decide +kernel)

/-- An edge whose connection is served when the reload removes it goes on being served. -/
theorem removed_edge_is_still_served : ∃ (s : Daemon (platform [])) (conn : Inbound (platform [])),
    (daemon (platform [])).Reachable s ∧ ¬ Listed (platform []) s.edges conn.remote ∧
      s.inbound 0 = some conn ∧ conn.phase = .serving := by
  have h1 : (daemon (platform [])).Reachable (servingDaemon.installing .admin .default) :=
    (servingDaemon_reachable (fun _ _ _ => trivial)).steps
      (servingDaemon.steps_installing .admin .default (fun _ => trivial) (fun _ _ => trivial)
        (fun _ => trivial) rfl rfl rfl)
  have h2 := h1.step ⟨.install .admin, trivial, .install _ .admin [] rfl⟩
  have hunlisted : ¬ Listed (platform []) [] (otherKey.public (platform [])) := by simp [Listed]
  exact ⟨_, ⟨otherKey.public (platform []), true, .serving⟩, h2, hunlisted, rfl, rfl⟩

end Example

end AgentScale.Client
