import AgentScale.Library.Transition
import Mathlib.Logic.Function.Basic

set_option autoImplicit false

/-! # Daemons that start and stop

Any number of commands may start a daemon at the same time, an old daemon may still be on its way out,
and each of them may be killed at any point. All share three things: the lock on `daemon.lock`, which the
system releases when its holder is gone, the socket file that `Listener::bind` unlinks and creates and
that the drop of the listener unlinks, whoever created it, and the registry file. `run` gives them up in
this order: the registry file, the listener, and last the lock. -/

namespace AgentScale.Client.Lifecycle

open Transition

/-- How far `run` is. -/
inductive Phase where
  | absent
  | started
  /-- It holds the lock and loads its configuration. -/
  | locked
  /-- `bind` has removed the socket file that was there. -/
  | unlinked
  | bound
  | serving
  /-- The loop has ended: by a command, or because nothing was to do. -/
  | draining
  /-- The registry file is gone, or was not written. -/
  | closing
  /-- The listener has been dropped. -/
  | releasing
deriving DecidableEq

/-- Whether the process holds the lock. -/
def Phase.holds : Phase → Bool
  | .absent | .started => false
  | _ => true

/-- Whether the process listens on the socket that it has created. -/
def Phase.listens : Phase → Bool
  | .bound | .serving | .draining | .closing => true
  | _ => false

/-- Whether the process has written the registry file and not yet removed it. -/
def Phase.registered : Phase → Bool
  | .serving | .draining => true
  | _ => false

/-- The processes and what they share. A socket file leads to the process that has created it. -/
structure World where
  phase : Nat → Phase
  lock : Option Nat
  socket : Option Nat
  registry : Option Nat

/-- Files that a killed process has left behind may be there. -/
def World.Initial (w : World) : Prop := (∀ p, w.phase p = .absent) ∧ w.lock = none

def World.set (w : World) (p : Nat) (phase : Phase) : World :=
  { w with phase := Function.update w.phase p phase }

inductive Event where
  /-- `spawn_daemon`. -/
  | spawn (p : Nat)
  /-- `FileLock::try_acquire`. -/
  | acquire (p : Nat)
  | unlink (p : Nat)
  | bind (p : Nat)
  | register (p : Nat)
  /-- An error before the loop is reached; `written` says whether the registry file has been written. -/
  | fails (p : Nat) (written : Bool)
  | stop (p : Nat)
  | unregister (p : Nat)
  | dropListener (p : Nat)
  | release (p : Nat)
  | kill (p : Nat)

def World.perform (w : World) : Event → Option World
  | .spawn p => if w.phase p = .absent then some (w.set p .started) else none
  | .acquire p =>
    if w.phase p = .started then
      -- "another agent-scale daemon is already running"
      if w.lock = none then some { w.set p .locked with lock := some p } else some (w.set p .absent)
    else none
  | .unlink p =>
    if w.phase p = .locked then some { w.set p .unlinked with socket := none } else none
  | .bind p =>
    if w.phase p = .unlinked then
      if w.socket = none then some { w.set p .bound with socket := some p }
      else some (w.set p .releasing)
    else none
  | .register p =>
    if w.phase p = .bound then some { w.set p .serving with registry := some p } else none
  | .fails p written =>
    match w.phase p with
    | .locked | .unlinked => some (w.set p .releasing)
    | .bound =>
      some { w.set p .closing with registry := if written then some p else w.registry }
    | _ => none
  | .stop p => if w.phase p = .serving then some (w.set p .draining) else none
  | .unregister p =>
    if w.phase p = .draining then some { w.set p .closing with registry := none } else none
  | .dropListener p =>
    if w.phase p = .closing then some { w.set p .releasing with socket := none } else none
  | .release p =>
    if w.phase p = .releasing then some { w.set p .absent with lock := none } else none
  | .kill p =>
    if w.phase p = .absent then none
    else some { w.set p .absent with lock := if w.lock = some p then none else w.lock }

def lifecycle : System World where
  init := World.Initial
  step w w' := ∃ event, w.perform event = some w'

/-! ## What the lock protects -/

/-- What the shared things look like to a process in a phase. -/
structure Fits (w : World) (p : Nat) (phase : Phase) : Prop where
  lock : phase.holds = true ↔ w.lock = some p
  socket : phase.listens = true → w.socket = some p
  unlinked : phase = .unlinked → w.socket = none
  registry : phase.registered = true → w.registry = some p

def World.Sound (w : World) : Prop := ∀ p, Fits w p (w.phase p)

variable {w w' : World} {p q : Nat}

/-- A process without the lock sees nothing of the others. -/
theorem Fits.idle {phase : Phase} (hphase : phase.holds = false) (hlock : w.lock ≠ some p) :
    Fits w p phase := by
  have hneither : phase = .absent ∨ phase = .started := by
    cases phase <;> simp_all [Phase.holds]
  rcases hneither with rfl | rfl
  · exact ⟨by simp [Phase.holds, hlock], by simp [Phase.listens], by simp, by simp [Phase.registered]⟩
  · exact ⟨by simp [Phase.holds, hlock], by simp [Phase.listens], by simp, by simp [Phase.registered]⟩

/-- While `p` has the lock, all other processes are idle, whatever `p` does to the files. -/
theorem World.Sound.update (h : w.Sound) (phase : Phase) (hp : Fits w' p phase)
    (hphase : w'.phase = Function.update w.phase p phase)
    (hlock : ∀ q, q ≠ p → (w.lock = some q ↔ w'.lock = some q))
    (hfiles : w.lock = some p ∨ w'.socket = w.socket ∧ w'.registry = w.registry) : w'.Sound := by
  intro q
  by_cases hq : q = p
  · subst hq
    rw [hphase, Function.update_self]
    exact hp
  · rw [hphase, Function.update_of_ne hq]
    have hold := h q
    rcases hfiles with hown | ⟨hsocket, hregistry⟩
    · have hnot : w.lock ≠ some q := by
        rw [hown]
        simpa using Ne.symm hq
      have hidle : (w.phase q).holds = false := by
        rw [← Bool.not_eq_true, hold.lock]
        exact hnot
      exact .idle hidle (fun hw' => hnot ((hlock q hq).2 hw'))
    · exact ⟨hold.lock.trans (hlock q hq), hsocket ▸ hold.socket, hsocket ▸ hold.unlinked,
        hregistry ▸ hold.registry⟩

/-- The holder goes on to a phase in which it still holds the lock. -/
theorem World.Sound.advance (h : w.Sound) {phase : Phase} (next : Phase) (hphase : w.phase p = phase)
    (hholds : phase.holds = true) (hnext : next.holds = true) {socket registry : Option Nat}
    (hsocket : next.listens = true → socket = some p) (hunlinked : next = .unlinked → socket = none)
    (hregistry : next.registered = true → registry = some p) :
    World.Sound { w.set p next with socket := socket, registry := registry } := by
  have hlock : w.lock = some p := by
    rw [← (h p).lock, hphase]
    exact hholds
  exact h.update next ⟨by simp [hnext, hlock, World.set], hsocket, hunlinked, hregistry⟩ rfl
    (fun q _ => Iff.rfl) (.inl hlock)

theorem World.Sound.step {event : Event} (h : w.Sound) (hstep : w.perform event = some w') :
    w'.Sound := by
  cases event with
  | spawn p =>
    simp only [World.perform] at hstep
    split at hstep
    · next habsent =>
      cases hstep
      have hlock : w.lock ≠ some p := by
        intro hheld
        have hholds := (h p).lock.2 hheld
        simp [habsent, Phase.holds] at hholds
      exact h.update .started (.idle rfl hlock) rfl (fun q _ => Iff.rfl) (.inr ⟨rfl, rfl⟩)
    · cases hstep
  | acquire p =>
    simp only [World.perform] at hstep
    split at hstep
    · next hstarted =>
      have hlock : w.lock ≠ some p := by
        intro hheld
        have hholds := (h p).lock.2 hheld
        simp [hstarted, Phase.holds] at hholds
      split at hstep
      · next hfree =>
        cases hstep
        refine h.update .locked ⟨by simp [Phase.holds], by simp [Phase.listens], by simp,
          by simp [Phase.registered]⟩ rfl (fun q hq => ?_) (.inr ⟨rfl, rfl⟩)
        simp [hfree, Ne.symm hq]
      · cases hstep
        exact h.update .absent (.idle rfl hlock) rfl (fun q _ => Iff.rfl) (.inr ⟨rfl, rfl⟩)
    · cases hstep
  | unlink p =>
    simp only [World.perform] at hstep
    split at hstep
    · next hphase =>
      cases hstep
      exact h.advance .unlinked hphase rfl rfl (by simp [Phase.listens]) (fun _ => rfl)
        (by simp [Phase.registered])
    · cases hstep
  | bind p =>
    simp only [World.perform] at hstep
    split at hstep
    · next hphase =>
      split at hstep
      · cases hstep
        exact h.advance .bound hphase rfl rfl (fun _ => rfl) (by simp) (by simp [Phase.registered])
      · cases hstep
        exact h.advance .releasing hphase rfl rfl (by simp [Phase.listens]) (by simp) (by simp [Phase.registered])
    · cases hstep
  | register p =>
    simp only [World.perform] at hstep
    split at hstep
    · next hphase =>
      cases hstep
      have hsocket := (h p).socket (by rw [hphase]; rfl)
      exact h.advance .serving hphase rfl rfl (fun _ => hsocket) (by simp) (fun _ => rfl)
    · cases hstep
  | fails p written =>
    simp only [World.perform] at hstep
    split at hstep
    · next hphase =>
      cases hstep
      exact h.advance .releasing hphase rfl rfl (by simp [Phase.listens]) (by simp) (by simp [Phase.registered])
    · next hphase =>
      cases hstep
      exact h.advance .releasing hphase rfl rfl (by simp [Phase.listens]) (by simp) (by simp [Phase.registered])
    · next hphase =>
      cases hstep
      have hsocket := (h p).socket (by rw [hphase]; rfl)
      exact h.advance .closing hphase rfl rfl (fun _ => hsocket) (by simp) (by simp [Phase.registered])
    · cases hstep
  | stop p =>
    simp only [World.perform] at hstep
    split at hstep
    · next hphase =>
      cases hstep
      have hsocket := (h p).socket (by rw [hphase]; rfl)
      have hregistry := (h p).registry (by rw [hphase]; rfl)
      exact h.advance .draining hphase rfl rfl (fun _ => hsocket) (by simp) (fun _ => hregistry)
    · cases hstep
  | unregister p =>
    simp only [World.perform] at hstep
    split at hstep
    · next hphase =>
      cases hstep
      have hsocket := (h p).socket (by rw [hphase]; rfl)
      exact h.advance .closing hphase rfl rfl (fun _ => hsocket) (by simp) (by simp [Phase.registered])
    · cases hstep
  | dropListener p =>
    simp only [World.perform] at hstep
    split at hstep
    · next hphase =>
      cases hstep
      exact h.advance .releasing hphase rfl rfl (by simp [Phase.listens]) (by simp) (by simp [Phase.registered])
    · cases hstep
  | release p =>
    simp only [World.perform] at hstep
    split at hstep
    · next hphase =>
      cases hstep
      have hlock : w.lock = some p := by
        rw [← (h p).lock, hphase]
        rfl
      refine h.update .absent (.idle rfl (by simp)) rfl (fun q hq => ?_) (.inl hlock)
      simp [hlock, Ne.symm hq]
    · cases hstep
  | kill p =>
    simp only [World.perform] at hstep
    split at hstep
    · cases hstep
    · cases hstep
      refine h.update .absent (.idle rfl ?_) rfl (fun q hq => ?_) (.inr ⟨rfl, rfl⟩)
      · by_cases hlock : w.lock = some p <;> simp [hlock]
      · by_cases hlock : w.lock = some p
        · simp [hlock, Ne.symm hq]
        · simp [hlock]

theorem sound_of_reachable (h : lifecycle.Reachable w) : w.Sound := by
  refine h.invariant ?_ ?_
  · rintro w ⟨habsent, hlock⟩ p
    rw [habsent]
    exact .idle rfl (by simp [hlock])
  · rintro w w' - hsound ⟨event, hstep⟩
    exact hsound.step hstep

/-! ## What a command finds -/

/-- What `local_ipc::connect` finds: no file, a file without a listener, or a process. -/
inductive Connect where
  | notFound
  | refused
  | reached (p : Nat)

def World.connect (w : World) : Connect :=
  match w.socket with
  | none => .notFound
  | some p => if (w.phase p).listens then .reached p else .refused

/-- **One daemon at a time, and it can be reached.** However daemons are started, stopped and killed, at
    most one is past its lock. A command that connects reaches the one that listens, whenever there is
    one: no daemon that comes or goes removes its socket file or its registry entry, and none finds its
    address in use. -/
theorem one_daemon_at_a_time (h : lifecycle.Reachable w) :
    (∀ p q, (w.phase p).holds = true → (w.phase q).holds = true → p = q) ∧
      (∀ p, w.connect = .reached p ↔ (w.phase p).listens = true) ∧
      (∀ p, (w.phase p).registered = true → w.registry = some p) ∧
      (∀ p, w.phase p = .unlinked → w.socket = none) := by
  have hsound := sound_of_reachable h
  refine ⟨?_, ?_, fun p => (hsound p).registry, fun p => (hsound p).unlinked⟩
  · intro p q hp hq
    exact Option.some.inj (((hsound p).lock.1 hp).symm.trans ((hsound q).lock.1 hq))
  · intro p
    unfold World.connect
    constructor
    · intro hreached
      split at hreached
      · cases hreached
      · split at hreached
        · next hlistens =>
          cases hreached
          exact hlistens
        · cases hreached
    · intro hlistens
      simp [(hsound p).socket hlistens, hlistens]

/-- Two commands start a daemon, the first one is killed, and the second one takes over what is left. -/
def takeover : List Event :=
  [.spawn 1, .spawn 2, .acquire 1, .unlink 1, .bind 1, .register 1, .kill 1, .acquire 2, .unlink 2,
    .bind 2, .register 2, .spawn 1, .acquire 1]

theorem takeover_has_one_daemon : ∃ w, lifecycle.Reachable w ∧ w.phase 1 = .absent ∧
    w.phase 2 = .serving ∧ w.connect = .reached 2 := by
  obtain ⟨w, hr, hcheck⟩ := exists_reachable (S := lifecycle)
    (s := ⟨fun _ => .absent, none, none, none⟩) (fun a b event hperform => ⟨event, hperform⟩)
    ⟨fun _ => rfl, rfl⟩
    (show (runAll World.perform ⟨fun _ => .absent, none, none, none⟩ takeover).any (fun w =>
      decide (w.phase 1 = .absent ∧ w.phase 2 = .serving)) = true by decide +kernel)
  obtain ⟨hfirst, hsecond⟩ := of_decide_eq_true hcheck
  exact ⟨w, hr, hfirst, hsecond, ((one_daemon_at_a_time hr).2.1 2).2 (by rw [hsecond]; rfl)⟩

end AgentScale.Client.Lifecycle
