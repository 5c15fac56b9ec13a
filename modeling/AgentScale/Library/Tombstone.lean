import AgentScale.Library.Transition
import AgentScale.Library.Keyed
import Mathlib.Data.Set.Insert
import Mathlib.Order.Lattice
import Mathlib.Tactic.Common

set_option autoImplicit false

/-! # Tombstones replicated by versioned updates

An issuer grants credentials with a generation and an expiry, extends and removes the registrations
behind them, and keeps for every key one tombstone that outlives all credentials of the removed
generations. A replica asks for what is newer than the version it has and overlays the answer on what
it holds. Answers may be lost, delayed, repeated or overtaken; both sides drop tombstones once they
have expired.

The two results: once the replica has reached the version of a removal, its tombstones cover every
unexpired credential of the removed registration (`Sound.replicaAccounts`), and an answer to the
replica's current version never lowers the generation of a tombstone it still needs
(`MessageSound.forward`). -/

namespace Tombstone

open Transition

/-- What a key has been granted. -/
@[ext] structure Credential (K T : Type*) where
  key : K
  generation : Nat
  expiresAt : T

/-- A tombstone: it revokes the generations up to `generation`, until `expiresAt`. -/
@[ext] structure Entry (T : Type*) where
  generation : Nat
  expiresAt : T
  revision : Nat

/-- The removal of a registration, published under a revision. -/
@[ext] structure Removal (K : Type*) where
  key : K
  generation : Nat
  revision : Nat

/-- At most one tombstone per key. -/
abbrev Table (K T : Type*) := K → Option (Entry T)

variable {K T : Type*}

/-! ## Tables -/

namespace Table

/-- The tombstones written after a revision. -/
def since (known : Nat) (t : Table K T) : Table K T :=
  fun k => (t k).filter (fun e => decide (known < e.revision))

/-- The tombstones of `new`, and those of `old` for the other keys. -/
def overlay (new old : Table K T) : Table K T := fun k => (new k).or (old k)

theorem since_eq_some {t : Table K T} {known : Nat} {k : K} {e : Entry T} :
    t.since known k = some e ↔ t k = some e ∧ known < e.revision := by
  simp [since, Option.filter_eq_some_iff]

theorem overlay_eq_some {t u : Table K T} {k : K} {e : Entry T} :
    t.overlay u k = some e ↔ t k = some e ∨ (t k = none ∧ u k = some e) := by
  simp [overlay, Option.or_eq_some_iff]

/-- One tombstone written over whatever its key had. -/
theorem update_eq_some [DecidableEq K] {t : Table K T} {k k' : K} {e e' : Entry T} :
    Function.update t k' (some e') k = some e ↔ (k = k' ∧ e = e') ∨ (k ≠ k' ∧ t k = some e) := by
  by_cases hk : k = k'
  · subst hk
    simp [eq_comm]
  · simp [hk]

variable [LinearOrder T]

/-- The tombstones that have not expired. -/
def active (now : T) (t : Table K T) : Table K T :=
  fun k => (t k).filter (fun e => decide (now < e.expiresAt))

/-- The credentials of a removed registration that expire at the given time are dead: expired, or
    under a tombstone at least as new as the removal. -/
def Covers (t : Table K T) (now : T) (r : Removal K) (expiresAt : T) : Prop :=
  expiresAt ≤ now ∨ ∃ e, t r.key = some e ∧ r.generation ≤ e.generation ∧
    expiresAt ≤ e.expiresAt ∧ r.revision ≤ e.revision

/-- Every unexpired tombstone of `t` has a counterpart in `u` that revokes at least as much. -/
def Below (now : T) (t u : Table K T) : Prop :=
  ∀ k e, t k = some e → now < e.expiresAt →
    ∃ e', u k = some e' ∧ e.generation ≤ e'.generation ∧ e.expiresAt ≤ e'.expiresAt

variable {t u : Table K T} {now now' : T} {k : K} {e : Entry T} {r : Removal K} {expiresAt : T}

theorem active_eq_some : t.active now k = some e ↔ t k = some e ∧ now < e.expiresAt := by
  simp [active, Option.filter_eq_some_iff]

theorem Covers.later (h : t.Covers now r expiresAt) (hle : now ≤ now') :
    t.Covers now' r expiresAt :=
  h.imp_left (fun hexp => hexp.trans hle)

/-- Dropping expired tombstones uncovers nothing. -/
theorem Covers.active (h : t.Covers now r expiresAt) : (t.active now).Covers now r expiresAt := by
  rcases h with hexp | ⟨e, he, hgen, hle, hrev⟩
  · exact .inl hexp
  · rcases le_or_gt expiresAt now with hexp | hlive
    · exact .inl hexp
    · exact .inr ⟨e, active_eq_some.2 ⟨he, hlive.trans_le hle⟩, hgen, hle, hrev⟩

theorem Below.refl (now : T) (t : Table K T) : Below now t t :=
  fun _ e he _ => ⟨e, he, le_rfl, le_rfl⟩

theorem Below.trans {v : Table K T} (h : Below now t u) (h' : Below now u v) : Below now t v := by
  intro k e he hlive
  obtain ⟨e', he', hgen, hle⟩ := h k e he hlive
  obtain ⟨e'', he'', hgen', hle'⟩ := h' k e' he' (hlive.trans_le hle)
  exact ⟨e'', he'', hgen.trans hgen', hle.trans hle'⟩

theorem Below.later (h : Below now t u) (hle : now ≤ now') : Below now' t u :=
  fun k e he hlive => h k e he (hle.trans_lt hlive)

theorem below_active (now : T) (t : Table K T) : Below now t (t.active now) :=
  fun _ e he hlive => ⟨e, active_eq_some.2 ⟨he, hlive⟩, le_rfl, le_rfl⟩

theorem active_below (now : T) (t : Table K T) : Below now (t.active now) t :=
  fun _ e he _ => ⟨e, (active_eq_some.1 he).1, le_rfl, le_rfl⟩

theorem since_below (known : Nat) (now : T) (t : Table K T) : Below now (t.since known) t :=
  fun _ e he _ => ⟨e, (since_eq_some.1 he).1, le_rfl, le_rfl⟩

/-! ### Tables stored as keyed lists -/

section OfList

variable {α β : Type*} [DecidableEq K]

def ofList (key : α → K) (entry : α → Entry T) (l : List α) : Table K T :=
  fun k => (Keyed.lookup key k l).map entry

variable {key : α → K} {entry : α → Entry T} {l l' : List α}

omit [LinearOrder T] in
theorem ofList_eq_some (h : Keyed.Distinct key l) :
    ofList key entry l k = some e ↔ ∃ a ∈ l, key a = k ∧ entry a = e := by
  simp only [ofList, Option.map_eq_some_iff, Keyed.lookup_eq_some h, and_assoc]

omit [LinearOrder T] in
theorem ofList_eq_none : ofList key entry l k = none ↔ ∀ a ∈ l, key a ≠ k := by
  simp only [ofList, Option.map_eq_none_iff, Keyed.lookup_eq_none]

omit [LinearOrder T] in
theorem ofList_perm (h : Keyed.Distinct key l) (hp : l.Perm l') :
    ofList key entry l = ofList key entry l' := by
  funext k
  simp only [ofList, Keyed.lookup_perm h hp]

omit [LinearOrder T] in
theorem ofList_map (key : α → K) (entry : α → Entry T) (f : β → α) (l : List β) :
    ofList key entry (l.map f) = ofList (fun b => key (f b)) (fun b => entry (f b)) l := by
  funext k
  simp [ofList, Keyed.lookup, List.find?_map, Function.comp_def]

omit [LinearOrder T] in
theorem ofList_filter (h : Keyed.Distinct key l) (p : Entry T → Bool) :
    ofList key entry (l.filter (fun a => p (entry a))) =
      fun k => (ofList key entry l k).filter p := by
  funext k
  simp only [ofList, Keyed.lookup_filter h]
  cases Keyed.lookup key k l with
  | none => rfl
  | some a => cases hp : p (entry a) <;> simp [Option.filter, hp]

theorem ofList_active (h : Keyed.Distinct key l) (now : T) :
    ofList key entry (l.filter (fun a => decide (now < (entry a).expiresAt))) =
      (ofList key entry l).active now :=
  ofList_filter h (fun e => decide (now < e.expiresAt))

omit [LinearOrder T] in
theorem ofList_since (h : Keyed.Distinct key l) (known : Nat) :
    ofList key entry (l.filter (fun a => decide (known < (entry a).revision))) =
      (ofList key entry l).since known :=
  ofList_filter h (fun e => decide (known < e.revision))

end OfList

end Table

variable [LinearOrder T]

/-! ## The issuer -/

structure Issuer (K T : Type*) where
  /-- The registrations, each with the validity of its newest credential. -/
  live : Set (Credential K T)
  /-- Every credential ever granted. -/
  granted : Set (Credential K T)
  /-- Every registration ever removed. -/
  removed : Set (Removal K)
  /-- The largest generation handed out. -/
  epoch : Nat
  revision : Nat
  table : Table K T

/-- The tombstone for a removed registration, merged with the one its key already has. -/
def bury (old : Option (Entry T)) (c : Credential K T) (revision : Nat) : Entry T :=
  match old with
  | some e => ⟨max e.generation c.generation, max e.expiresAt c.expiresAt, revision⟩
  | none => ⟨c.generation, c.expiresAt, revision⟩

inductive Issuer.Step [DecidableEq K] (now : T) : Issuer K T → Issuer K T → Prop
  | enrol (i : Issuer K T) (c : Credential K T) (fresh : i.epoch < c.generation) :
      Step now i { i with live := insert c i.live, epoch := c.generation }
  | extend (i : Issuer K T) (c : Credential K T) (expiresAt : T) (mem : c ∈ i.live)
      (later : c.expiresAt ≤ expiresAt) :
      Step now i { i with live := insert { c with expiresAt } (i.live \ {c}) }
  | grant (i : Issuer K T) (c : Credential K T) (mem : c ∈ i.live) :
      Step now i { i with granted := insert c i.granted }
  | remove (i : Issuer K T) (c : Credential K T) (mem : c ∈ i.live) :
      Step now i { i with
        live := i.live \ {c}
        removed := insert ⟨c.key, c.generation, i.revision + 1⟩ i.removed
        revision := i.revision + 1
        table := Function.update i.table c.key
          (some (bury (i.table c.key) c (i.revision + 1))) }
  | advance (i : Issuer K T) (revision : Nat) (le : i.revision ≤ revision) :
      Step now i { i with revision }
  | collect (i : Issuer K T) : Step now i { i with table := i.table.active now }

/-- The tombstones cover the granted credentials of the registrations removed up to a revision. -/
def Issuer.Accounts (i : Issuer K T) (t : Table K T) (now : T) (bound : Nat) : Prop :=
  ∀ r ∈ i.removed, r.revision ≤ bound → ∀ c ∈ i.granted, c.key = r.key →
    c.generation = r.generation → t.Covers now r c.expiresAt

/-- The invariant of the issuer. -/
structure Issuer.Sound (now : T) (i : Issuer K T) : Prop where
  live_le : ∀ c ∈ i.live, c.generation ≤ i.epoch
  granted_le : ∀ c ∈ i.granted, c.generation ≤ i.epoch
  removed_le : ∀ r ∈ i.removed, r.generation ≤ i.epoch ∧ r.revision ≤ i.revision
  live_unique : ∀ c ∈ i.live, ∀ d ∈ i.live, c.key = d.key → c.generation = d.generation → c = d
  live_not_removed : ∀ c ∈ i.live, ∀ r ∈ i.removed, c.key = r.key → c.generation ≠ r.generation
  granted_live : ∀ c ∈ i.granted, ∀ d ∈ i.live, c.key = d.key → c.generation = d.generation →
    c.expiresAt ≤ d.expiresAt
  table_revision : ∀ k e, i.table k = some e → e.revision ≤ i.revision
  accounts : i.Accounts i.table now i.revision

section Issuer

variable {i i' : Issuer K T} {now now' : T}

theorem bury_covers (old : Option (Entry T)) (c : Credential K T) (revision : Nat) :
    c.generation ≤ (bury old c revision).generation ∧
      c.expiresAt ≤ (bury old c revision).expiresAt ∧ (bury old c revision).revision = revision := by
  cases old with
  | none => exact ⟨le_rfl, le_rfl, rfl⟩
  | some e => exact ⟨le_max_right _ _, le_max_right _ _, rfl⟩

theorem bury_extends (e : Entry T) (c : Credential K T) (revision : Nat) :
    e.generation ≤ (bury (some e) c revision).generation ∧
      e.expiresAt ≤ (bury (some e) c revision).expiresAt :=
  ⟨le_max_left _ _, le_max_left _ _⟩

theorem Issuer.Sound.later (h : i.Sound now) (hle : now ≤ now') : i.Sound now' :=
  { h with accounts := fun r hr hb c hc hk hg => (h.accounts r hr hb c hc hk hg).later hle }

variable [DecidableEq K]

/-- A table with one tombstone renewed still covers what it covered. -/
theorem Table.Covers.bury {t : Table K T} {r : Removal K} {expiresAt : T}
    (h : t.Covers now r expiresAt) (c : Credential K T) {revision : Nat} (hrev : r.revision ≤ revision) :
    Covers (Function.update t c.key (some (bury (t c.key) c revision))) now r expiresAt := by
  refine h.imp_right ?_
  rintro ⟨e, he, hgen, hle, hr⟩
  by_cases hk : r.key = c.key
  · obtain ⟨hgen', hle'⟩ := bury_extends e c revision
    rw [← hk, he]
    refine ⟨_, update_eq_some.2 (.inl ⟨rfl, rfl⟩), hgen.trans hgen', hle.trans hle', ?_⟩
    exact (bury_covers (some e) c revision).2.2 ▸ hrev
  · exact ⟨e, update_eq_some.2 (.inr ⟨hk, he⟩), hgen, hle, hr⟩

/-- Every issuer step keeps the issuer's invariant. -/
theorem Issuer.Sound.step (h : i.Sound now) (hstep : Issuer.Step now i i') : i'.Sound now := by
  cases hstep with
  | enrol c fresh =>
    refine ⟨?_, ?_, ?_, ?_, ?_, ?_, h.table_revision, h.accounts⟩
    · rintro d (rfl | hd)
      · exact le_rfl
      · exact (h.live_le d hd).trans fresh.le
    · exact fun d hd => (h.granted_le d hd).trans fresh.le
    · exact fun r hr => ⟨(h.removed_le r hr).1.trans fresh.le, (h.removed_le r hr).2⟩
    · -- the new generation is above every other
      rintro d (rfl | hd) d' (rfl | hd') hk hg
      · rfl
      · exact absurd (h.live_le d' hd') (by omega)
      · exact absurd (h.live_le d hd) (by omega)
      · exact h.live_unique d hd d' hd' hk hg
    · rintro d (rfl | hd) r hr hk
      · have := (h.removed_le r hr).1
        omega
      · exact h.live_not_removed d hd r hr hk
    · rintro d hd d' (rfl | hd') hk hg
      · exact absurd (h.granted_le d hd) (by omega)
      · exact h.granted_live d hd d' hd' hk hg
  | extend c expiresAt mem later =>
    refine { h with live_le := ?_, live_unique := ?_, live_not_removed := ?_, granted_live := ?_ }
    · rintro d (rfl | ⟨hd, _⟩)
      · exact h.live_le c mem
      · exact h.live_le d hd
    · rintro d (rfl | ⟨hd, hdc⟩) d' (rfl | ⟨hd', hdc'⟩) hk hg
      · rfl
      · exact absurd (h.live_unique d' hd' c mem hk.symm hg.symm) hdc'
      · exact absurd (h.live_unique d hd c mem hk hg) hdc
      · exact h.live_unique d hd d' hd' hk hg
    · rintro d (rfl | ⟨hd, _⟩) r hr hk
      · exact h.live_not_removed c mem r hr hk
      · exact h.live_not_removed d hd r hr hk
    · rintro d hd d' (rfl | ⟨hd', _⟩) hk hg
      · exact (h.granted_live d hd c mem hk hg).trans later
      · exact h.granted_live d hd d' hd' hk hg
  | grant c mem =>
    refine { h with granted_le := ?_, granted_live := ?_, accounts := ?_ }
    · rintro d (rfl | hd)
      · exact h.live_le _ mem
      · exact h.granted_le d hd
    · rintro d (rfl | hd) d' hd' hk hg
      · exact (congrArg Credential.expiresAt (h.live_unique _ mem d' hd' hk hg)).le
      · exact h.granted_live d hd d' hd' hk hg
    · rintro r hr hb d (rfl | hd) hk hg
      · exact absurd hg (h.live_not_removed _ mem r hr hk)
      · exact h.accounts r hr hb d hd hk hg
  | remove c mem =>
    refine ⟨fun d hd => h.live_le d hd.1, h.granted_le, ?_, ?_, ?_, ?_, ?_, ?_⟩
    · rintro r (rfl | hr)
      · exact ⟨h.live_le c mem, le_rfl⟩
      · exact ⟨(h.removed_le r hr).1, (h.removed_le r hr).2.trans (Nat.le_succ _)⟩
    · exact fun d hd d' hd' => h.live_unique d hd.1 d' hd'.1
    · rintro d ⟨hd, hdc⟩ r (rfl | hr) hk
      · exact fun hg => hdc (h.live_unique d hd c mem hk hg)
      · exact h.live_not_removed d hd r hr hk
    · exact fun d hd d' hd' => h.granted_live d hd d' hd'.1
    · intro k e he
      rcases Table.update_eq_some.1 he with ⟨_, rfl⟩ | ⟨_, he⟩
      · exact (bury_covers _ c _).2.2.le
      · exact (h.table_revision k e he).trans (Nat.le_succ _)
    · rintro r (rfl | hr) hb d hd hk hg
      · -- the tombstone outlives every credential of the generation
        obtain ⟨hgen, hle, hrev⟩ := bury_covers (i.table c.key) c (i.revision + 1)
        refine .inr ⟨_, Table.update_eq_some.2 (.inl ⟨rfl, rfl⟩), hgen, ?_, hrev.ge⟩
        exact (h.granted_live d hd c mem hk hg).trans hle
      · have hold := h.accounts r hr (h.removed_le r hr).2 d hd hk hg
        exact hold.bury c hb
  | advance revision le =>
    refine { h with removed_le := ?_, table_revision := ?_, accounts := ?_ }
    · exact fun r hr => ⟨(h.removed_le r hr).1, (h.removed_le r hr).2.trans le⟩
    · exact fun k e he => (h.table_revision k e he).trans le
    · exact fun r hr _ => h.accounts r hr (h.removed_le r hr).2
  | collect =>
    refine { h with table_revision := ?_, accounts := ?_ }
    · exact fun k e he => h.table_revision k e (Table.active_eq_some.1 he).1
    · exact fun r hr hb c hc hk hg => (h.accounts r hr hb c hc hk hg).active

/-- What an issuer step means to everyone else: revisions grow, removals are published under newer
    ones, nothing is granted to a removed registration, and no needed tombstone is weakened. -/
structure Issuer.Advances (now : T) (i i' : Issuer K T) : Prop where
  revision : i.revision ≤ i'.revision
  removed : ∀ r ∈ i'.removed, r ∈ i.removed ∨ i.revision < r.revision
  granted : ∀ r ∈ i.removed, ∀ c ∈ i'.granted, c.key = r.key → c.generation = r.generation →
    c ∈ i.granted
  table : Table.Below now i.table i'.table

theorem Issuer.Sound.advances (h : i.Sound now) (hstep : Issuer.Step now i i') :
    Issuer.Advances now i i' := by
  cases hstep with
  | enrol | extend =>
    exact ⟨le_rfl, fun r hr => .inl hr, fun _ _ c hc _ _ => hc, .refl now _⟩
  | grant c mem =>
    refine ⟨le_rfl, fun r hr => .inl hr, ?_, .refl now _⟩
    rintro r hr d (rfl | hd) hk hg
    · exact absurd hg (h.live_not_removed _ mem r hr hk)
    · exact hd
  | remove c mem =>
    refine ⟨Nat.le_succ _, ?_, fun _ _ d hd _ _ => hd, ?_⟩
    · rintro r (rfl | hr)
      · exact .inr (Nat.lt_succ_self _)
      · exact .inl hr
    · intro k e he _
      by_cases hk : k = c.key
      · refine ⟨_, Table.update_eq_some.2 (.inl ⟨hk, rfl⟩), ?_⟩
        rw [← hk, he]
        exact bury_extends e c _
      · exact ⟨e, Table.update_eq_some.2 (.inr ⟨hk, he⟩), le_rfl, le_rfl⟩
  | advance revision le => exact ⟨le, fun r hr => .inl hr, fun _ _ c hc _ _ => hc, .refl now _⟩
  | collect =>
    exact ⟨le_rfl, fun r hr => .inl hr, fun _ _ c hc _ _ => hc, Table.below_active now _⟩

end Issuer

/-! ## The replica and its messages -/

structure Replica (K T : Type*) where
  version : Nat
  seen : Table K T

/-- An answer to a replica that knows everything up to `known`. -/
structure Message (K T : Type*) where
  known : Nat
  version : Nat
  entries : Table K T

structure State (K T : Type*) where
  clock : T
  issuer : Issuer K T
  replica : Replica K T
  /-- The versions the replica has asked with. -/
  requests : Set Nat
  /-- Every answer sent; each may arrive any number of times. -/
  messages : Set (Message K T)

def Issuer.answer (i : Issuer K T) (known : Nat) : Message K T :=
  ⟨known, i.revision, i.table.since known⟩

/-- The replica after it has taken an answer. -/
def Replica.merge (p : Replica K T) (now : T) (m : Message K T) : Replica K T :=
  ⟨m.version, m.entries.overlay (p.seen.active now)⟩

inductive State.Step [DecidableEq K] : State K T → State K T → Prop
  | tick (s : State K T) (now : T) (later : s.clock ≤ now) : Step s { s with clock := now }
  | issuer (s : State K T) (i : Issuer K T) (step : Issuer.Step s.clock s.issuer i) :
      Step s { s with issuer := i }
  | request (s : State K T) : Step s { s with requests := insert s.replica.version s.requests }
  | answer (s : State K T) (known : Nat) (mem : known ∈ s.requests) :
      Step s { s with messages := insert (s.issuer.answer known) s.messages }
  | deliver (s : State K T) (m : Message K T) (mem : m ∈ s.messages)
      (newer : s.replica.version < m.version) :
      Step s { s with replica := s.replica.merge s.clock m }
  | prune (s : State K T) :
      Step s { s with replica := { s.replica with seen := s.replica.seen.active s.clock } }

/-- What holds of a message from the moment it is sent. -/
structure MessageSound (s : State K T) (m : Message K T) : Prop where
  known_le : m.known ≤ s.replica.version
  version_le : m.version ≤ s.issuer.revision
  below : Table.Below s.clock m.entries s.issuer.table
  /-- A removal up to the message's version is covered by the message, or the replica had it before it
      asked and the message does not touch its key. -/
  accounts : ∀ r ∈ s.issuer.removed, r.revision ≤ m.version → ∀ c ∈ s.issuer.granted,
    c.key = r.key → c.generation = r.generation →
    m.entries.Covers s.clock r c.expiresAt ∨ (m.entries r.key = none ∧ r.revision ≤ m.known)
  /-- The answer to the current version lowers no generation. -/
  forward : m.known = s.replica.version → ∀ k e e', s.replica.seen k = some e →
    s.clock < e.expiresAt → m.entries k = some e' → e.generation ≤ e'.generation

/-- The invariant of the whole system. -/
structure Sound (s : State K T) : Prop where
  issuer : s.issuer.Sound s.clock
  version_le : s.replica.version ≤ s.issuer.revision
  requests_le : ∀ n ∈ s.requests, n ≤ s.replica.version
  below : Table.Below s.clock s.replica.seen s.issuer.table
  replicaAccounts : s.issuer.Accounts s.replica.seen s.clock s.replica.version
  messages : ∀ m ∈ s.messages, MessageSound s m

variable {s s' : State K T}

theorem Issuer.Accounts.advances {i i' : Issuer K T} {t : Table K T} {now : T} {bound : Nat}
    (h : i.Accounts t now bound) (ha : Issuer.Advances now i i') (hb : bound ≤ i.revision) :
    i'.Accounts t now bound := by
  intro r hr hrb c hc hk hg
  rcases ha.removed r hr with hold | hnew
  · exact h r hold hrb c (ha.granted r hold c hc hk hg) hk hg
  · exact absurd hrb (by omega)

theorem MessageSound.advances {i' : Issuer K T} {m : Message K T} (h : MessageSound s m)
    (ha : Issuer.Advances s.clock s.issuer i') : MessageSound { s with issuer := i' } m where
  __ := h
  version_le := h.version_le.trans ha.revision
  below := h.below.trans ha.table
  accounts := by
    intro r hr hrb c hc hk hg
    have hversion := h.version_le
    rcases ha.removed r hr with hold | hnew
    · exact h.accounts r hold hrb c (ha.granted r hold c hc hk hg) hk hg
    · exact absurd hrb (by omega)

theorem Sound.answer (h : Sound s) {known : Nat} (hmem : known ∈ s.requests) :
    MessageSound s (s.issuer.answer known) where
  known_le := h.requests_le known hmem
  version_le := le_rfl
  below := Table.since_below known s.clock s.issuer.table
  accounts := by
    intro r hr hrb c hc hk hg
    rcases h.issuer.accounts r hr hrb c hc hk hg with hexp | ⟨e, he, hgen, hle, hrev⟩
    · exact .inl (.inl hexp)
    · -- the tombstone that covers the removal is in the answer unless it is already known
      by_cases hknown : known < e.revision
      · exact .inl (.inr ⟨e, Table.since_eq_some.2 ⟨he, hknown⟩, hgen, hle, hrev⟩)
      · refine .inr ⟨?_, hrev.trans (not_lt.1 hknown)⟩
        rw [Option.eq_none_iff_forall_ne_some]
        intro e' he'
        obtain ⟨he', hlt⟩ := Table.since_eq_some.1 he'
        rw [he] at he'
        exact hknown (Option.some.inj he' ▸ hlt)
  forward := by
    intro _ k e e' he hlive he'
    obtain ⟨e'', he'', hgen, _⟩ := h.below k e he hlive
    rw [(Table.since_eq_some.1 he').1] at he''
    exact Option.some.inj he'' ▸ hgen

/-- Taking a newer message extends what the replica covers to the message's version. -/
theorem Sound.merge_accounts (h : Sound s) {m : Message K T} (hm : MessageSound s m) :
    s.issuer.Accounts (s.replica.merge s.clock m).seen s.clock m.version := by
  intro r hr hrb c hc hk hg
  rcases hm.accounts r hr hrb c hc hk hg with (hexp | ⟨e, he, hcov⟩) | ⟨hnone, hknown⟩
  · exact .inl hexp
  · exact .inr ⟨e, Table.overlay_eq_some.2 (.inl he), hcov⟩
  · have hseen := (h.replicaAccounts r hr (hknown.trans hm.known_le) c hc hk hg).active
    refine hseen.imp_right ?_
    rintro ⟨e, he, hcov⟩
    exact ⟨e, Table.overlay_eq_some.2 (.inr ⟨hnone, he⟩), hcov⟩

/-- **One step.** Every step of the system keeps the invariant. -/
theorem Sound.step [DecidableEq K] (h : Sound s) (hstep : State.Step s s') : Sound s' := by
  cases hstep with
  | tick now later =>
    refine ⟨h.issuer.later later, h.version_le, h.requests_le, h.below.later later, ?_, ?_⟩
    · exact fun r hr hb c hc hk hg => (h.replicaAccounts r hr hb c hc hk hg).later later
    · intro m hm
      have hsound := h.messages m hm
      refine { hsound with below := hsound.below.later later, accounts := ?_, forward := ?_ }
      · exact fun r hr hb c hc hk hg =>
          (hsound.accounts r hr hb c hc hk hg).imp_left (fun hcov => hcov.later later)
      · exact fun hk k e e' he hlive => hsound.forward hk k e e' he (later.trans_lt hlive)
  | issuer i step =>
    have ha := h.issuer.advances step
    exact ⟨h.issuer.step step, h.version_le.trans ha.revision, h.requests_le,
      h.below.trans ha.table, h.replicaAccounts.advances ha h.version_le,
      fun m hm => (h.messages m hm).advances ha⟩
  | request =>
    refine { h with requests_le := ?_, messages := fun m hm => { h.messages m hm with } }
    rintro n (rfl | hn)
    · exact le_rfl
    · exact h.requests_le n hn
  | answer known mem =>
    refine { h with messages := ?_ }
    rintro m (rfl | hm)
    · exact { h.answer mem with }
    · exact { h.messages m hm with }
  | deliver m mem newer =>
    have hm := h.messages m mem
    refine ⟨h.issuer, hm.version_le, fun n hn => (h.requests_le n hn).trans newer.le, ?_,
      h.merge_accounts hm, ?_⟩
    · intro k e he hlive
      rcases Table.overlay_eq_some.1 he with he | ⟨_, he⟩
      · exact hm.below k e he hlive
      · exact h.below k e (Table.active_eq_some.1 he).1 hlive
    · intro m' hm'
      have hsound := h.messages m' hm'
      refine { hsound with known_le := hsound.known_le.trans newer.le, forward := ?_ }
      -- older messages no longer answer the current version
      intro hknown
      have hold : m.version ≤ s.replica.version := hknown.symm.le.trans hsound.known_le
      exact absurd hold (not_le.2 newer)
  | prune =>
    refine { h with
      below := (Table.active_below _ _).trans h.below, replicaAccounts := ?_, messages := ?_ }
    · exact fun r hr hb c hc hk hg => (h.replicaAccounts r hr hb c hc hk hg).active
    · intro m hm
      have hsound := h.messages m hm
      refine { hsound with forward := ?_ }
      exact fun hk k e e' he hlive =>
        hsound.forward hk k e e' (Table.active_eq_some.1 he).1 hlive

/-- What only grows: the clock, the record of removals, the messages sent and the version of the
    replica. -/
structure State.Grows (s s' : State K T) : Prop where
  clock : s.clock ≤ s'.clock
  removed : s.issuer.removed ⊆ s'.issuer.removed
  messages : s.messages ⊆ s'.messages
  version : s.replica.version ≤ s'.replica.version

theorem Issuer.Step.removed_subset [DecidableEq K] {i i' : Issuer K T} {now : T}
    (h : Issuer.Step now i i') : i.removed ⊆ i'.removed := by
  cases h with
  | enrol | extend | grant | advance | collect => exact le_rfl
  | remove c mem => exact Set.subset_insert _ _

theorem State.Step.grows [DecidableEq K] (h : State.Step s s') : State.Grows s s' := by
  cases h with
  | tick now later => exact ⟨later, le_rfl, le_rfl, le_rfl⟩
  | issuer i step => exact ⟨le_rfl, step.removed_subset, le_rfl, le_rfl⟩
  | request | prune => exact ⟨le_rfl, le_rfl, le_rfl, le_rfl⟩
  | answer known mem => exact ⟨le_rfl, le_rfl, Set.subset_insert _ _, le_rfl⟩
  | deliver m mem newer => exact ⟨le_rfl, le_rfl, le_rfl, newer.le⟩

/-- Nothing has happened yet. -/
def State.Initial (s : State K T) : Prop :=
  s.issuer.live = ∅ ∧ s.issuer.granted = ∅ ∧ s.issuer.removed = ∅ ∧
    s.issuer.table = (fun _ => none) ∧ s.replica.version ≤ s.issuer.revision ∧
    s.replica.seen = (fun _ => none) ∧ s.requests = ∅ ∧ s.messages = ∅

/-- All runs of an issuer and a replica. -/
def system (K T : Type*) [DecidableEq K] [LinearOrder T] : System (State K T) where
  init := State.Initial
  step := State.Step

theorem State.Initial.sound (h : s.Initial) : Sound s := by
  obtain ⟨hlive, hgranted, hremoved, htable, hversion, hseen, hrequests, hmessages⟩ := h
  refine ⟨?_, hversion, by simp [hrequests], ?_, ?_, by simp [hmessages]⟩
  · constructor <;> simp [Issuer.Accounts, hlive, hgranted, hremoved, htable]
  · intro k e he
    exact absurd he (by simp [hseen])
  · intro r hr
    exact absurd hr (by simp [hremoved])

/-- **Every run.** The invariant holds in every reachable state. -/
theorem sound_of_reachable [DecidableEq K] (h : (system K T).Reachable s) : Sound s :=
  h.invariant (fun _ hs => hs.sound) (fun _ _ _ hs hstep => hs.step hstep)

theorem grows_of_steps [DecidableEq K] (h : (system K T).Steps s s') : State.Grows s s' := by
  induction h with
  | refl => exact ⟨le_rfl, le_rfl, le_rfl, le_rfl⟩
  | tail _ hlast ih =>
    have hstep := State.Step.grows hlast
    exact ⟨ih.clock.trans hstep.clock, ih.removed.trans hstep.removed,
      ih.messages.trans hstep.messages, ih.version.trans hstep.version⟩

end Tombstone
