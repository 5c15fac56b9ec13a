import AgentScale.Library.Checked
import AgentScale.Library.Locked

set_option autoImplicit false

/-! # The identity of a node

`load_or_create_secret`: any number of processes load the Ed25519 key of one path, and the first of them
creates it. They hold a lock on a file beside it; the key is written to a temporary file that is then given
its name, which fails if the name exists. A call that fails to write, or whose process dies, is given up at
that point. -/

namespace AgentScale.Core

open Checked Locked Transition

/-- The 32 bytes of a secret key. -/
structure Secret where
  bytes : List UInt8
  length_eq : bytes.length = 32
deriving DecidableEq

/-- What is at the path. -/
inductive KeyFile where
  | absent
  | unreadable (error : String)
  | bytes (content : List UInt8)
deriving DecidableEq

/-- The error of `read_secret`, as far as `load_or_create_secret` tells them apart. -/
inductive ReadError where
  | notFound
  | other (error : String)

variable (path : String)

def readSecret : KeyFile → Except ReadError Secret
  | .absent => .error .notFound
  | .unreadable error => .error (.other ("read identity " ++ path ++ ": " ++ error))
  | .bytes content =>
    if h : content.length = 32 then .ok ⟨content, h⟩
    else .error (.other ("invalid identity " ++ path ++ ": expected 32 bytes, got " ++
      toString content.length))

/-- `load_or_create_secret`, with the key that `SecretKey::generate` would return. -/
def loadOrCreateSecret (generated : Secret) (file : KeyFile) : Option KeyFile × Except String Secret :=
  match readSecret path file with
  | .ok key => (none, .ok key)
  | .error .notFound => (some (.bytes generated.bytes), .ok generated)
  | .error (.other error) => (none, .error error)

/-- The calls on one path. -/
def identityCalls : Calls KeyFile Secret (Except String Secret) where
  run := loadOrCreateSecret path
  exclusive _ := true
  stores_exclusive _ _ h := by cases h

variable {path} {generated key : Secret} {file : KeyFile}

/-- A call that succeeds leaves the key it returns. -/
theorem next_of_ok (h : (loadOrCreateSecret path generated file).2 = .ok key) :
    (identityCalls path).next file generated = .bytes key.bytes := by
  unfold Calls.next identityCalls
  simp only
  unfold loadOrCreateSecret at h ⊢
  cases file with
  | absent =>
    cases h
    rfl
  | unreadable error => cases h
  | bytes content =>
    simp only [readSecret] at h ⊢
    split at h
    · next hread =>
      cases h
      split at hread
      · cases hread
        rfl
      · cases hread
    · next hread => split at hread <;> cases hread
    · cases h

/-- What is there is not replaced. -/
theorem next_of_present (h : file ≠ .absent) (generated : Secret) :
    (identityCalls path).next file generated = file := by
  unfold Calls.next identityCalls loadOrCreateSecret
  cases file with
  | absent => exact absurd rfl h
  | unreadable error => rfl
  | bytes content =>
    simp only [readSecret]
    by_cases hlen : content.length = 32 <;> simp [hlen]

theorem replay_of_present (h : file ≠ .absent) (history : List Secret) :
    (identityCalls path).replay file history = file := by
  induction history with
  | nil => rfl
  | cons op history ih =>
    show (identityCalls path).replay ((identityCalls path).next file op) history = file
    rw [next_of_present h]
    exact ih

variable {ι : Type} [DecidableEq ι] {s : State ι KeyFile Secret (Except String Secret)}

/-- **A path has one identity.** However many processes load or create the key of one path, and wherever
    they fail or are killed, every call that succeeds returns the key that is in the file; a file that was
    there at the start, well formed or not, is never changed. -/
theorem identity_is_unique (h : (system (identityCalls path) ι file).Reachable s) :
    (∀ a ∈ s.answers, ∀ key, a.answer = .ok key → s.value = .bytes key.bytes) ∧
      (file ≠ .absent → s.value = file) := by
  have hlinear := linear_of_reachable h
  refine ⟨?_, ?_⟩
  · intro a ha key hkey
    have hfits := hlinear.answers a ha
    have hnext := next_of_ok (hfits.answer.symm.trans hkey)
    have hsplit : s.value = (identityCalls path).replay
        ((identityCalls path).replay file (s.history.take a.pos)) (s.history.drop a.pos) := by
      rw [hlinear.value, Calls.replay, Calls.replay, Calls.replay, ← List.foldl_append,
        List.take_append_drop]
    rw [hsplit]
    by_cases habsent : (identityCalls path).replay file (s.history.take a.pos) = .absent
    · -- the call has created the file
      have hstored : s.history[a.pos]? = some a.op := hfits.stored (by rw [habsent]; rfl)
      obtain ⟨hlt, hget⟩ := List.getElem?_eq_some_iff.1 hstored
      rw [List.drop_eq_getElem_cons hlt, hget]
      show (identityCalls path).replay ((identityCalls path).next _ a.op) _ = _
      rw [hnext]
      exact replay_of_present (by simp) _
    · rw [next_of_present habsent] at hnext
      rw [replay_of_present habsent, hnext]
  · intro hpresent
    rw [hlinear.value]
    exact replay_of_present hpresent s.history

/-- Two processes with different generated keys get the same one. -/
theorem identity_of_two_processes : ∃ (s : State Bool KeyFile Secret (Except String Secret))
    (first second : Secret), (system (identityCalls "agent.key") Bool .absent).Reachable s ∧
      first ≠ second ∧ s.answers.map (fun a => a.op) = [second, first] ∧
      ∀ a ∈ s.answers, a.answer = .ok first ∧ s.value = .bytes first.bytes := by
  have hinit : (system (identityCalls "agent.key") Bool .absent).Reachable
      ⟨.absent, fun _ => .idle, [], []⟩ := ⟨_, rfl, .refl⟩
  obtain ⟨t, ht, hstage, hvalue, _, hanswers⟩ := exists_answered hinit true
    ⟨List.replicate 32 1, rfl⟩ rfl (by rintro _ _ _ ⟨⟩)
  obtain ⟨u, hu, _, _, _, hanswers'⟩ := exists_answered ht false ⟨List.replicate 32 2, rfl⟩
    (by rw [hstage]) (by intro _ _ _ hholds; rw [hstage] at hholds; cases hholds)
  rw [hanswers, hvalue] at hanswers'
  have hall : ∀ a ∈ u.answers, a.answer = .ok ⟨List.replicate 32 1, rfl⟩ := by
    rw [hanswers']
    intro a ha
    rcases List.mem_cons.1 ha with rfl | ha
    · rfl
    · rw [List.mem_singleton.1 ha]
      rfl
  refine ⟨u, ⟨List.replicate 32 1, rfl⟩, ⟨List.replicate 32 2, rfl⟩, hu, by decide, ?_, ?_⟩
  · rw [hanswers']
    rfl
  · intro a ha
    exact ⟨hall a ha, (identity_is_unique hu).1 a ha _ (hall a ha)⟩

end AgentScale.Core
