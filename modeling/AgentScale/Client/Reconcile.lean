import AgentScale.Library.Checked

set_option autoImplicit false

/-! # Reconciling generated MCP entries

`mcp_sync::reconcile` compares what should be generated with what was generated before and with what a
client's configuration holds now, and decides which entries to write and which to remove. It refuses to
touch an entry it has not written itself.

The configurations of Claude and Codex differ in their format; an `Adapter` is what `reconcile` needs
to know of one. -/

namespace AgentScale.Client

open Checked

/-- `std::collections::BTreeMap` with text keys. -/
abbrev BTreeMap (β : Type) : Type := Std.ExtTreeMap String β compare

/-- What the two clients have in common: a name, the entry that is generated for a server of an edge,
    and a fingerprint of entries. -/
structure Adapter (Entry : Type) where
  client : String
  proxy : String → String → Entry
  fingerprint : Entry → String

inductive ReconcileAction where
  | put (name edge server : String)
  | remove (name : String)

/-- The entry an action is about. -/
def ReconcileAction.name : ReconcileAction → String
  | .put name _ _ => name
  | .remove name => name

section Source

variable (desired : BTreeMap (String × String)) (current : BTreeMap String)
  (desiredHash : String → String → String) (client : String)

/-- The removal of an entry that is owned and no longer desired, if it is there. -/
def removalOf (name previousHash : String) : Except String (List ReconcileAction) :=
  match current[name]? with
  | some currentHash => do
    ensure (currentHash = previousHash)
      (client ++ " MCP entry '" ++ name ++ "' was modified; refusing to remove it")
    return [.remove name]
  | none => return []

/-- The first loop of `reconcile`: what is owned and no longer desired. -/
def removeStale : List (String × String) → List ReconcileAction → BTreeMap String →
    Except String (List ReconcileAction × BTreeMap String)
  | [], actions, owned => .ok (actions, owned)
  | (name, previousHash) :: rest, actions, owned =>
    if name ∈ desired then removeStale rest actions owned
    else do
      let removal ← removalOf current client name previousHash
      removeStale rest (actions ++ removal) (owned.erase name)

/-- The second loop of `reconcile`: what is desired. -/
def putDesired : List (String × String × String) → List ReconcileAction → BTreeMap String →
    Except String (List ReconcileAction × BTreeMap String)
  | [], actions, owned => .ok (actions, owned)
  | (name, edge, server) :: rest, actions, owned =>
    let nextHash := desiredHash edge server
    let put := fun _ : Unit =>
      putDesired rest (actions ++ [.put name edge server]) (owned.insert name nextHash)
    match owned[name]?, current[name]? with
    | none, some _ => .error (client ++ " MCP entry '" ++ name ++
        "' already exists and is not managed by agent-scale")
    | some previousHash, some currentHash =>
      if currentHash ≠ previousHash then .error (client ++ " MCP entry '" ++ name ++
        "' was modified; refusing to overwrite it")
      else if previousHash = nextHash then putDesired rest actions owned
      else put ()
    | _, none => put ()

/-- The actions to take, and the entries that are owned afterwards. -/
def reconcile (owned : BTreeMap String) : Except String (List ReconcileAction × BTreeMap String) := do
  let (actions, owned) ← removeStale desired current client owned.toList [] owned
  putDesired current desiredHash client desired.toList actions owned

end Source

variable {Entry : Type} (A : Adapter Entry)

def Adapter.fingerprints (servers : BTreeMap Entry) : BTreeMap String :=
  servers.map (fun _ entry => A.fingerprint entry)

/-- The fingerprint of a generated entry. -/
def Adapter.desiredHash (edge server : String) : String := A.fingerprint (A.proxy edge server)

def Adapter.apply (servers : BTreeMap Entry) : ReconcileAction → BTreeMap Entry
  | .put name edge server => servers.insert name (A.proxy edge server)
  | .remove name => servers.erase name

/-- `reconcile` as `prepare_claude` and `prepare_codex` call it, followed by what they do with its
    actions: the new entries, and the entries that are owned afterwards. -/
def Adapter.prepare (desired : BTreeMap (String × String)) (owned : BTreeMap String)
    (servers : BTreeMap Entry) : Except String (BTreeMap Entry × BTreeMap String) := do
  let (actions, owned) ← reconcile desired (A.fingerprints servers) A.desiredHash A.client owned
  return (actions.foldl A.apply servers, owned)

/-! ## The first loop -/

section Loops

variable {desired : BTreeMap (String × String)} {current owned owned' : BTreeMap String}
  {desiredHash : String → String → String} {client e k : String}
  {actions actions' : List ReconcileAction}
variable {β : Type}

theorem getElem?_insert_eq (m : BTreeMap β) (name k : String) (v : β) :
    (m.insert name v)[k]? = if name = k then some v else m[k]? := by
  simp [Std.ExtTreeMap.getElem?_insert]

theorem getElem?_erase_eq (m : BTreeMap β) (name k : String) :
    (m.erase name)[k]? = if name = k then none else m[k]? := by
  simp [Std.ExtTreeMap.getElem?_erase]

theorem removalOf_ok {name previousHash : String} {removal : List ReconcileAction}
    (h : removalOf current client name previousHash = .ok removal) :
    (∀ hash, current[name]? = some hash → hash = previousHash) ∧
    ∀ action, action ∈ removal ↔ name ∈ current ∧ action = .remove name := by
  unfold removalOf at h
  cases hcurrent : current[name]? with
  | none =>
    rw [hcurrent] at h
    cases h
    simp [Std.ExtTreeMap.mem_iff_isSome_getElem?, hcurrent]
  | some hash =>
    rw [hcurrent] at h
    obtain ⟨_, hsame, h⟩ := of_bind h
    cases h
    obtain rfl := ensure_eq_ok.1 hsame
    simp [Std.ExtTreeMap.mem_iff_isSome_getElem?, hcurrent]

theorem removalOf_error {name previousHash : String}
    (h : removalOf current client name previousHash = .error e) :
    ∃ hash, current[name]? = some hash ∧ hash ≠ previousHash := by
  unfold removalOf at h
  cases hcurrent : current[name]? with
  | none => exact absurd h (by simp [hcurrent, pure, Except.pure])
  | some hash =>
    refine ⟨hash, rfl, fun hsame => ?_⟩
    rw [hcurrent] at h
    simp only [ensure_of hsame, ok_bind] at h
    exact absurd h (by simp [pure, Except.pure])

theorem removeStale_error {l : List (String × String)}
    (h : removeStale desired current client l actions owned = .error e) :
    ∃ entry ∈ l, entry.1 ∉ desired ∧ ∃ hash, current[entry.1]? = some hash ∧ hash ≠ entry.2 := by
  induction l generalizing actions owned with
  | nil => exact absurd h (by simp [removeStale])
  | cons entry rest ih =>
    obtain ⟨name, previousHash⟩ := entry
    have hlater : ∀ {actions owned}, removeStale desired current client rest actions owned = .error e →
        ∃ entry ∈ (name, previousHash) :: rest, entry.1 ∉ desired ∧
          ∃ hash, current[entry.1]? = some hash ∧ hash ≠ entry.2 := by
      intro actions owned h
      obtain ⟨entry, hmem, hconflict⟩ := ih h
      exact ⟨entry, List.mem_cons_of_mem _ hmem, hconflict⟩
    rw [removeStale] at h
    split at h
    · exact hlater h
    · next hstale =>
      cases hremoval : removalOf current client name previousHash with
      | error _ =>
        obtain ⟨hash, hconflict⟩ := removalOf_error hremoval
        exact ⟨_, List.mem_cons_self, hstale, hash, hconflict⟩
      | ok removal =>
        simp only [hremoval, ok_bind] at h
        exact hlater h

theorem removeStale_ok {l : List (String × String)}
    (h : removeStale desired current client l actions owned = .ok (actions', owned')) :
    (∀ entry ∈ l, entry.1 ∉ desired → ∀ hash, current[entry.1]? = some hash → hash = entry.2) ∧
    (∀ k, owned'[k]? = if k ∉ desired ∧ k ∈ l.map Prod.fst then none else owned[k]?) ∧
    ∀ action, action ∈ actions' ↔ action ∈ actions ∨
      ∃ entry ∈ l, entry.1 ∉ desired ∧ entry.1 ∈ current ∧ action = .remove entry.1 := by
  induction l generalizing actions owned with
  | nil =>
    cases h
    simp
  | cons entry rest ih =>
    obtain ⟨name, previousHash⟩ := entry
    rw [removeStale] at h
    split at h
    · next hdesired =>
      obtain ⟨hagree, howned, hactions⟩ := ih h
      refine ⟨?_, ?_, ?_⟩
      · rintro entry hmem hstale
        rcases List.mem_cons.1 hmem with rfl | hmem
        · exact absurd hdesired hstale
        · exact hagree entry hmem hstale
      · intro k
        rw [howned k]
        refine if_congr ?_ rfl rfl
        simp only [List.map_cons, List.mem_cons]
        refine and_congr_right (fun hk => ⟨.inr, fun hmem => hmem.resolve_left ?_⟩)
        rintro rfl
        exact hk hdesired
      · intro action
        simp [hactions action, hdesired]
    · next hstale =>
      obtain ⟨removal, hremoval, h⟩ := of_bind h
      obtain ⟨hagree, howned, hactions⟩ := ih h
      obtain ⟨hagree₁, hremoval⟩ := removalOf_ok hremoval
      refine ⟨?_, ?_, ?_⟩
      · intro entry hmem hstale' hash hhash
        rcases List.mem_cons.1 hmem with rfl | hmem
        · exact hagree₁ hash hhash
        · exact hagree entry hmem hstale' hash hhash
      · intro k
        rw [howned k, getElem?_erase_eq]
        by_cases hname : name = k
        · subst hname
          simp [hstale]
        · simp only [hname, if_false, List.map_cons, List.mem_cons, Ne.symm hname, false_or]
      · intro action
        rw [hactions action, List.mem_append, hremoval action]
        simp [hstale, or_assoc]

/-! ## The second loop -/

theorem putDesired_error {l : List (String × String × String)} (hl : (l.map Prod.fst).Nodup)
    (h : putDesired current desiredHash client l actions owned = .error e) :
    ∃ entry ∈ l, ∃ hash, current[entry.1]? = some hash ∧ owned[entry.1]? ≠ some hash := by
  induction l generalizing actions owned with
  | nil => exact absurd h (by simp [putDesired])
  | cons entry rest ih =>
    obtain ⟨name, edge, server⟩ := entry
    obtain ⟨hfresh, hrest⟩ := List.nodup_cons.1 hl
    have hlater : ∀ {actions owned₁}, (∀ k, k ≠ name → owned₁[k]? = owned[k]?) →
        putDesired current desiredHash client rest actions owned₁ = .error e →
        ∃ entry ∈ (name, edge, server) :: rest, ∃ hash, current[entry.1]? = some hash ∧
          owned[entry.1]? ≠ some hash := by
      intro actions owned₁ hsame h
      obtain ⟨entry, hmem, hash, hhash, hconflict⟩ := ih hrest h
      have hne : entry.1 ≠ name := fun heq => hfresh (List.mem_map.2 ⟨entry, hmem, heq⟩)
      exact ⟨entry, List.mem_cons_of_mem _ hmem, hash, hhash, hsame _ hne ▸ hconflict⟩
    have hinsert : ∀ v k, k ≠ name → (owned.insert name v)[k]? = owned[k]? := by
      intro v k hne
      rw [getElem?_insert_eq, if_neg (Ne.symm hne)]
    rw [putDesired] at h
    split at h
    · next howned hcurrent => exact ⟨_, List.mem_cons_self, _, hcurrent, by simp [howned]⟩
    · next previousHash currentHash howned hcurrent =>
      split at h
      · next hne =>
        exact ⟨_, List.mem_cons_self, _, hcurrent, by simpa [howned] using Ne.symm hne⟩
      · split at h
        · exact hlater (fun _ _ => rfl) h
        · exact hlater (hinsert _) h
    · exact hlater (hinsert _) h

theorem putDesired_ok {l : List (String × String × String)} (hl : (l.map Prod.fst).Nodup)
    (h : putDesired current desiredHash client l actions owned = .ok (actions', owned')) :
    (∀ entry ∈ l, ∀ hash, current[entry.1]? = some hash → owned[entry.1]? = some hash) ∧
    (∀ entry ∈ l, owned'[entry.1]? = some (desiredHash entry.2.1 entry.2.2)) ∧
    (∀ k, k ∉ l.map Prod.fst → owned'[k]? = owned[k]?) ∧
    ∀ action, action ∈ actions' ↔ action ∈ actions ∨
      ∃ entry ∈ l, current[entry.1]? ≠ some (desiredHash entry.2.1 entry.2.2) ∧
        action = .put entry.1 entry.2.1 entry.2.2 := by
  induction l generalizing actions owned with
  | nil =>
    cases h
    simp
  | cons entry rest ih =>
    obtain ⟨name, edge, server⟩ := entry
    obtain ⟨hfresh, hrest⟩ := List.nodup_cons.1 hl
    -- the entry is settled one way or another, and the rest goes on from there
    obtain ⟨actions₁, owned₁, hnext, hagree₁, howned₁, hsame₁, hactions₁⟩ :
        ∃ actions₁ owned₁,
          putDesired current desiredHash client rest actions₁ owned₁ = .ok (actions', owned') ∧
          (∀ hash, current[name]? = some hash → owned[name]? = some hash) ∧
          owned₁[name]? = some (desiredHash edge server) ∧
          (∀ k, k ≠ name → owned₁[k]? = owned[k]?) ∧
          ∀ action, action ∈ actions₁ ↔ action ∈ actions ∨
            current[name]? ≠ some (desiredHash edge server) ∧ action = .put name edge server := by
      have hinsert : ∀ k, k ≠ name →
          (owned.insert name (desiredHash edge server))[k]? = owned[k]? := by
        intro k hne
        rw [getElem?_insert_eq, if_neg (Ne.symm hne)]
      rw [putDesired] at h
      split at h
      · cases h
      · next previousHash currentHash howned hcurrent =>
        split at h
        · cases h
        · next hsame =>
          obtain rfl := not_not.1 hsame
          split at h
          · next hnext =>
            exact ⟨_, _, h, by simp [hcurrent, howned], by rw [howned, hnext],
              fun _ _ => rfl, by simp [hcurrent, hnext]⟩
          · next hnext =>
            exact ⟨_, _, h, by simp [hcurrent, howned], by simp, hinsert,
              by simp [hcurrent, hnext]⟩
      · next hcurrent =>
        exact ⟨_, _, h, by simp [hcurrent], by simp, hinsert, by simp [hcurrent]⟩
    obtain ⟨hagree, howned, hother, hactions⟩ := ih hrest hnext
    have hne : ∀ entry ∈ rest, entry.1 ≠ name :=
      fun entry hmem heq => hfresh (List.mem_map.2 ⟨entry, hmem, heq⟩)
    refine ⟨?_, ?_, ?_, ?_⟩
    · intro entry hmem hash hhash
      rcases List.mem_cons.1 hmem with rfl | hmem
      · exact hagree₁ hash hhash
      · exact hsame₁ _ (hne entry hmem) ▸ hagree entry hmem hash hhash
    · intro entry hmem
      rcases List.mem_cons.1 hmem with rfl | hmem
      · exact (hother name hfresh).trans howned₁
      · exact howned entry hmem
    · intro k hk
      rw [List.map_cons, List.mem_cons, not_or] at hk
      exact (hother k hk.2).trans (hsame₁ k hk.1)
    · intro action
      rw [hactions action, hactions₁ action]
      simp [or_assoc]

/-! ## Both loops -/

theorem mem_iff_exists {m : BTreeMap β} : k ∈ m ↔ ∃ v, m[k]? = some v :=
  Std.ExtTreeMap.mem_iff_isSome_getElem?.trans Option.isSome_iff_exists

theorem mem_keys_toList {m : BTreeMap β} : k ∈ m.toList.map Prod.fst ↔ k ∈ m := by
  simp

theorem nodup_keys_toList (m : BTreeMap β) : (m.toList.map Prod.fst).Nodup := by
  rw [List.Nodup, List.pairwise_map]
  refine m.distinct_keys_toList.imp (fun hne heq => hne ?_)
  rw [heq]
  exact Std.ReflCmp.compare_self

/-- Some entry in the way: it belongs to what is owned or desired, and is not as it was recorded. -/
def Conflict (desired : BTreeMap (String × String)) (owned current : BTreeMap String) : Prop :=
  ∃ name hash, (name ∈ owned ∨ name ∈ desired) ∧ current[name]? = some hash ∧ owned[name]? ≠ some hash

theorem reconcile_ok (h : reconcile desired current desiredHash client owned = .ok (actions', owned')) :
    ¬ Conflict desired owned current ∧
    (∀ k : String, owned'[k]? = (desired[k]?).map (fun p => desiredHash p.1 p.2)) ∧
    ∀ action, action ∈ actions' ↔
      (∃ name, name ∈ owned ∧ name ∉ desired ∧ name ∈ current ∧ action = .remove name) ∨
      ∃ name edge server, desired[name]? = some (edge, server) ∧
        current[name]? ≠ some (desiredHash edge server) ∧ action = .put name edge server := by
  obtain ⟨⟨actions₁, owned₁⟩, hremove, hput⟩ := of_bind h
  obtain ⟨hagree₁, howned₁, hactions₁⟩ := removeStale_ok hremove
  obtain ⟨hagree, howned, hother, hactions⟩ := putDesired_ok (nodup_keys_toList desired) hput
  -- the second loop sees what was recorded for the desired entries
  have hkept : ∀ k, k ∈ desired → owned₁[k]? = owned[k]? := by
    intro k hk
    rw [howned₁ k, if_neg (fun hnot => hnot.1 hk)]
  refine ⟨?_, ?_, ?_⟩
  · rintro ⟨name, hash, hmem, hcurrent, hne⟩
    by_cases hdesired : name ∈ desired
    · obtain ⟨⟨edge, server⟩, hentry⟩ := mem_iff_exists.1 hdesired
      have hlist := Std.ExtTreeMap.mem_toList_iff_getElem?_eq_some.2 hentry
      exact hne (hkept name hdesired ▸ hagree _ hlist hash hcurrent)
    · obtain ⟨recorded, hrecorded⟩ := mem_iff_exists.1 (hmem.resolve_right hdesired)
      have hlist := Std.ExtTreeMap.mem_toList_iff_getElem?_eq_some.2 hrecorded
      obtain rfl := hagree₁ _ hlist hdesired hash hcurrent
      exact hne hrecorded
  · intro k
    cases hentry : desired[k]? with
    | some p =>
      exact howned _ (Std.ExtTreeMap.mem_toList_iff_getElem?_eq_some.2 hentry)
    | none =>
      have hdesired : k ∉ desired := by simp [mem_iff_exists, hentry]
      rw [hother k (mt mem_keys_toList.1 hdesired), howned₁ k]
      cases hrecorded : owned[k]? with
      | none => simp
      | some recorded =>
        rw [if_pos ⟨hdesired, mem_keys_toList.2 (mem_iff_exists.2 ⟨_, hrecorded⟩)⟩]
        rfl
  · intro action
    rw [hactions action, hactions₁ action]
    simp only [List.not_mem_nil, false_or, Prod.exists,
      Std.ExtTreeMap.mem_toList_iff_getElem?_eq_some]
    refine or_congr (exists_congr (fun name => ?_)) Iff.rfl
    rw [exists_and_right, ← mem_iff_exists]

theorem reconcile_error (h : reconcile desired current desiredHash client owned = .error e) :
    Conflict desired owned current := by
  cases hremove : removeStale desired current client owned.toList [] owned with
  | error e₁ =>
    obtain ⟨⟨name, recorded⟩, hlist, _, hash, hcurrent, hne⟩ := removeStale_error hremove
    have hrecorded := Std.ExtTreeMap.mem_toList_iff_getElem?_eq_some.1 hlist
    refine ⟨name, hash, .inl ?_, hcurrent, ?_⟩
    · exact mem_iff_exists.2 ⟨_, hrecorded⟩
    · simpa [hrecorded] using Ne.symm hne
  | ok result =>
    obtain ⟨actions₁, owned₁⟩ := result
    simp only [reconcile, hremove, ok_bind] at h
    obtain ⟨⟨name, edge, server⟩, hlist, hash, hcurrent, hne⟩ :=
      putDesired_error (nodup_keys_toList desired) h
    have hentry := Std.ExtTreeMap.mem_toList_iff_getElem?_eq_some.1 hlist
    have hdesired : name ∈ desired := mem_iff_exists.2 ⟨_, hentry⟩
    refine ⟨name, hash, .inr hdesired, hcurrent, ?_⟩
    rwa [(removeStale_ok hremove).2.1 name, if_neg (fun hnot => hnot.1 hdesired)] at hne

end Loops

/-! ## What is left in the configuration -/

variable {A}

/-- What an action leaves under the name it is about. -/
def Adapter.outcome (A : Adapter Entry) : ReconcileAction → Option Entry
  | .put _ edge server => some (A.proxy edge server)
  | .remove _ => none

theorem Adapter.getElem?_apply (servers : BTreeMap Entry) (action : ReconcileAction) (k : String) :
    (A.apply servers action)[k]? = if action.name = k then A.outcome action else servers[k]? := by
  cases action with
  | put name edge server => exact getElem?_insert_eq servers name k _
  | remove name => exact getElem?_erase_eq servers name k

/-- If all actions about a name agree, and there is one or nothing is to be done, the name ends up as
    they say. -/
theorem Adapter.getElem?_foldl {actions : List ReconcileAction} {servers : BTreeMap Entry} {k : String}
    {v : Option Entry} (hall : ∀ action ∈ actions, action.name = k → A.outcome action = v)
    (hsome : servers[k]? = v ∨ ∃ action ∈ actions, action.name = k) :
    (actions.foldl A.apply servers)[k]? = v := by
  induction actions generalizing servers with
  | nil => exact hsome.resolve_right (by simp)
  | cons action rest ih =>
    refine ih (fun later hlater => hall later (List.mem_cons_of_mem _ hlater)) ?_
    rw [A.getElem?_apply]
    by_cases hname : action.name = k
    · rw [if_pos hname]
      exact .inl (hall action List.mem_cons_self hname)
    · rw [if_neg hname]
      refine hsome.imp_right ?_
      rintro ⟨later, hlater, hk⟩
      rcases List.mem_cons.1 hlater with rfl | hlater
      · exact absurd hk hname
      · exact ⟨later, hlater, hk⟩

/-- An entry is as it was, or as some action about its name leaves it. -/
theorem Adapter.getElem?_foldl_cases (actions : List ReconcileAction) (servers : BTreeMap Entry)
    (k : String) : (actions.foldl A.apply servers)[k]? = servers[k]? ∨
      ∃ action ∈ actions, action.name = k ∧ (actions.foldl A.apply servers)[k]? = A.outcome action := by
  induction actions generalizing servers with
  | nil => exact .inl rfl
  | cons action rest ih =>
    rcases ih (A.apply servers action) with hsame | ⟨later, hlater, hk, houtcome⟩
    · rw [A.getElem?_apply] at hsame
      by_cases hname : action.name = k
      · rw [if_pos hname] at hsame
        exact .inr ⟨action, List.mem_cons_self, hname, hsame⟩
      · rw [if_neg hname] at hsame
        exact .inl hsame
    · exact .inr ⟨later, List.mem_cons_of_mem _ hlater, hk, houtcome⟩

theorem Adapter.getElem?_fingerprints (servers : BTreeMap Entry) (k : String) :
    (A.fingerprints servers)[k]? = (servers[k]?).map A.fingerprint :=
  Std.ExtTreeMap.getElem?_map

/-- A conflict is an entry that would be touched and does not have its recorded fingerprint. -/
theorem Adapter.conflict_iff {desired : BTreeMap (String × String)} {owned : BTreeMap String}
    {servers : BTreeMap Entry} : Conflict desired owned (A.fingerprints servers) ↔
      ∃ (name : String) (entry : Entry), (name ∈ owned ∨ name ∈ desired) ∧
        servers[name]? = some entry ∧ owned[name]? ≠ some (A.fingerprint entry) := by
  constructor
  · rintro ⟨name, hash, hmem, hhash, hne⟩
    rw [A.getElem?_fingerprints] at hhash
    obtain ⟨entry, hentry, rfl⟩ := Option.map_eq_some_iff.1 hhash
    exact ⟨name, entry, hmem, hentry, hne⟩
  · rintro ⟨name, entry, hmem, hentry, hne⟩
    exact ⟨name, _, hmem, by rw [A.getElem?_fingerprints, hentry]; rfl, hne⟩

section Success

variable {desired : BTreeMap (String × String)} {owned owned' : BTreeMap String}
  {servers servers' : BTreeMap Entry} {actions : List ReconcileAction}

/-- What is neither owned nor desired is left alone. -/
theorem Adapter.getElem?_untouched
    (h : reconcile desired (A.fingerprints servers) A.desiredHash A.client owned = .ok (actions, owned'))
    {k : String} (howned : k ∉ owned) (hdesired : k ∉ desired) :
    (actions.foldl A.apply servers)[k]? = servers[k]? := by
  obtain ⟨_, _, hactions⟩ := reconcile_ok h
  refine A.getElem?_foldl ?_ (.inl rfl)
  intro action haction hname
  rcases (hactions action).1 haction with ⟨name, howned', _, _, rfl⟩ | ⟨name, _, _, hentry, _, rfl⟩
  · obtain rfl : name = k := hname
    exact absurd howned' howned
  · obtain rfl : name = k := hname
    exact absurd (mem_iff_exists.2 ⟨_, hentry⟩) hdesired

/-- What a successful reconciliation leaves of each entry. -/
theorem Adapter.getElem?_reconciled (hcollide : Function.Injective A.fingerprint)
    (h : reconcile desired (A.fingerprints servers) A.desiredHash A.client owned = .ok (actions, owned'))
    (k : String) :
    (actions.foldl A.apply servers)[k]? =
      match desired[k]? with
      | some (edge, server) => some (A.proxy edge server)
      | none => if k ∈ owned then none else servers[k]? := by
  obtain ⟨_, _, hactions⟩ := reconcile_ok h
  cases hentry : desired[k]? with
  | some p =>
    obtain ⟨edge, server⟩ := p
    refine A.getElem?_foldl ?_ ?_
    · intro action haction hname
      rcases (hactions action).1 haction with ⟨name, _, hstale, _, rfl⟩ |
        ⟨name, edge', server', hentry', _, rfl⟩
      · obtain rfl : name = k := hname
        exact absurd (mem_iff_exists.2 ⟨_, hentry⟩) hstale
      · obtain rfl : name = k := hname
        obtain ⟨rfl, rfl⟩ := Prod.mk.inj (Option.some.inj (hentry.symm.trans hentry'))
        rfl
    · -- if nothing is put there, the entry already has the right fingerprint
      by_cases hfresh : (A.fingerprints servers)[k]? = some (A.desiredHash edge server)
      · left
        rw [A.getElem?_fingerprints] at hfresh
        obtain ⟨entry, hservers, hhash⟩ := Option.map_eq_some_iff.1 hfresh
        rw [hservers, hcollide hhash]
      · exact .inr ⟨_, (hactions _).2 (.inr ⟨k, edge, server, hentry, hfresh, rfl⟩), rfl⟩
  | none =>
    have hdesired : k ∉ desired := by simp [mem_iff_exists, hentry]
    by_cases howned : k ∈ owned
    · simp only [if_pos howned]
      refine A.getElem?_foldl ?_ ?_
      · intro action haction hname
        rcases (hactions action).1 haction with ⟨name, _, _, _, rfl⟩ |
          ⟨name, _, _, hentry', _, rfl⟩
        · rfl
        · obtain rfl : name = k := hname
          exact absurd (mem_iff_exists.2 ⟨_, hentry'⟩) hdesired
      · cases hservers : servers[k]? with
        | none => exact .inl rfl
        | some entry =>
          refine .inr ⟨_, (hactions _).2 (.inl ⟨k, howned, hdesired, ?_, rfl⟩), rfl⟩
          exact mem_iff_exists.2 ⟨_, by rw [A.getElem?_fingerprints, hservers]; rfl⟩
    · simp only [if_neg howned]
      exact A.getElem?_untouched h howned hdesired

/-! ### Without assumptions on the fingerprints -/

theorem Adapter.prepare_owned (h : A.prepare desired owned servers = .ok (servers', owned'))
    (k : String) : owned'[k]? = (desired[k]?).map (fun p => A.desiredHash p.1 p.2) := by
  obtain ⟨⟨actions, owned₁⟩, hreconcile, h⟩ := of_bind h
  cases h
  exact (reconcile_ok hreconcile).2.1 k

variable {entry : Entry}

/-- An entry in the way of what is desired has its recorded fingerprint. -/
theorem Adapter.prepare_recorded (h : A.prepare desired owned servers = .ok (servers', owned'))
    {k : String} (hentry : servers[k]? = some entry) (hk : k ∈ owned ∨ k ∈ desired) :
    owned[k]? = some (A.fingerprint entry) := by
  obtain ⟨⟨actions, owned₁⟩, hreconcile, h⟩ := of_bind h
  by_contra hne
  exact (reconcile_ok hreconcile).1 (A.conflict_iff.2 ⟨k, entry, hk, hentry, hne⟩)

/-- An entry without its recorded fingerprint is left alone. -/
theorem Adapter.prepare_keeps (h : A.prepare desired owned servers = .ok (servers', owned'))
    {k : String} (hentry : servers[k]? = some entry) (hne : owned[k]? ≠ some (A.fingerprint entry)) :
    k ∉ desired ∧ servers'[k]? = some entry := by
  have howned : k ∉ owned := fun hk => hne (A.prepare_recorded h hentry (.inl hk))
  have hdesired : k ∉ desired := fun hk => hne (A.prepare_recorded h hentry (.inr hk))
  obtain ⟨⟨actions, owned₁⟩, hreconcile, h⟩ := of_bind h
  cases h
  exact ⟨hdesired, (A.getElem?_untouched hreconcile howned hdesired).trans hentry⟩

/-- Every entry afterwards was there before or is generated. -/
theorem Adapter.prepare_new (h : A.prepare desired owned servers = .ok (servers', owned'))
    {k : String} (hentry : servers'[k]? = some entry) :
    servers[k]? = some entry ∨
      ∃ edge server, desired[k]? = some (edge, server) ∧ entry = A.proxy edge server := by
  obtain ⟨⟨actions, owned₁⟩, hreconcile, h⟩ := of_bind h
  cases h
  rcases A.getElem?_foldl_cases actions servers k with hsame | ⟨action, haction, rfl, houtcome⟩
  · exact .inl (hsame.symm.trans hentry)
  · rw [hentry] at houtcome
    rcases ((reconcile_ok hreconcile).2.2 action).1 haction with ⟨name, _, _, _, rfl⟩ |
      ⟨name, edge, server, hdesired, _, rfl⟩
    · cases houtcome
    · exact .inr ⟨edge, server, hdesired, Option.some.inj houtcome⟩

end Success

/-- **`reconcile` is exact.** It fails if and only if an entry it would touch is not as recorded.
    Otherwise exactly the desired entries are generated, entries that are owned and no longer desired
    are gone, all others are untouched, exactly the generated entries are owned, and a second run has
    nothing to do. -/
theorem reconcile_is_exact (hcollide : Function.Injective A.fingerprint)
    (desired : BTreeMap (String × String)) (owned : BTreeMap String) (servers : BTreeMap Entry) :
    ((∃ e, reconcile desired (A.fingerprints servers) A.desiredHash A.client owned = .error e) ↔
      ∃ (name : String) (entry : Entry), (name ∈ owned ∨ name ∈ desired) ∧
        servers[name]? = some entry ∧ owned[name]? ≠ some (A.fingerprint entry)) ∧
    ∀ actions owned', reconcile desired (A.fingerprints servers) A.desiredHash A.client owned =
        .ok (actions, owned') →
      (∀ name edge server : String, desired[name]? = some (edge, server) →
        (actions.foldl A.apply servers)[name]? = some (A.proxy edge server)) ∧
      (∀ name : String, name ∈ owned → name ∉ desired → name ∉ actions.foldl A.apply servers) ∧
      (∀ name : String, name ∉ owned → name ∉ desired →
        (actions.foldl A.apply servers)[name]? = servers[name]?) ∧
      (∀ name : String, owned'[name]? = (desired[name]?).map (fun p => A.desiredHash p.1 p.2)) ∧
      reconcile desired (A.fingerprints (actions.foldl A.apply servers)) A.desiredHash A.client owned' =
        .ok ([], owned') := by
  refine ⟨⟨?_, ?_⟩, ?_⟩
  · rintro ⟨e, he⟩
    exact A.conflict_iff.1 (reconcile_error he)
  · intro hentry
    cases hresult : reconcile desired (A.fingerprints servers) A.desiredHash A.client owned with
    | error e => exact ⟨e, rfl⟩
    | ok result => exact absurd (A.conflict_iff.2 hentry) (reconcile_ok hresult).1
  · intro actions owned' h
    have hfinal := A.getElem?_reconciled hcollide h
    obtain ⟨_, howned', _⟩ := reconcile_ok h
    refine ⟨?_, ?_, ?_, howned', ?_⟩
    · intro name edge server hentry
      rw [hfinal name, hentry]
    · intro name howned hstale
      have hnone : desired[name]? = none := by simpa using hstale
      simp [mem_iff_exists, hfinal name, hnone, howned]
    · intro name howned hstale
      have hnone : desired[name]? = none := by simpa using hstale
      simp [hfinal name, hnone, howned]
    · -- a second run finds every owned entry desired, and every desired entry generated
      have hsame : ∀ k, k ∈ owned' ↔ k ∈ desired := by
        intro k
        rw [mem_iff_exists, mem_iff_exists, howned' k]
        cases desired[k]? <;> simp
      have hhash : ∀ (k edge server : String), desired[k]? = some (edge, server) →
          (A.fingerprints (actions.foldl A.apply servers))[k]? = some (A.desiredHash edge server) := by
        intro k edge server hentry
        rw [A.getElem?_fingerprints, hfinal k, hentry]
        rfl
      cases hagain : reconcile desired (A.fingerprints (actions.foldl A.apply servers)) A.desiredHash
          A.client owned' with
      | error e =>
        obtain ⟨name, hash, hmem, hname, hne⟩ := reconcile_error hagain
        have hdesired : name ∈ desired := hmem.elim (hsame name).1 id
        obtain ⟨⟨edge, server⟩, hentry⟩ := mem_iff_exists.1 hdesired
        rw [howned' name, ← hname, hhash name edge server hentry, hentry] at hne
        exact absurd rfl hne
      | ok result =>
        obtain ⟨actions₂, owned₂⟩ := result
        obtain ⟨_, howned₂, hactions₂⟩ := reconcile_ok hagain
        have hnil : actions₂ = [] := by
          refine List.eq_nil_iff_forall_not_mem.2 (fun action haction => ?_)
          rcases (hactions₂ action).1 haction with ⟨name, howned, hstale, _⟩ |
            ⟨name, edge, server, hentry, hne, _⟩
          · exact hstale ((hsame name).1 howned)
          · exact hne (hhash name edge server hentry)
        have howned : owned₂ = owned' :=
          Std.ExtTreeMap.ext_getElem? (fun k => (howned₂ k).trans (howned' k).symm)
        rw [hnil, howned]

section Example

/-- Entries that are their own fingerprints. -/
def plainAdapter : Adapter String where
  client := "Claude"
  proxy := fun edge server => "-e " ++ edge ++ " mcp run " ++ server
  fingerprint := id

/-- A debugger of one edge is generated, and an entry of another that is no longer there is removed,
    beside an entry the user has written. -/
theorem reconcile_is_exact_beside_manual_entry : ∃ actions owned',
    reconcile (.ofList [("win__debugger", "win", "debugger")])
      (plainAdapter.fingerprints (.ofList [("manual", "manual"), ("old__lldb", "-e old mcp run lldb")]))
      plainAdapter.desiredHash plainAdapter.client (.ofList [("old__lldb", "-e old mcp run lldb")]) =
        .ok (actions, owned') ∧
    (actions.foldl plainAdapter.apply (.ofList [("manual", "manual"),
      ("old__lldb", "-e old mcp run lldb")]))["win__debugger"]? = some "-e win mcp run debugger" := by
  obtain ⟨hfails, hexact⟩ := reconcile_is_exact (A := plainAdapter) Function.injective_id
    (.ofList [("win__debugger", "win", "debugger")]) (.ofList [("old__lldb", "-e old mcp run lldb")])
    (.ofList [("manual", "manual"), ("old__lldb", "-e old mcp run lldb")])
  have hresult : (reconcile (.ofList [("win__debugger", "win", "debugger")])
      (plainAdapter.fingerprints (.ofList [("manual", "manual"), ("old__lldb", "-e old mcp run lldb")]))
      plainAdapter.desiredHash plainAdapter.client
      (.ofList [("old__lldb", "-e old mcp run lldb")])).toOption.isSome = true := by
    decide +kernel
  obtain ⟨⟨actions, owned'⟩, hresult⟩ := Option.isSome_iff_exists.1 hresult
  have hresult := toOption_eq_some.1 hresult
  exact ⟨actions, owned', hresult, (hexact actions owned' hresult).1 "win__debugger" "win" "debugger"
    (by decide +kernel)⟩

end Example

end AgentScale.Client
