import AgentScale.Control.Execution
import AgentScale.Control.Refinement

set_option autoImplicit false

/-! # The durable copy

What `Database::load` would return is at all times the in-memory state, up to the order of records:
in every world of a running Control, and for a store that is opened on any database and then given
any deltas, whether SQLite accepts them or not. -/

namespace AgentScale.Control

open Checked ControlApi

namespace Store

/-- Loading the database gives the in-memory state up to order, and no inactive Provisioner row shows
    in it. -/
def Mirrors (store : Store) : Prop :=
  ∃ loaded, store.database.load = .ok loaded ∧ loaded.Same store.state ∧
    ∀ row ∈ store.database.tables.provisioners, row.active = false →
      ∀ provisioner ∈ loaded.provisioners, provisioner.endpointId ≠ row.endpointId

/-- A store as it is first opened: the state has just been written by `create`, or read by `load` from
    tables whose invitations stand under their own ids. -/
def Opened (store : Store) : Prop :=
  (store.state.schema = STATE_SCHEMA ∧
    Keyed.Distinct ProvisionerRecord.endpointId store.state.provisioners ∧
    Database.create store.state = .ok store.database) ∨
  (store.database.load = .ok store.state ∧
    ∀ row ∈ store.database.tables.invitations, row.inviteId = row.inviteJson.inviteId)

/-- The store after `commit_delta`, which changes nothing when it fails. -/
def commit (store : Store) (ioError : Option String) (delta : StateDelta) : Store :=
  match commitDelta ioError store delta with
  | .ok store' => store'
  | .error _ => store

/-- The store after a sequence of deltas, each with the I/O error SQLite reports, if any. -/
def commitAll (store : Store) (deltas : List (Option String × StateDelta)) : Store :=
  deltas.foldl (fun store d => store.commit d.1 d.2) store

variable {store : Store}

/-- The simulation relation, for a state of the current schema. -/
structure Consistent (store : Store) : Prop where
  represents : Represents store.database.tables store.state
  schema : store.state.schema = STATE_SCHEMA

theorem Consistent.mirrors (h : store.Consistent) : store.Mirrors := by
  obtain ⟨loaded, hload, hsame⟩ := h.represents.load h.schema
  refine ⟨loaded, hload, hsame, ?_⟩
  intro row hrow hinactive provisioner hprovisioner hid
  -- a loaded Provisioner comes from an active row, and there is one row per identity
  have hactive := h.represents.provisioners.mem_iff.2 (hsame.provisioners.mem_iff.1 hprovisioner)
  obtain ⟨row', hrow', rfl⟩ := List.mem_map.1 hactive
  obtain ⟨hmem, htrue⟩ := List.mem_filter.1 hrow'
  rw [store.database.distinct_provisioners.eq_of_key hmem hrow hid, hinactive] at htrue
  exact absurd htrue (by simp)

theorem Opened.consistent (h : store.Opened) : store.Consistent := by
  rcases h with ⟨hschema, hdistinct, hcreate⟩ | ⟨hload, hkeys⟩
  · exact ⟨.create hdistinct hcreate, hschema⟩
  · obtain ⟨hrep, hschema⟩ := store.database.load_represents hload hkeys
    exact ⟨hrep, hschema⟩

/-- A successful `commit_delta` applies the delta to both sides. -/
theorem Consistent.commitDelta (h : store.Consistent) {ioError : Option String} {delta : StateDelta}
    {store' : Store} (hcommit : Control.commitDelta ioError store delta = .ok store') :
    store'.state = delta.commit store.state ∧ store'.Consistent := by
  obtain ⟨hstate, hrep, _⟩ := commitDelta_eq_ok h.represents hcommit
  refine ⟨hstate, hrep, ?_⟩
  rw [hstate, delta.commit_schema]
  exact h.schema

theorem Consistent.commit (h : store.Consistent) (ioError : Option String) (delta : StateDelta) :
    (store.commit ioError delta).Consistent := by
  unfold Store.commit
  split
  · next store' hcommit => exact (h.commitDelta hcommit).2
  · exact h

theorem Consistent.commitAll (h : store.Consistent) (deltas : List (Option String × StateDelta)) :
    (store.commitAll deltas).Consistent := by
  induction deltas generalizing store with
  | nil => exact h
  | cons d rest ih => exact ih (h.commit d.1 d.2)

end Store

/-- **The store mirrors the in-memory state.** It does so in every reachable world, and after every
    sequence of deltas from any opened store; there each further `commit_delta` either applies its
    delta to both sides or leaves both as they were. -/
theorem store_mirrors_state (P : Platform) (key : SecretKey) :
    (∀ w s, (control P key).Reachable w → w.process = some s → Store.Mirrors ⟨w.database, s⟩) ∧
    ∀ (opened : Store) (deltas : List (Option String × StateDelta)), opened.Opened →
      (opened.commitAll deltas).Mirrors ∧ ∀ ioError delta,
        (∃ store', commitDelta ioError (opened.commitAll deltas) delta = .ok store' ∧
          (opened.commitAll deltas).commit ioError delta = store' ∧
          store'.state = delta.commit (opened.commitAll deltas).state ∧ store'.Mirrors) ∨
        (∃ e, commitDelta ioError (opened.commitAll deltas) delta = .error e ∧
          (opened.commitAll deltas).commit ioError delta = opened.commitAll deltas) := by
  refine ⟨?_, ?_⟩
  · intro w s hr hs
    obtain ⟨l, _, href⟩ := exists_ledger hr
    obtain rfl := href.process s hs
    exact Store.Consistent.mirrors ⟨href.represents, href.schema⟩
  · intro opened deltas hopened
    have hconsistent := hopened.consistent.commitAll deltas
    refine ⟨hconsistent.mirrors, fun ioError delta => ?_⟩
    cases hcommit : commitDelta ioError (opened.commitAll deltas) delta with
    | ok store' =>
      obtain ⟨hstate, hnext⟩ := hconsistent.commitDelta hcommit
      exact .inl ⟨store', rfl, by rw [Store.commit, hcommit], hstate, hnext.mirrors⟩
    | error e => exact .inr ⟨e, rfl, by rw [Store.commit, hcommit]⟩

open Reference in
/-- A removed Provisioner whose invitation is still stored leaves an inactive row behind, and a created
    store survives a write that fails and one that succeeds. -/
theorem store_mirrors_state_with_inactive_row :
    (∃ w s, (control (platform []) controlKey).Reachable w ∧ w.process = some s ∧
      w.database.tables.provisioners.any (fun row => !row.active) = true ∧
      Store.Mirrors ⟨w.database, s⟩) ∧
    ∃ opened : Store, opened.Opened ∧
      (opened.commitAll [(some "disk I/O error", .topology [.deleteClient "a"]),
        (none, .topology [.putProvisioner ⟨"p", publicKey otherKey⟩])]).Mirrors := by
  refine ⟨?_, ?_⟩
  · obtain ⟨w, hr, hcheck⟩ := World.exists_after controlKey (fun _ _ _ => True)
      (manageClient (platform []) controlKey nodeKey otherKey ++
        [.operate (fun _ => .localAdmin (.removeClient "b")) "remove-b",
          .operate (fun _ => .localAdmin (.removeProvisioner "p")) "remove-p"])
      (fun w => w.process.isSome && w.database.tables.provisioners.any (fun row => !row.active))
      (by decide +kernel)
    rw [Bool.and_eq_true] at hcheck
    obtain ⟨s, hs⟩ := Option.isSome_iff_exists.1 hcheck.1
    exact ⟨w, s, hr, hs, hcheck.2, (store_mirrors_state (platform []) controlKey).1 w s hr hs⟩
  · obtain ⟨db, hdb⟩ : ∃ db,
        Database.create (initialState "agents" "https://control.example" relayCa) = .ok db := by
      cases hcreate : Database.create (initialState "agents" "https://control.example" relayCa) with
      | ok db => exact ⟨db, rfl⟩
      | error e =>
        have hok : (Database.create (initialState "agents" "https://control.example"
          relayCa)).isOk = true := by decide +kernel
        rw [hcreate] at hok
        exact absurd hok (by simp [Except.isOk, Except.toBool])
    have hopened : Store.Opened ⟨db, initialState "agents" "https://control.example" relayCa⟩ :=
      .inl ⟨rfl, List.nodup_nil, hdb⟩
    exact ⟨_, hopened, ((store_mirrors_state (platform []) controlKey).2 _ _ hopened).1⟩

end AgentScale.Control
