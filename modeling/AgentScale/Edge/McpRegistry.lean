import AgentScale.Api.Reference
import AgentScale.Library.Keyed
import AgentScale.Library.Locked

set_option autoImplicit false

/-! # The MCP registry of an Edge

`RegistryStore`: a JSON file with the MCP definitions of one Edge identity, which any number of processes
read and change under a lock on a file beside it. A change is written to a temporary file that then
replaces the old one, so the file is the old or the new one at any time; a call that fails to write, or to
sync the directory, or whose process dies, is given up. The JSON of a registry is taken for the registry
itself, and its `BTreeMap` for a list that is searched by name. -/

namespace AgentScale.Edge

open Checked Keyed Locked Transition

inductive McpTransport where
  | stdio (command : String) (args : List String) (cwd : Option String)
  | http (url : String)
  | sse (url : String)

/-- An entry of `servers`. -/
structure McpServer where
  name : String
  transport : McpTransport

def schemaVersion : Nat := 1

structure RegistryFile where
  version : Nat
  revision : Nat
  servers : List McpServer

def RegistryFile.default : RegistryFile := ⟨schemaVersion, 0, []⟩

inductive McpJson where
  | absent
  /-- It cannot be read or parsed. -/
  | broken (error : String)
  | registry (file : RegistryFile)

/-! ## The calls -/

inductive RegistryCall where
  | list
  | get (name : String)
  | upsert (name : String) (transport : McpTransport)
  | remove (name : String)

inductive RegistryReply where
  /-- `McpCatalog`. -/
  | catalog (revision : Nat) (servers : List McpServer)
  | transport (transport : McpTransport)
  /-- Whether there was an entry before. -/
  | upserted (replaced : Bool)
  | removed

def loadUnlocked : McpJson → Except String RegistryFile
  | .absent => .ok .default
  | .broken error => .error error
  | .registry file => do
    ensure (file.version = schemaVersion) ("unsupported MCP registry version " ++
      toString file.version ++ " (expected " ++ toString schemaVersion ++ ")")
    return file

/-- The error shows the name as well, as Rust's `Debug` prints it. -/
def validateName (name : String) : Except String Unit :=
  ensure (name ≠ "" ∧ '\x00' ∉ name.toList) "invalid MCP name"

variable (P : Platform)

def validateUrl (url : String) : Except String Unit := do
  let parsed ← okOr (P.parseUrl url) "invalid MCP URL"
  ensure (parsed.scheme = "http" ∨ parsed.scheme = "https") "MCP URL must use http or https"

def validateTransport : McpTransport → Except String Unit
  | .stdio command _ _ => ensure (command ≠ "") "stdio MCP command cannot be empty"
  | .http url | .sse url => validateUrl P url

/-- `u64::checked_add(1)`. -/
def nextRevision (revision : Nat) : Except String Nat :=
  okOr (if revision + 1 < 2 ^ 64 then some (revision + 1) else none) "MCP registry revision overflow"

/-- `mutate`: the registry that it saves, and the value. -/
def mutate {α : Type} (change : RegistryFile → Except String (RegistryFile × α)) (json : McpJson) :
    Except String (RegistryFile × α) := do
  let registry ← loadUnlocked json
  let (registry, value) ← change registry
  let revision ← nextRevision registry.revision
  return ({ registry with revision := revision }, value)

def insertServer (name : String) (transport : McpTransport) (registry : RegistryFile) :
    Except String (RegistryFile × RegistryReply) :=
  .ok ({ registry with servers := upsert McpServer.name ⟨name, transport⟩ registry.servers },
    .upserted (lookup McpServer.name name registry.servers).isSome)

def removeServer (name : String) (registry : RegistryFile) :
    Except String (RegistryFile × RegistryReply) := do
  ensure ((lookup McpServer.name name registry.servers).isSome = true)
    ("no MCP named '" ++ name ++ "'")
  return ({ registry with servers := discard McpServer.name name registry.servers }, .removed)

/-- What a call that changes the registry stores and returns. -/
def saved (result : Except String (RegistryFile × RegistryReply)) :
    Option McpJson × Except String RegistryReply :=
  (result.toOption.map (fun saved => .registry saved.1), result.map Prod.snd)

namespace RegistryStore

def list (json : McpJson) : Except String RegistryReply := do
  let registry ← loadUnlocked json
  return .catalog registry.revision registry.servers

def get (name : String) (json : McpJson) : Except String RegistryReply := do
  validateName name
  let registry ← loadUnlocked json
  let server ← okOr (lookup McpServer.name name registry.servers) ("no MCP named '" ++ name ++ "'")
  return .transport server.transport

def upsert (name : String) (transport : McpTransport) (json : McpJson) :
    Except String (RegistryFile × RegistryReply) := do
  validateName name
  validateTransport P transport
  mutate (insertServer name transport) json

def remove (name : String) (json : McpJson) : Except String (RegistryFile × RegistryReply) := do
  validateName name
  mutate (removeServer name) json

end RegistryStore

def RegistryCall.run (json : McpJson) : RegistryCall → Option McpJson × Except String RegistryReply
  | .list => (none, RegistryStore.list json)
  | .get name => (none, RegistryStore.get name json)
  | .upsert name transport => saved (RegistryStore.upsert P name transport json)
  | .remove name => saved (RegistryStore.remove name json)

/-- The calls on one registry. Readers share the lock. -/
def registryCalls : Calls McpJson RegistryCall (Except String RegistryReply) where
  run call json := call.run P json
  exclusive
    | .list | .get _ => false
    | .upsert _ _ | .remove _ => true
  stores_exclusive call json h := by
    cases call with
    | list | get => rfl
    | upsert | remove => cases h

/-! ## What a history leads to -/

/-- What a change does to the definition of a name. -/
def RegistryCall.effect (name : String) (seen : Option McpTransport) :
    RegistryCall → Option McpTransport
  | .upsert other transport => if other = name then some transport else seen
  | .remove other => if other = name then none else seen
  | .list | .get _ => seen

/-- The definition that the changes of a history leave for a name. -/
def lastWritten (first : RegistryFile) (name : String) (history : List RegistryCall) :
    Option McpTransport :=
  history.foldl (RegistryCall.effect name)
    ((lookup McpServer.name name first.servers).map McpServer.transport)

def McpServer.Valid (server : McpServer) : Prop :=
  validateName server.name = .ok () ∧ validateTransport P server.transport = .ok ()

/-- A registry with valid entries under distinct names. -/
structure RegistryFile.Valid (file : RegistryFile) : Prop where
  distinct : Distinct McpServer.name file.servers
  entries : ∀ server ∈ file.servers, server.Valid P

/-- A registry to which some changes have led. -/
structure RegistryFile.Reflects (first file : RegistryFile) (history : List RegistryCall) : Prop where
  valid : file.Valid P
  revision : file.revision = first.revision + history.length
  servers : ∀ name, (lookup McpServer.name name file.servers).map McpServer.transport =
    lastWritten first name history

variable {P} {first file : RegistryFile} {json : McpJson} {history : List RegistryCall}

theorem run_upsert (name : String) (transport : McpTransport) :
    (registryCalls P).run (.upsert name transport) json =
      saved (RegistryStore.upsert P name transport json) := rfl

theorem run_remove (name : String) :
    (registryCalls P).run (.remove name) json = saved (RegistryStore.remove name json) := rfl

theorem lastWritten_snoc (name : String) (call : RegistryCall) :
    lastWritten first name (history ++ [call]) =
      call.effect name (lastWritten first name history) := by
  simp [lastWritten]

theorem saved_isSome {result : Except String (RegistryFile × RegistryReply)}
    (h : (saved result).1.isSome = true) :
    ∃ file reply, result = .ok (file, reply) ∧ saved result = (some (.registry file), .ok reply) := by
  cases result with
  | error error => cases h
  | ok pair => exact ⟨pair.1, pair.2, rfl, rfl⟩

theorem saved_isOk (result : Except String (RegistryFile × RegistryReply)) :
    (saved result).2.isOk = (saved result).1.isSome := by
  cases result <;> rfl

theorem mutate_eq_ok {α : Type} {change : RegistryFile → Except String (RegistryFile × α)} {value : α}
    (h : mutate change json = .ok (file, value)) :
    ∃ before after, loadUnlocked json = .ok before ∧ change before = .ok (after, value) ∧
      file = { after with revision := after.revision + 1 } := by
  obtain ⟨before, hbefore, h⟩ := of_bind h
  obtain ⟨⟨after, value'⟩, hafter, h⟩ := of_bind h
  obtain ⟨revision, hrevision, h⟩ := of_bind h
  cases h
  refine ⟨before, after, hbefore, hafter, ?_⟩
  have hsome := okOr_eq_ok.1 hrevision
  obtain ⟨_, hsome⟩ := Option.ite_none_right_eq_some.1 hsome
  rw [Option.some.inj hsome]

theorem loadUnlocked_version (h : loadUnlocked json = .ok file) : file.version = schemaVersion := by
  cases json with
  | absent =>
    cases h
    rfl
  | broken error => cases h
  | registry stored =>
    obtain ⟨_, hversion, h⟩ := of_bind h
    cases h
    exact ensure_eq_ok.1 hversion

theorem loadUnlocked_registry (h : file.version = schemaVersion) :
    loadUnlocked (.registry file) = .ok file := by
  simp [loadUnlocked, h, ensure]

/-- What `upsert` saves and returns. -/
theorem upsert_eq_ok {name : String} {transport : McpTransport} {reply : RegistryReply}
    (h : RegistryStore.upsert P name transport json = .ok (file, reply)) :
    (⟨name, transport⟩ : McpServer).Valid P ∧ ∃ before, loadUnlocked json = .ok before ∧
      file = { before with
        revision := before.revision + 1
        servers := upsert McpServer.name ⟨name, transport⟩ before.servers } ∧
      reply = .upserted (lookup McpServer.name name before.servers).isSome := by
  obtain ⟨_, hname, h⟩ := of_bind h
  obtain ⟨_, htransport, h⟩ := of_bind h
  obtain ⟨before, after, hload, hinsert, rfl⟩ := mutate_eq_ok h
  cases hinsert
  exact ⟨⟨hname, htransport⟩, before, hload, rfl, rfl⟩

/-- What `remove` saves and returns. -/
theorem remove_eq_ok {name : String} {reply : RegistryReply}
    (h : RegistryStore.remove name json = .ok (file, reply)) :
    ∃ before, loadUnlocked json = .ok before ∧
      (lookup McpServer.name name before.servers).isSome = true ∧
      file = { before with
        revision := before.revision + 1
        servers := discard McpServer.name name before.servers } ∧ reply = .removed := by
  obtain ⟨_, _, h⟩ := of_bind h
  obtain ⟨before, after, hload, hremove, rfl⟩ := mutate_eq_ok h
  obtain ⟨_, hsome, hremove⟩ := of_bind hremove
  cases hremove
  exact ⟨before, hload, ensure_eq_ok.1 hsome, rfl, rfl⟩

/-- What `get` returns. -/
theorem get_of_load (h : loadUnlocked json = .ok file) (name : String) :
    RegistryStore.get name json = do
      validateName name
      let transport ← okOr ((lookup McpServer.name name file.servers).map McpServer.transport)
        ("no MCP named '" ++ name ++ "'")
      return .transport transport := by
  unfold RegistryStore.get
  cases validateName name with
  | error error => rfl
  | ok _ =>
    rw [h]
    cases hlookup : lookup McpServer.name name file.servers with
    | none => simp [ok_bind, hlookup, okOr]
    | some server => simp [ok_bind, hlookup, okOr]

/-- What `upsert` returns. -/
theorem upsert_of_load (h : loadUnlocked json = .ok file) (name : String) (transport : McpTransport) :
    (saved (RegistryStore.upsert P name transport json)).2 = do
      validateName name
      validateTransport P transport
      let _ ← nextRevision file.revision
      return .upserted (lookup McpServer.name name file.servers).isSome := by
  unfold RegistryStore.upsert mutate
  cases validateName name with
  | error error => rfl
  | ok _ =>
    cases validateTransport P transport with
    | error error => rfl
    | ok _ =>
      simp only [h, ok_bind, insertServer]
      cases nextRevision file.revision <;> rfl

/-- What `remove` returns. -/
theorem remove_of_load (h : loadUnlocked json = .ok file) (name : String) :
    (saved (RegistryStore.remove name json)).2 = do
      validateName name
      ensure ((lookup McpServer.name name file.servers).isSome = true)
        ("no MCP named '" ++ name ++ "'")
      let _ ← nextRevision file.revision
      return .removed := by
  unfold RegistryStore.remove mutate
  cases validateName name with
  | error error => rfl
  | ok _ =>
    simp only [h, ok_bind, removeServer]
    cases ensure ((lookup McpServer.name name file.servers).isSome = true)
      ("no MCP named '" ++ name ++ "'") with
    | error error => rfl
    | ok _ => cases hnext : nextRevision file.revision <;> simp [hnext] <;> rfl

theorem RegistryFile.Reflects.upsert (h : first.Reflects P file history) {name : String}
    {transport : McpTransport} (hvalid : (⟨name, transport⟩ : McpServer).Valid P) :
    first.Reflects P { file with
      revision := file.revision + 1
      servers := Keyed.upsert McpServer.name ⟨name, transport⟩ file.servers }
      (history ++ [.upsert name transport]) := by
  refine ⟨⟨h.valid.distinct.upsert, ?_⟩, ?_, ?_⟩
  · intro server hserver
    rcases (mem_upsert h.valid.distinct).1 hserver with rfl | ⟨hserver, _⟩
    · exact hvalid
    · exact h.valid.entries server hserver
  · simp [h.revision, Nat.add_assoc]
  · intro other
    rw [lookup_upsert, lastWritten_snoc, ← h.servers other]
    by_cases hname : other = name
    · subst hname
      simp [RegistryCall.effect]
    · simp [RegistryCall.effect, hname, Ne.symm hname]

theorem RegistryFile.Reflects.remove (h : first.Reflects P file history) (name : String) :
    first.Reflects P { file with
      revision := file.revision + 1
      servers := discard McpServer.name name file.servers } (history ++ [.remove name]) := by
  refine ⟨⟨h.valid.distinct.discard, ?_⟩, ?_, ?_⟩
  · intro server hserver
    exact h.valid.entries server (List.mem_filter.1 hserver).1
  · simp [h.revision, Nat.add_assoc]
  · intro other
    rw [Keyed.discard, lookup_filter h.valid.distinct, lastWritten_snoc, ← h.servers other]
    cases hlookup : lookup McpServer.name other file.servers with
    | none => by_cases hname : name = other <;> simp [RegistryCall.effect, hname]
    | some server =>
      obtain ⟨_, hkey⟩ := mem_of_lookup hlookup
      by_cases hname : name = other
      · simp [RegistryCall.effect, hname, Option.filter, hkey]
      · simp [RegistryCall.effect, hname, Option.filter, hkey, Ne.symm hname]

/-- A legal history leads to a registry that can be loaded. -/
theorem exists_reflects (hfirst : loadUnlocked json = .ok first) (hvalid : first.Valid P)
    (h : Legal (registryCalls P) json history) :
    ∃ file, loadUnlocked ((registryCalls P).replay json history) = .ok file ∧
      first.Reflects P file history := by
  induction h with
  | nil => exact ⟨first, hfirst, hvalid, rfl, fun _ => rfl⟩
  | snoc history call _ hstores ih =>
    obtain ⟨file, hload, hreflects⟩ := ih
    have hversion := loadUnlocked_version hload
    rw [Calls.replay_snoc, Calls.next]
    cases call with
    | list | get => cases hstores
    | upsert name transport =>
      obtain ⟨after, reply, hok, hsaved⟩ := saved_isSome hstores
      obtain ⟨hentry, before, hbefore, rfl, _⟩ := upsert_eq_ok hok
      cases hload.symm.trans hbefore
      rw [run_upsert, hsaved]
      exact ⟨_, loadUnlocked_registry hversion, hreflects.upsert hentry⟩
    | remove name =>
      obtain ⟨after, reply, hok, hsaved⟩ := saved_isSome hstores
      obtain ⟨before, hbefore, _, rfl, _⟩ := remove_eq_ok hok
      cases hload.symm.trans hbefore
      rw [run_remove, hsaved]
      exact ⟨_, loadUnlocked_registry hversion, hreflects.remove name⟩

/-! ## Results -/

variable (P) in
/-- The answer of a call, by what the first changes of a history have left. A change that succeeds is the
    next one of the history. -/
def Answered (first : RegistryFile) (history : List RegistryCall)
    (a : Answer RegistryCall (Except String RegistryReply)) : Prop :=
  let left := fun name => lastWritten first name (history.take a.pos)
  match a.op with
  | .list => ∃ servers, a.answer = .ok (.catalog (first.revision + a.pos) servers) ∧
      ∀ name, (lookup McpServer.name name servers).map McpServer.transport = left name
  | .get name => a.answer = do
      validateName name
      let transport ← okOr (left name) ("no MCP named '" ++ name ++ "'")
      return .transport transport
  | .upsert name transport => (a.answer = do
      validateName name
      validateTransport P transport
      let _ ← nextRevision (first.revision + a.pos)
      return .upserted (left name).isSome) ∧ (a.answer.isOk = true → history[a.pos]? = some a.op)
  | .remove name => (a.answer = do
      validateName name
      ensure ((left name).isSome = true) ("no MCP named '" ++ name ++ "'")
      let _ ← nextRevision (first.revision + a.pos)
      return .removed) ∧ (a.answer.isOk = true → history[a.pos]? = some a.op)

section Results

variable {ι : Type} [DecidableEq ι] {s : State ι McpJson RegistryCall (Except String RegistryReply)}

/-- **Registry calls take turns.** However the calls of any number of processes on one registry interleave
    and wherever they are given up, every answer is the one of a registry that has gone through the changes
    of one common history up to some moment during the call: `list` returns a revision that counts these
    changes, and what they have left under each name; `get` returns what they have left under the name;
    `upsert` and `remove` succeed or fail by what was there, and are the next change if they succeed. -/
theorem registry_calls_take_turns
    (hr : (system (registryCalls P) ι json).Reachable s) (hfirst : loadUnlocked json = .ok first)
    (hvalid : first.Valid P) {a : Answer RegistryCall (Except String RegistryReply)}
    (ha : a ∈ s.answers) :
    a.since ≤ a.pos ∧ a.pos ≤ s.history.length ∧ Answered P first s.history a := by
  have hlinear := linear_of_reachable hr
  have hfits := hlinear.answers a ha
  refine ⟨hfits.since_le, hfits.pos_le, ?_⟩
  obtain ⟨file, hload, hreflects⟩ := exists_reflects hfirst hvalid (hlinear.legal.take a.pos)
  have hlength : (s.history.take a.pos).length = a.pos := by
    rw [List.length_take]
    exact Nat.min_eq_left hfits.pos_le
  have hrevision : first.revision + a.pos = file.revision := by
    rw [hreflects.revision, hlength]
  have hanswer := hfits.answer
  have hstored := hfits.stored
  unfold Answered
  simp only [hrevision, ← hreflects.servers, Option.isSome_map]
  split
  · next hop =>
    refine ⟨file.servers, ?_, fun _ => rfl⟩
    rw [hanswer, hop]
    exact bind_ok hload rfl
  · next name hop =>
    rw [hanswer, hop]
    exact get_of_load hload name
  · next name transport hop =>
    rw [hop, run_upsert] at hanswer hstored
    rw [hop]
    exact ⟨hanswer.trans (upsert_of_load hload name transport),
      fun hok => hstored (by rwa [← saved_isOk, ← hanswer])⟩
  · next name hop =>
    rw [hop, run_remove] at hanswer hstored
    rw [hop]
    exact ⟨hanswer.trans (remove_of_load hload name),
      fun hok => hstored (by rwa [← saved_isOk, ← hanswer])⟩

end Results

open Reference in
/-- One process adds a server, and another one gets it. -/
theorem registry_get_follows_upsert :
    ∃ (s : State Bool McpJson RegistryCall (Except String RegistryReply))
      (a : Answer RegistryCall (Except String RegistryReply)),
      (system (registryCalls (platform [])) Bool .absent).Reachable s ∧ a ∈ s.answers ∧
      a.op = .get "m" ∧ a.answer = .ok (.transport (.stdio "cat" [] none)) ∧
      Answered (platform []) .default s.history a := by
  have hinit : (system (registryCalls (platform [])) Bool .absent).Reachable
      ⟨.absent, fun _ => .idle, [], []⟩ := ⟨_, rfl, .refl⟩
  have hrun : (registryCalls (platform [])).run (.upsert "m" (.stdio "cat" [] none)) .absent =
      (some (.registry ⟨1, 1, [⟨"m", .stdio "cat" [] none⟩]⟩), .ok (.upserted false)) := by rfl
  obtain ⟨t, ht, hstage, hvalue, hhistory, _⟩ :=
    exists_answered hinit true (.upsert "m" (.stdio "cat" [] none)) rfl (by rintro _ _ _ ⟨⟩)
  obtain ⟨u, hu, _, _, _, hanswers⟩ := exists_answered ht false (.get "m") (by rw [hstage])
    (by intro _ _ _ hholds; rw [hstage] at hholds; cases hholds)
  have hvalid : RegistryFile.default.Valid (platform []) :=
    ⟨List.nodup_nil, fun _ hserver => absurd hserver List.not_mem_nil⟩
  have hmem : _ ∈ u.answers := hanswers ▸ List.mem_cons_self
  refine ⟨u, _, hu, hmem, rfl, ?_, (registry_calls_take_turns hu rfl hvalid hmem).2.2⟩
  rw [hvalue, Calls.next, hrun]
  rfl

end AgentScale.Edge
