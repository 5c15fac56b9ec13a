import AgentScale.Client.Reconcile
import AgentScale.Client.SyncJournal

set_option autoImplicit false

/-! # `agent-scale mcp sync`

`mcp_sync::sync` writes an entry for every MCP server of the selected edges into the configuration of
the selected clients: `.mcp.json` for Claude, `.codex/config.toml` for Codex. A manifest keeps the
fingerprints of the entries it has generated. All files are replaced together through the journal.

The documents are values of `serde_json` and `toml_edit`. Of both only their nested tables matter, and
that a document is read back as it was printed; formatting is not modelled. Without its feature
`float_roundtrip`, `serde_json` reads some numbers as a neighbour of the number it has printed, so this
is assumed of the documents without such numbers only. -/

namespace AgentScale.Client

open Checked Redo

inductive ClientKind where
  | claude
  | codex
deriving DecidableEq

def ClientKind.key : ClientKind → String
  | .claude => "claude"
  | .codex => "codex"

/-- The name of the client in error messages. -/
def ClientKind.name : ClientKind → String
  | .claude => "Claude"
  | .codex => "Codex"

structure Manifest where
  version : Nat
  clients : BTreeMap (BTreeMap String)

def Manifest.default : Manifest := ⟨0, ∅⟩

/-- Values with nested tables, and their fingerprint: `serde_json::Value` with `json_fingerprint`,
    `toml_edit::Item` with `toml_fingerprint`. -/
structure Tree where
  Node : Type
  string : String → Node
  array : List Node → Node
  table : BTreeMap Node → Node
  /-- `as_object_mut`, `as_table_mut`. -/
  asTable : Node → Option (BTreeMap Node)
  asTable_table : ∀ m, asTable (table m) = some m
  fingerprint : Node → String

/-- What `proxy_json` and `proxy_toml` build. -/
def Tree.proxy (T : Tree) (edge server : String) : T.Node :=
  T.table (.ofList [("command", T.string "agent-scale"),
    ("args", T.array (["-e", edge, "mcp", "run", server].map T.string))])

/-- How the files are stored. -/
structure Formats (Content : Type) extends JournalFormat Content where
  json : Tree
  toml : Tree
  /-- `serde_json::from_slice`. -/
  parseJson : Content → Option json.Node
  /-- `with_newline(serde_json::to_vec_pretty(..))`. -/
  printJson : json.Node → Content
  /-- Every number of the document is read as it is printed. -/
  Exact : json.Node → Prop
  exact_asTable : ∀ document m, json.asTable document = some m →
    (Exact document ↔ ∀ (name : String) value, m[name]? = some value → Exact value)
  exact_proxy : ∀ edge server, Exact (json.proxy edge server)
  parse_printJson : ∀ document, Exact document → parseJson (printJson document) = some document
  /-- `parse::<DocumentMut>`: a document is a table. -/
  parseToml : Content → Option (BTreeMap toml.Node)
  printToml : BTreeMap toml.Node → Content
  parse_printToml : ∀ document, parseToml (printToml document) = some document
  parseManifest : Content → Option Manifest
  printManifest : Manifest → Content
  parse_printManifest : ∀ manifest, parseManifest (printManifest manifest) = some manifest

section Source

variable {Content : Type} (F : Formats Content)

def Formats.tree : ClientKind → Tree
  | .claude => F.json
  | .codex => F.toml

/-- What `reconcile` is given for a client. -/
def Formats.adapter (kind : ClientKind) : Adapter (F.tree kind).Node where
  client := kind.name
  proxy := (F.tree kind).proxy
  fingerprint := (F.tree kind).fingerprint

/-- `.mcp.json`, `.codex/config.toml`. -/
def ClientKind.relativePath : ClientKind → Path
  | .claude => [.normal ".mcp.json"]
  | .codex => [.normal ".codex", .normal "config.toml"]

def ClientKind.path (root : Path) (kind : ClientKind) : Path := root.join kind.relativePath

def manifestPath (root : Path) : Path := root.join [.normal ".agent-scale", .normal "mcp-sync.json"]

def ClientKind.serversKey : ClientKind → String
  | .claude => "mcpServers"
  | .codex => "mcp_servers"

/-- Read a file, with a default if it is not there. -/
def readOr {α : Type} (parse : Content → Option α) (missing : α) (path : Path) (disk : Disk Content) :
    Except String α :=
  match disk path.resolve with
  | none => .ok missing
  | some bytes => okOr (parse bytes) ("parse " ++ path.display)

def loadManifest (path : Path) (disk : Disk Content) : Except String Manifest :=
  readOr F.parseManifest .default path disk

def prepareClaude (root : Path) (disk : Disk Content) (desired : BTreeMap (String × String))
    (owned : BTreeMap String) : Except String (PreparedFile Content × BTreeMap String) := do
  let path := ClientKind.claude.path root
  let document ← readOr F.parseJson (F.json.table ∅) path disk
  let rootObject ← okOr (F.json.asTable document) ".mcp.json root must be an object"
  let servers ← okOr (F.json.asTable (rootObject.getD "mcpServers" (F.json.table ∅)))
    ".mcp.json mcpServers must be an object"
  let (servers, owned) ← (F.adapter .claude).prepare desired owned servers
  return (⟨path, F.printJson (F.json.table (rootObject.insert "mcpServers" (F.json.table servers)))⟩,
    owned)

def prepareCodex (root : Path) (disk : Disk Content) (desired : BTreeMap (String × String))
    (owned : BTreeMap String) : Except String (PreparedFile Content × BTreeMap String) := do
  let path := ClientKind.codex.path root
  let document ← readOr F.parseToml ∅ path disk
  let servers ← okOr (F.toml.asTable (document.getD "mcp_servers" (F.toml.table ∅)))
    "Codex mcp_servers must be a table"
  let (servers, owned) ← (F.adapter .codex).prepare desired owned servers
  return (⟨path, F.printToml (document.insert "mcp_servers" (F.toml.table servers))⟩, owned)

def prepare (root : Path) (disk : Disk Content) (desired : BTreeMap (String × String)) :
    ClientKind → BTreeMap String → Except String (PreparedFile Content × BTreeMap String)
  | .claude => prepareClaude F root disk desired
  | .codex => prepareCodex F root disk desired

/-- The loop of `sync` over the clients: each file is prepared, and what is owned in it goes to the
    manifest. -/
def prepareClients (root : Path) (disk : Disk Content) (desired : BTreeMap (String × String)) :
    List ClientKind → Manifest → List (PreparedFile Content) →
    Except String (Manifest × List (PreparedFile Content))
  | [], manifest, prepared => .ok (manifest, prepared)
  | kind :: rest, manifest, prepared => do
    let (file, owned) ← prepare F root disk desired kind (manifest.clients.getD kind.key ∅)
    prepareClients root disk desired rest
      { manifest with clients := manifest.clients.insert kind.key owned } (prepared ++ [file])

/-- The arguments of `sync`, and the answers the edges give it: their catalogs, and the health of
    their servers. -/
structure SyncRequest where
  edges : List String
  clients : List ClientKind
  check : Bool
  mcpList : String → Except String (Std.ExtTreeSet String compare)
  mcpCheck : String → String → Except String Unit

/-- `edges.into_iter().collect::<BTreeSet<_>>()`. -/
def SyncRequest.edgeNames (request : SyncRequest) : List String :=
  (Std.ExtTreeSet.ofList request.edges compare).toList

def SyncRequest.clientKinds (request : SyncRequest) : List ClientKind :=
  [.claude, .codex].filter (· ∈ request.clients)

/-- Add a server of an edge under its generated name. -/
def addServer (edge : String) (desired : BTreeMap (String × String)) (server : String) :
    Except String (BTreeMap (String × String)) := do
  let name := edge ++ "__" ++ server
  ensure (name ∉ desired) ("generated MCP alias collision: '" ++ name ++ "'")
  return desired.insert name (edge, server)

def addEdge (request : SyncRequest) (desired : BTreeMap (String × String)) (edge : String) :
    Except String (BTreeMap (String × String)) := do
  let catalog ← (request.mcpList edge).mapError
    (fun _ => "read MCP catalog from edge '" ++ edge ++ "'")
  foldAll (addServer edge) desired catalog.toList

def SyncRequest.desired (request : SyncRequest) : Except String (BTreeMap (String × String)) :=
  foldAll (addEdge request) ∅ request.edgeNames

def SyncRequest.healthCheck (request : SyncRequest) (_ : Unit) (target : String × String) :
    Except String Unit :=
  (request.mcpCheck target.1 target.2).mapError
    (fun _ => "health check " ++ target.1 ++ "/" ++ target.2)

def SyncRequest.healthChecks (request : SyncRequest) (desired : BTreeMap (String × String)) :
    Except String Unit :=
  if request.check then foldAll request.healthCheck () (desired.toList.map Prod.snd) else .ok ()

/-- `sync` between the recovery of a journal and the commit: the files to be written. -/
def prepareSync (root : Path) (request : SyncRequest) (disk : Disk Content) :
    Except String (List (PreparedFile Content)) := do
  let desired ← request.desired
  request.healthChecks desired
  let manifest ← loadManifest F (manifestPath root) disk
  ensure (manifest.version = 0 ∨ manifest.version = 1)
    ("unsupported MCP sync manifest version " ++ toString manifest.version)
  let (manifest, prepared) ← prepareClients F root disk desired request.clientKinds
    { manifest with version := 1 } []
  return prepared ++ [⟨manifestPath root, F.printManifest manifest⟩]

/-- What `sync` does after the recovery. -/
def commitSync (root : Path) (request : SyncRequest) (disk : Disk Content) : Run Content :=
  match prepareSync F root request disk with
  | .error error => ⟨[], .error error⟩
  | .ok prepared => commitPrepared F.toJournalFormat root prepared

def SyncRequest.validate (request : SyncRequest) : Except String Unit := do
  ensure (request.edges ≠ []) "mcp sync requires at least one -e/--edge"
  ensure (request.clients ≠ []) "mcp sync requires --client"

/-- A run of `sync`, under the lock of the project. -/
def sync (root : Path) (request : SyncRequest) (disk : Disk Content) : Run Content :=
  match request.validate with
  | .error error => ⟨[], .error error⟩
  | .ok () =>
    let recovery := recoverJournal F.toJournalFormat root disk
    recovery.andThen (commitSync F root request (recovery.final disk))

/-! ## Entries -/

/-- The top-level table in the contents of a client's file. -/
def Formats.fields : (kind : ClientKind) → Content → Option (BTreeMap (F.tree kind).Node)
  | .claude => fun bytes => (F.parseJson bytes).bind F.json.asTable
  | .codex => F.parseToml

/-- The entries in a top-level table. -/
def Formats.servers (kind : ClientKind) (fields : BTreeMap (F.tree kind).Node) :
    Option (BTreeMap (F.tree kind).Node) :=
  (F.tree kind).asTable (fields.getD kind.serversKey ((F.tree kind).table ∅))

/-- The entry of a name in a client's file. -/
def Formats.entry (root : Path) (disk : Disk Content) (kind : ClientKind) (name : String) :
    Option (F.tree kind).Node := do
  let bytes ← disk (kind.path root).resolve
  let fields ← F.fields kind bytes
  let servers ← F.servers kind fields
  servers[name]?

/-- What a client's file has under another key. -/
def Formats.setting (root : Path) (disk : Disk Content) (kind : ClientKind) (key : String) :
    Option (F.tree kind).Node := do
  let bytes ← disk (kind.path root).resolve
  let fields ← F.fields kind bytes
  fields[key]?

/-- The numbers in the contents of a client's file are read as they are printed. -/
def Formats.ExactBytes : ClientKind → Content → Prop
  | .claude, bytes => ∀ document, F.parseJson bytes = some document → F.Exact document
  | .codex, _ => True

def Formats.ExactFiles (root : Path) (disk : Disk Content) : Prop :=
  ∀ (kind : ClientKind) bytes, disk (kind.path root).resolve = some bytes → F.ExactBytes kind bytes

end Source

/-! ## What preparing a file does -/

section Effects

variable {Content : Type} {F : Formats Content} {root : Path} {disk : Disk Content}
  {desired : BTreeMap (String × String)} {owned owned' : BTreeMap String} {kind : ClientKind}
  {file : PreparedFile Content}

/-- The fields that are there before, or none if the file is missing. -/
def Formats.current (F : Formats Content) (root : Path) (disk : Disk Content) (kind : ClientKind) :
    Option (BTreeMap (F.tree kind).Node) :=
  match disk (kind.path root).resolve with
  | none => some ∅
  | some bytes => F.fields kind bytes

/-- What is read of a file: its contents, or the default if it is missing. -/
theorem readOr_eq_ok {α : Type} {parse : Content → Option α} {missing document : α} {path : Path}
    (h : readOr parse missing path disk = .ok document) :
    (disk path.resolve = none ∧ document = missing) ∨
      ∃ bytes, disk path.resolve = some bytes ∧ parse bytes = some document := by
  unfold readOr at h
  cases hdisk : disk path.resolve with
  | none =>
    rw [hdisk] at h
    exact .inl ⟨rfl, (Except.ok.inj h).symm⟩
  | some bytes =>
    rw [hdisk] at h
    exact .inr ⟨bytes, rfl, okOr_eq_ok.1 h⟩

theorem Formats.exact_table (F : Formats Content) {m : BTreeMap F.json.Node} :
    F.Exact (F.json.table m) ↔ ∀ (name : String) value, m[name]? = some value → F.Exact value :=
  F.exact_asTable _ m (F.json.asTable_table m)

theorem Formats.fields_claude (F : Formats Content) {bytes : Content} {document : F.json.Node}
    (h : F.parseJson bytes = some document) : F.fields .claude bytes = F.json.asTable document :=
  congrArg (Option.bind · F.json.asTable) h

theorem prepareClaude_eq_ok (hexact : F.ExactFiles root disk)
    (h : prepareClaude F root disk desired owned = .ok (file, owned')) :
    file.path = ClientKind.claude.path root ∧ F.ExactBytes .claude file.bytes ∧
      ∃ fields servers servers', F.current root disk .claude = some fields ∧
        F.servers .claude fields = some servers ∧
        (F.adapter .claude).prepare desired owned servers = .ok (servers', owned') ∧
        F.fields .claude file.bytes = some (fields.insert "mcpServers" (F.json.table servers')) := by
  obtain ⟨document, hread, h⟩ := of_bind h
  obtain ⟨rootObject, hroot, h⟩ := of_bind h
  obtain ⟨servers, hservers, h⟩ := of_bind h
  obtain ⟨⟨servers', owned₁⟩, hprepare, h⟩ := of_bind h
  cases h
  rw [okOr_eq_ok] at hroot hservers
  have hread : F.current root disk .claude = some rootObject ∧ F.Exact document := by
    unfold Formats.current
    rcases readOr_eq_ok hread with ⟨hdisk, rfl⟩ | ⟨bytes, hdisk, hparse⟩
    · rw [F.json.asTable_table] at hroot
      rw [hdisk]
      exact ⟨hroot, F.exact_table.2 (by simp)⟩
    · rw [hdisk]
      exact ⟨(F.fields_claude hparse).trans hroot, hexact .claude bytes hdisk document hparse⟩
  -- what is written has the numbers of what was read, and generated entries have none
  have hfields := (F.exact_asTable _ _ hroot).1 hread.2
  have hold : ∀ (name : String) value, servers[name]? = some value → F.Exact value := by
    refine (F.exact_asTable _ _ hservers).1 ?_
    rw [Std.ExtTreeMap.getD_eq_getD_getElem?]
    cases hkey : rootObject["mcpServers"]? with
    | none => exact F.exact_table.2 (by simp)
    | some value => exact hfields _ value hkey
  have hnew : F.Exact (F.json.table servers') := by
    refine F.exact_table.2 fun name value hvalue => ?_
    rcases (F.adapter .claude).prepare_new hprepare hvalue with hsame | ⟨edge, server, _, rfl⟩
    · exact hold name value hsame
    · exact F.exact_proxy edge server
  have hwritten : F.Exact (F.json.table (rootObject.insert "mcpServers" (F.json.table servers'))) := by
    refine F.exact_table.2 fun name value hvalue => ?_
    rw [Std.ExtTreeMap.getElem?_insert] at hvalue
    split at hvalue
    · cases hvalue
      exact hnew
    · exact hfields name value hvalue
  have hparse := F.parse_printJson _ hwritten
  refine ⟨rfl, ?_, rootObject, servers, servers', hread.1, hservers, hprepare, ?_⟩
  · intro again hagain
    cases hparse.symm.trans hagain
    exact hwritten
  · exact (F.fields_claude hparse).trans (F.json.asTable_table _)

theorem prepareCodex_eq_ok (h : prepareCodex F root disk desired owned = .ok (file, owned')) :
    file.path = ClientKind.codex.path root ∧ F.ExactBytes .codex file.bytes ∧
      ∃ fields servers servers', F.current root disk .codex = some fields ∧
        F.servers .codex fields = some servers ∧
        (F.adapter .codex).prepare desired owned servers = .ok (servers', owned') ∧
        F.fields .codex file.bytes = some (fields.insert "mcp_servers" (F.toml.table servers')) := by
  obtain ⟨document, hread, h⟩ := of_bind h
  obtain ⟨servers, hservers, h⟩ := of_bind h
  obtain ⟨⟨servers', owned₁⟩, hprepare, h⟩ := of_bind h
  cases h
  rw [okOr_eq_ok] at hservers
  refine ⟨rfl, trivial, document, servers, servers', ?_, hservers, hprepare, F.parse_printToml _⟩
  unfold Formats.current
  rcases readOr_eq_ok hread with ⟨hdisk, rfl⟩ | ⟨bytes, hdisk, hparse⟩
  · rw [hdisk]
    rfl
  · rw [hdisk]
    exact hparse

/-- A prepared file holds the reconciled entries of the file it replaces, and its other fields. -/
theorem prepare_eq_ok (hexact : F.ExactFiles root disk)
    (h : prepare F root disk desired kind owned = .ok (file, owned')) :
    file.path = kind.path root ∧ F.ExactBytes kind file.bytes ∧ ∃ fields servers servers',
      F.current root disk kind = some fields ∧ F.servers kind fields = some servers ∧
      (F.adapter kind).prepare desired owned servers = .ok (servers', owned') ∧
      F.fields kind file.bytes =
        some (fields.insert kind.serversKey ((F.tree kind).table servers')) := by
  cases kind with
  | claude => exact prepareClaude_eq_ok hexact h
  | codex => exact prepareCodex_eq_ok h

end Effects

end AgentScale.Client
