import AgentScale.Client.McpSync
import AgentScale.Library.Transition

set_option autoImplicit false

/-! # Entries the user has written

A project goes through runs of `sync`, cut off anywhere, and edits of the two configuration files
between them. `Project` also keeps, as a record for the statements only, which entries have been
generated. The invariant is that every fingerprint in the manifest is one of a generated entry
(`Sound`), and that a journal in place leads to files with the same handwritten entries
(`SameHandwritten`). An edit can break the second part: the journal does not know of it. -/

namespace AgentScale.Client

open Checked Redo Transition

variable {Content : Type}

/-- Entries that have been generated: client, name, edge and server. -/
abbrev GeneratedEntries : Type := List (ClientKind × String × String × String)

structure Project (Content : Type) where
  disk : Disk Content
  generated : GeneratedEntries

def SyncRequest.generates (request : SyncRequest) : GeneratedEntries :=
  match request.desired with
  | .error _ => []
  | .ok desired =>
    request.clientKinds.flatMap (fun kind => desired.toList.map (fun p => (kind, p.1, p.2)))

/-- A run of `sync` that is cut off after `n` writes, or not at all if there are no more. Its entries
    are generated once its journal is in place, which is its first write after the recovery. -/
def Project.sync (F : Formats Content) (root : Path) (s : Project Content) (request : SyncRequest)
    (n : Nat) : Project Content :=
  let done := (Client.sync F root request s.disk).writes.take n
  { disk := perform s.disk done
    generated :=
      if (recoverJournal F.toJournalFormat root s.disk).writes.length < done.length then
        request.generates ++ s.generated
      else s.generated }

/-- The user gives a client's file new contents, or removes it. -/
def Project.edit (root : Path) (s : Project Content) (kind : ClientKind) (bytes : Option Content) :
    Project Content :=
  { s with disk := Function.update s.disk (kind.path root).resolve bytes }

/-- A run of `sync`, or an edit of the user that is allowed. -/
inductive Project.Step (F : Formats Content) (root : Path)
    (allowed : Project Content → ClientKind → Option Content → Prop) :
    Project Content → Project Content → Prop
  | sync (s : Project Content) (request : SyncRequest) (n : Nat) :
      Step F root allowed s (s.sync F root request n)
  | edit (s : Project Content) (kind : ClientKind) (bytes : Option Content)
      (h : allowed s kind bytes) : Step F root allowed s (s.edit root kind bytes)

/-- A project that `sync` has not been run in, with any configuration whose numbers are read as they are
    printed, and what happens to it. -/
def projectWhere (F : Formats Content) (root : Path)
    (allowed : Project Content → ClientKind → Option Content → Prop) : System (Project Content) where
  init s := s.generated = [] ∧ s.disk (manifestPath root).resolve = none ∧
    s.disk (journalPath root).resolve = none ∧ F.ExactFiles root s.disk
  step := Project.Step F root allowed

variable (F : Formats Content) (root : Path)

def Generated (generated : GeneratedEntries) (kind : ClientKind) (name : String)
    (entry : (F.tree kind).Node) : Prop :=
  ∃ edge server, (kind, name, edge, server) ∈ generated ∧ entry = (F.adapter kind).proxy edge server

/-- The entry does not pass for a generated one: it has no fingerprint of an entry generated under its
    name unless it is such an entry. -/
def Distinguished (generated : GeneratedEntries) (kind : ClientKind) (name : String)
    (entry : (F.tree kind).Node) : Prop :=
  ∀ edge server, (kind, name, edge, server) ∈ generated →
    (F.adapter kind).fingerprint entry = (F.adapter kind).desiredHash edge server →
    Generated F generated kind name entry

/-- Everything that passes for generated has been generated: entries with the fingerprint of a
    generated one, and the fingerprints in the manifest. -/
structure Sound (generated : GeneratedEntries) (disk : Disk Content) : Prop where
  exact : F.ExactFiles root disk
  distinguished : ∀ kind name entry, F.entry root disk kind name = some entry →
    Distinguished F generated kind name entry
  recorded : ∀ manifest, loadManifest F (manifestPath root) disk = .ok manifest →
    ∀ (kind : ClientKind) (name hash : String),
      (manifest.clients.getD kind.key ∅)[name]? = some hash →
      ∃ edge server, (kind, name, edge, server) ∈ generated ∧
        hash = (F.adapter kind).desiredHash edge server

structure SameHandwritten (generated : GeneratedEntries) (disk disk' : Disk Content) : Prop where
  entries : ∀ kind name entry, ¬ Generated F generated kind name entry →
    (F.entry root disk kind name = some entry ↔ F.entry root disk' kind name = some entry)
  settings : ∀ kind key, key ≠ kind.serversKey →
    F.setting root disk kind key = F.setting root disk' kind key

variable {F root} {kind kind' : ClientKind} {name : String} {generated generated' : GeneratedEntries}
  {disk disk' old new : Disk Content} {prepared : List (PreparedFile Content)}
  {request : SyncRequest} {desired : BTreeMap (String × String)} {s : Project Content}

/-! ## Files -/

theorem ClientKind.validate (kind : ClientKind) :
    validateRelativePath kind.relativePath = .ok () := by
  cases kind with
  | claude => decide
  | codex => decide

theorem validate_manifest : validateRelativePath
    [.normal ".agent-scale", .normal "mcp-sync.json"] = .ok () := by
  decide

/-- Files with different relative paths are different files. -/
theorem resolve_ne {path path' : Path} (hvalid : validateRelativePath path = .ok ())
    (hvalid' : validateRelativePath path' = .ok ()) (hne : path ≠ path') :
    (root.join path).resolve ≠ (root.join path').resolve := by
  intro heq
  have hpaths := Within.resolve_injective ⟨_, join_eq_append hvalid, hvalid⟩
    ⟨_, join_eq_append hvalid', hvalid'⟩ heq
  rw [join_eq_append hvalid, join_eq_append hvalid'] at hpaths
  exact hne (List.append_cancel_left hpaths)

theorem ClientKind.resolve_ne_journal (root : Path) (kind : ClientKind) :
    (kind.path root).resolve ≠ (journalPath root).resolve :=
  resolve_ne kind.validate validate_journal (by cases kind <;> decide)

theorem ClientKind.resolve_ne_manifest (root : Path) (kind : ClientKind) :
    (kind.path root).resolve ≠ (manifestPath root).resolve :=
  resolve_ne kind.validate validate_manifest (by cases kind <;> decide)

theorem manifest_resolve_ne_journal (root : Path) :
    (manifestPath root).resolve ≠ (journalPath root).resolve :=
  resolve_ne validate_manifest validate_journal (by decide)

theorem ClientKind.resolve_ne (root : Path) (hne : kind ≠ kind') :
    (kind.path root).resolve ≠ (kind'.path root).resolve := by
  refine Client.resolve_ne kind.validate kind'.validate ?_
  cases kind <;> cases kind' <;> first | decide | exact absurd rfl hne

/-- A client's entries depend on its file only. -/
theorem entry_congr (h : disk (kind.path root).resolve = disk' (kind.path root).resolve) :
    F.entry root disk kind name = F.entry root disk' kind name := by
  unfold Formats.entry
  rw [h]

theorem setting_congr {key : String}
    (h : disk (kind.path root).resolve = disk' (kind.path root).resolve) :
    F.setting root disk kind key = F.setting root disk' kind key := by
  unfold Formats.setting
  rw [h]

theorem loadManifest_congr
    (h : disk (manifestPath root).resolve = disk' (manifestPath root).resolve) :
    loadManifest F (manifestPath root) disk = loadManifest F (manifestPath root) disk' := by
  unfold loadManifest readOr
  rw [h]

theorem entry_of_fields {fields servers : BTreeMap (F.tree kind).Node} {bytes : Content}
    (hbytes : disk (kind.path root).resolve = some bytes)
    (hfields : F.fields kind bytes = some fields) (hservers : F.servers kind fields = some servers) :
    F.entry root disk kind name = servers[name]? := by
  simp only [Formats.entry, hbytes, hfields, hservers, Option.bind_eq_bind, Option.bind_some]

theorem setting_of_fields {fields : BTreeMap (F.tree kind).Node} {bytes : Content} {key : String}
    (hbytes : disk (kind.path root).resolve = some bytes)
    (hfields : F.fields kind bytes = some fields) :
    F.setting root disk kind key = fields[key]? := by
  simp only [Formats.setting, hbytes, hfields, Option.bind_eq_bind, Option.bind_some]

/-- What is read of a client's file before it is replaced. -/
theorem of_current {fields servers : BTreeMap (F.tree kind).Node}
    (h : F.current root disk kind = some fields) (hservers : F.servers kind fields = some servers) :
    (∀ name, F.entry root disk kind name = servers[name]?) ∧
      ∀ key, F.setting root disk kind key = fields[key]? := by
  unfold Formats.current at h
  cases hbytes : disk (kind.path root).resolve with
  | none =>
    rw [hbytes] at h
    cases h
    rw [Formats.servers, Std.ExtTreeMap.getD_empty, (F.tree kind).asTable_table] at hservers
    cases hservers
    simp [Formats.entry, Formats.setting, hbytes]
  | some bytes =>
    rw [hbytes] at h
    exact ⟨fun name => entry_of_fields hbytes h hservers, fun key => setting_of_fields hbytes h⟩

/-! ## Disks on the way -/

variable {entry : (F.tree kind).Node}

theorem Generated.mono (h : Generated F generated kind name entry) (hsub : generated ⊆ generated') :
    Generated F generated' kind name entry := by
  obtain ⟨edge, server, hmem, heq⟩ := h
  exact ⟨edge, server, hsub hmem, heq⟩

theorem SameHandwritten.symm (h : SameHandwritten F root generated disk disk') :
    SameHandwritten F root generated disk' disk :=
  ⟨fun kind name entry hhand => (h.entries kind name entry hhand).symm,
    fun kind key hkey => (h.settings kind key hkey).symm⟩

theorem SameHandwritten.trans {disk'' : Disk Content}
    (h : SameHandwritten F root generated disk disk')
    (h' : SameHandwritten F root generated disk' disk'') :
    SameHandwritten F root generated disk disk'' :=
  ⟨fun kind name entry hhand => (h.entries kind name entry hhand).trans
    (h'.entries kind name entry hhand),
    fun kind key hkey => (h.settings kind key hkey).trans (h'.settings kind key hkey)⟩

theorem between_sameHandwritten (h : SameHandwritten F root generated old new)
    (hbetween : ∀ k, k ≠ (journalPath root).resolve → disk k = old k ∨ disk k = new k) :
    SameHandwritten F root generated disk new := by
  constructor
  · intro kind name entry hhand
    rcases hbetween _ (kind.resolve_ne_journal root) with hsame | hsame
    · rw [entry_congr hsame]
      exact h.entries kind name entry hhand
    · rw [entry_congr hsame]
  · intro kind key hkey
    rcases hbetween _ (kind.resolve_ne_journal root) with hsame | hsame
    · exact (setting_congr hsame).trans (h.settings kind key hkey)
    · exact setting_congr hsame

/-! ## What a run prepares -/

theorem mem_generates (hdesired : request.desired = .ok desired) {edge server : String} :
    (kind, name, edge, server) ∈ request.generates ↔
      kind ∈ request.clientKinds ∧ desired[name]? = some (edge, server) := by
  simp [SyncRequest.generates, hdesired, Std.ExtTreeMap.mem_toList_iff_getElem?_eq_some]

theorem SyncRequest.nodup_clientKinds (request : SyncRequest) : request.clientKinds.Nodup :=
  List.Nodup.filter _ (by decide)

theorem ClientKind.key_injective : Function.Injective ClientKind.key := by
  intro kind kind' h
  cases kind <;> cases kind' <;> first | rfl | exact absurd h (by decide)

/-- The loop over the clients: each selected client has its file prepared from what is owned in it, and
    the manifest gets what is owned afterwards. -/
theorem prepareClients_eq_ok {kinds : List ClientKind} {manifest manifest' : Manifest}
    {before : List (PreparedFile Content)} (hexact : F.ExactFiles root disk) (hkinds : kinds.Nodup)
    (h : prepareClients F root disk desired kinds manifest before = .ok (manifest', prepared)) :
    prepared.map PreparedFile.path =
        before.map PreparedFile.path ++ kinds.map (ClientKind.path root) ∧
      before ⊆ prepared ∧
      (∀ kind ∈ kinds, ∃ file ∈ prepared, prepare F root disk desired kind
        (manifest.clients.getD kind.key ∅) = .ok (file, manifest'.clients.getD kind.key ∅)) ∧
      ∀ kind : ClientKind, kind ∉ kinds →
        manifest'.clients.getD kind.key ∅ = manifest.clients.getD kind.key ∅ := by
  induction kinds generalizing manifest before with
  | nil =>
    cases h
    exact ⟨by simp, List.Subset.refl _, by simp, fun _ _ => rfl⟩
  | cons first rest ih =>
    obtain ⟨hfirst, hrest⟩ := List.nodup_cons.1 hkinds
    obtain ⟨⟨file, owned⟩, hprepare, h⟩ := of_bind h
    obtain ⟨hpaths, hsub, hall, hothers⟩ := ih hrest h
    have hinsert : ∀ kind : ClientKind, kind ≠ first →
        (manifest.clients.insert first.key owned).getD kind.key ∅ =
          manifest.clients.getD kind.key ∅ := by
      intro kind hne
      have hkey : first.key ≠ kind.key := fun heq => hne (ClientKind.key_injective heq).symm
      simp [Std.ExtTreeMap.getD_insert, hkey]
    refine ⟨?_, fun f hf => hsub (List.mem_append_left _ hf), ?_, ?_⟩
    · rw [hpaths, List.map_append, List.append_assoc]
      simp [(prepare_eq_ok hexact hprepare).1]
    · intro kind hkind
      rcases List.mem_cons.1 hkind with rfl | hkind
      · refine ⟨file, hsub (List.mem_append_right _ List.mem_cons_self), ?_⟩
        rw [hothers kind hfirst, hprepare]
        simp
      · obtain ⟨file', hfile', hprepare'⟩ := hall kind hkind
        have hne : kind ≠ first := fun heq => hfirst (heq ▸ hkind)
        rw [hinsert kind hne] at hprepare'
        exact ⟨file', hfile', hprepare'⟩
    · intro kind hkind
      obtain ⟨hne, hkind⟩ := not_or.1 (fun hmem => hkind (List.mem_cons.2 hmem))
      exact (hothers kind hkind).trans (hinsert kind hne)

/-- What a run prepares: a file for each selected client, and the manifest. -/
structure Prepares (F : Formats Content) (root : Path) (request : SyncRequest) (disk : Disk Content)
    (prepared : List (PreparedFile Content)) (desired : BTreeMap (String × String))
    (manifest manifest' : Manifest) : Prop where
  exact : F.ExactFiles root disk
  desired_eq : request.desired = .ok desired
  loaded : loadManifest F (manifestPath root) disk = .ok manifest
  paths : prepared.map PreparedFile.path =
    request.clientKinds.map (ClientKind.path root) ++ [manifestPath root]
  stored : ⟨manifestPath root, F.printManifest manifest'⟩ ∈ prepared
  selected : ∀ kind ∈ request.clientKinds, ∃ file ∈ prepared, prepare F root disk desired kind
    (manifest.clients.getD kind.key ∅) = .ok (file, manifest'.clients.getD kind.key ∅)
  others : ∀ kind : ClientKind, kind ∉ request.clientKinds →
    manifest'.clients.getD kind.key ∅ = manifest.clients.getD kind.key ∅

theorem prepareSync_eq_ok (hexact : F.ExactFiles root disk)
    (h : prepareSync F root request disk = .ok prepared) :
    ∃ desired manifest manifest', Prepares F root request disk prepared desired manifest manifest' := by
  obtain ⟨desired, hdesired, h⟩ := of_bind h
  obtain ⟨_, _, h⟩ := of_bind h
  obtain ⟨manifest, hload, h⟩ := of_bind h
  obtain ⟨_, _, h⟩ := of_bind h
  obtain ⟨⟨manifest', files⟩, hclients, h⟩ := of_bind h
  cases h
  obtain ⟨hpaths, _, hall, hothers⟩ :=
    prepareClients_eq_ok hexact request.nodup_clientKinds hclients
  refine ⟨desired, manifest, manifest', hexact, hdesired, hload, ?_, ?_, ?_, hothers⟩
  · simp [hpaths]
  · exact List.mem_append_right _ List.mem_cons_self
  · intro kind hkind
    obtain ⟨file, hfile, hprepare⟩ := hall kind hkind
    exact ⟨file, List.mem_append_left _ hfile, hprepare⟩

section Prepared

variable {manifest manifest' : Manifest}
  (h : Prepares F root request disk prepared desired manifest manifest')

include h

theorem Prepares.nodup_paths : (prepared.map PreparedFile.path).Nodup := by
  rw [h.paths, List.nodup_append]
  refine ⟨?_, by simp, ?_⟩
  · refine request.nodup_clientKinds.map_on (fun kind _ kind' _ heq => ?_)
    by_contra hne
    exact ClientKind.resolve_ne root hne (congrArg Path.resolve heq)
  · rintro path hpath path' hpath' rfl
    obtain ⟨kind, _, rfl⟩ := List.mem_map.1 hpath
    exact kind.resolve_ne_manifest root (congrArg Path.resolve (List.mem_singleton.1 hpath'))

theorem Prepares.apart : journalPath root ∉ prepared.map PreparedFile.path := by
  rw [h.paths]
  intro hmem
  rcases List.mem_append.1 hmem with hmem | hmem
  · obtain ⟨kind, _, heq⟩ := List.mem_map.1 hmem
    exact kind.resolve_ne_journal root (congrArg Path.resolve heq)
  · exact manifest_resolve_ne_journal root
      (congrArg Path.resolve (List.mem_singleton.1 hmem)).symm

/-- The file of a client that is not selected stays as it is. -/
theorem Prepares.unselected (hnew : AllNew prepared disk new) (hkind : kind ∉ request.clientKinds) :
    new (kind.path root).resolve = disk (kind.path root).resolve := by
  refine hnew.2 _ (fun hmem => ?_)
  have hresolved : prepared.map (fun file => file.path.resolve) =
      (prepared.map PreparedFile.path).map Path.resolve := by
    rw [List.map_map]
    rfl
  rw [hresolved, h.paths, List.map_append, List.map_map] at hmem
  rcases List.mem_append.1 hmem with hmem | hmem
  · obtain ⟨kind', hkind', heq⟩ := List.mem_map.1 hmem
    have hne : kind' ≠ kind := fun hsame => hkind (hsame ▸ hkind')
    exact ClientKind.resolve_ne root hne heq
  · exact kind.resolve_ne_manifest root (List.mem_singleton.1 hmem)

/-- The entries of a selected client are reconciled, and its other fields are as they were. -/
theorem Prepares.reconciled (hnew : AllNew prepared disk new) (hkind : kind ∈ request.clientKinds) :
    ∃ servers servers', (F.adapter kind).prepare desired (manifest.clients.getD kind.key ∅) servers =
        .ok (servers', manifest'.clients.getD kind.key ∅) ∧
      (∀ name, F.entry root disk kind name = servers[name]?) ∧
      (∀ name, F.entry root new kind name = servers'[name]?) ∧
      ∀ key, key ≠ kind.serversKey → F.setting root disk kind key = F.setting root new kind key := by
  obtain ⟨file, hfile, hprepare⟩ := h.selected kind hkind
  obtain ⟨hpath, _, fields, servers, servers', hcurrent, hservers, hreconcile, hfields⟩ :=
    prepare_eq_ok h.exact hprepare
  have hbytes := hnew.1 file hfile
  rw [hpath] at hbytes
  obtain ⟨hentries, hsettings⟩ := of_current hcurrent hservers
  refine ⟨servers, servers', hreconcile, hentries, fun name => entry_of_fields hbytes hfields ?_,
    fun key hkey => ?_⟩
  · simp [Formats.servers, (F.tree kind).asTable_table]
  · rw [hsettings, setting_of_fields hbytes hfields, Std.ExtTreeMap.getElem?_insert, if_neg]
    simpa using hkey.symm

/-- The files that are written are read as they are printed. -/
theorem Prepares.exact_new (hnew : AllNew prepared disk new) : F.ExactFiles root new := by
  intro kind bytes hbytes
  by_cases hkind : kind ∈ request.clientKinds
  · obtain ⟨file, hfile, hprepare⟩ := h.selected kind hkind
    obtain ⟨hpath, hexact, _⟩ := prepare_eq_ok h.exact hprepare
    have hwritten := hnew.1 file hfile
    rw [hpath, hbytes] at hwritten
    exact Option.some.inj hwritten ▸ hexact
  · exact h.exact kind bytes ((h.unselected hnew hkind).symm.trans hbytes)

/-- An entry with its recorded fingerprint has been generated. -/
theorem Prepares.generated_of_recorded (hsound : Sound F root generated disk)
    (hentry : F.entry root disk kind name = some entry)
    (hrecorded : (manifest.clients.getD kind.key ∅)[name]? = some ((F.adapter kind).fingerprint entry)) :
    Generated F generated kind name entry := by
  obtain ⟨edge, server, hmem, hhash⟩ := hsound.recorded manifest h.loaded kind name _ hrecorded
  exact hsound.distinguished kind name entry hentry edge server hmem hhash

/-- An entry in the way of a desired one has been generated. -/
theorem Prepares.generated_of_desired (hsound : Sound F root generated disk)
    (hnew : AllNew prepared disk new) (hkind : kind ∈ request.clientKinds) (hname : name ∈ desired)
    (hentry : F.entry root disk kind name = some entry) :
    Generated F generated kind name entry := by
  obtain ⟨servers, servers', hreconcile, hbefore, _, _⟩ := h.reconciled hnew hkind
  have hservers : servers[name]? = some entry := (hbefore name).symm.trans hentry
  exact h.generated_of_recorded hsound hentry
    ((F.adapter kind).prepare_recorded hreconcile hservers (.inr hname))

/-- A handwritten entry is in the new file, and it is not about to be generated. -/
theorem Prepares.keeps (hsound : Sound F root generated disk) (hnew : AllNew prepared disk new)
    (hentry : F.entry root disk kind name = some entry)
    (hhand : ¬ Generated F generated kind name entry) :
    F.entry root new kind name = some entry ∧
      ¬ Generated F (request.generates ++ generated) kind name entry := by
  by_cases hkind : kind ∈ request.clientKinds
  · obtain ⟨servers, servers', hreconcile, hbefore, hafter, _⟩ := h.reconciled hnew hkind
    obtain ⟨hname, hkept⟩ := (F.adapter kind).prepare_keeps hreconcile
      ((hbefore name).symm.trans hentry)
      (fun hrecorded => hhand (h.generated_of_recorded hsound hentry hrecorded))
    refine ⟨(hafter name).trans hkept, ?_⟩
    rintro ⟨edge, server, hmem, heq⟩
    rcases List.mem_append.1 hmem with hmem | hmem
    · exact hname (mem_iff_exists.2 ⟨_, ((mem_generates h.desired_eq).1 hmem).2⟩)
    · exact hhand ⟨edge, server, hmem, heq⟩
  · refine ⟨(entry_congr (h.unselected hnew hkind)).trans hentry, ?_⟩
    rintro ⟨edge, server, hmem, heq⟩
    rcases List.mem_append.1 hmem with hmem | hmem
    · exact hkind ((mem_generates h.desired_eq).1 hmem).1
    · exact hhand ⟨edge, server, hmem, heq⟩

/-- Every entry of a new file is an old one, or generated in this run. -/
theorem Prepares.new_entry (hnew : AllNew prepared disk new)
    (hentry : F.entry root new kind name = some entry) :
    F.entry root disk kind name = some entry ∨
      Generated F (request.generates ++ generated) kind name entry := by
  by_cases hkind : kind ∈ request.clientKinds
  · obtain ⟨servers, servers', hreconcile, hbefore, hafter, _⟩ := h.reconciled hnew hkind
    rcases (F.adapter kind).prepare_new hreconcile ((hafter name).symm.trans hentry) with hsame |
      ⟨edge, server, hname, heq⟩
    · exact .inl ((hbefore name).trans hsame)
    · have hmem := (mem_generates h.desired_eq).2 ⟨hkind, hname⟩
      exact .inr ⟨edge, server, List.mem_append_left _ hmem, heq⟩
  · exact .inl ((entry_congr (h.unselected hnew hkind)).symm.trans hentry)

theorem Prepares.sameHandwritten (hsound : Sound F root generated disk)
    (hnew : AllNew prepared disk new) :
    SameHandwritten F root (request.generates ++ generated) disk new := by
  refine ⟨fun kind name entry hhand => ⟨fun hentry => ?_, fun hentry => ?_⟩, fun kind key hkey => ?_⟩
  · have hhand' : ¬ Generated F generated kind name entry :=
      fun hgen => hhand (hgen.mono (List.subset_append_right _ _))
    exact (h.keeps hsound hnew hentry hhand').1
  · exact (h.new_entry hnew hentry).resolve_right hhand
  · by_cases hkind : kind ∈ request.clientKinds
    · obtain ⟨_, _, _, _, _, hsettings⟩ := h.reconciled hnew hkind
      exact hsettings key hkey
    · exact (setting_congr (h.unselected hnew hkind)).symm

theorem Prepares.sound_old (hsound : Sound F root generated disk) (hnew : AllNew prepared disk new) :
    Sound F root (request.generates ++ generated) disk := by
  have hsub : generated ⊆ request.generates ++ generated := List.subset_append_right _ _
  refine ⟨h.exact, ?_, ?_⟩
  · intro kind name entry hentry edge server hmem hhash
    rcases List.mem_append.1 hmem with hmem | hmem
    · obtain ⟨hkind, hname⟩ := (mem_generates h.desired_eq).1 hmem
      exact (h.generated_of_desired hsound hnew hkind (mem_iff_exists.2 ⟨_, hname⟩) hentry).mono hsub
    · exact (hsound.distinguished kind name entry hentry edge server hmem hhash).mono hsub
  · intro manifest hload kind name hash hrecorded
    obtain ⟨edge, server, hmem, heq⟩ := hsound.recorded manifest hload kind name hash hrecorded
    exact ⟨edge, server, hsub hmem, heq⟩

theorem Prepares.sound_new (hsound : Sound F root generated disk) (hnew : AllNew prepared disk new) :
    Sound F root (request.generates ++ generated) new := by
  have hold := h.sound_old hsound hnew
  refine ⟨h.exact_new hnew, ?_, ?_⟩
  · intro kind name entry hentry edge server hmem hhash
    rcases h.new_entry hnew hentry with hentry | hgen
    · exact hold.distinguished kind name entry hentry edge server hmem hhash
    · exact hgen
  · intro manifest₁ hload kind name hash hrecorded
    obtain rfl : manifest' = manifest₁ := by
      have hbytes := hnew.1 _ h.stored
      simpa [loadManifest, readOr, hbytes, F.parse_printManifest, okOr] using hload
    by_cases hkind : kind ∈ request.clientKinds
    · obtain ⟨servers, servers', hreconcile, _⟩ := h.reconciled hnew hkind
      rw [(F.adapter kind).prepare_owned hreconcile] at hrecorded
      obtain ⟨⟨edge, server⟩, hname, rfl⟩ := Option.map_eq_some_iff.1 hrecorded
      have hmem := (mem_generates h.desired_eq).2 ⟨hkind, hname⟩
      exact ⟨edge, server, List.mem_append_left _ hmem, rfl⟩
    · rw [h.others kind hkind] at hrecorded
      exact hold.recorded manifest h.loaded kind name hash hrecorded

end Prepared

/-! ## Runs -/

/-- The writes of a run: none or those of the recovery, or those of the recovery and of a commit. -/
theorem sync_writes (F : Formats Content) (root : Path) (request : SyncRequest)
    (disk : Disk Content) :
    (∃ m, (Client.sync F root request disk).writes =
      (recoverJournal F.toJournalFormat root disk).writes.take m) ∨
      ∃ prepared files, (recoverJournal F.toJournalFormat root disk).result = .ok () ∧
        prepareSync F root request ((recoverJournal F.toJournalFormat root disk).final disk) =
          .ok prepared ∧
        prepared.mapM (journalFile root) = .ok files ∧
        (Client.sync F root request disk).writes =
          (recoverJournal F.toJournalFormat root disk).writes ++
            commit (journalPath root).resolve (F.print ⟨1, files⟩) (entries root files) := by
  unfold Client.sync
  cases request.validate with
  | error e => exact .inl ⟨0, rfl⟩
  | ok u =>
    cases hresult : (recoverJournal F.toJournalFormat root disk).result with
    | error e =>
      refine .inl ⟨(recoverJournal F.toJournalFormat root disk).writes.length, ?_⟩
      simp only [Run.andThen_error hresult, List.take_length]
    | ok u =>
      simp only [Run.andThen_ok hresult, commitSync]
      cases hprepare : prepareSync F root request
          ((recoverJournal F.toJournalFormat root disk).final disk) with
      | error e =>
        refine .inl ⟨(recoverJournal F.toJournalFormat root disk).writes.length, ?_⟩
        simp only [List.append_nil, List.take_length]
      | ok prepared =>
        rcases commitPrepared_cases F.toJournalFormat root prepared with ⟨e, hrun⟩ |
          ⟨files, hfiles, hrun⟩
        · refine .inl ⟨(recoverJournal F.toJournalFormat root disk).writes.length, ?_⟩
          simp only [hrun, List.append_nil, List.take_length]
        · exact .inr ⟨prepared, files, trivial, rfl, hfiles, by simp only [hrun]⟩

/-- A run that is cut off has carried out part of the recovery, or all of it and part of its commit. -/
theorem Project.sync_cases (F : Formats Content) (root : Path) (s : Project Content)
    (request : SyncRequest) (n : Nat) :
    (∃ m, s.sync F root request n = ⟨perform s.disk
      ((recoverJournal F.toJournalFormat root s.disk).writes.take m), s.generated⟩) ∨
      ∃ prepared files m, (recoverJournal F.toJournalFormat root s.disk).result = .ok () ∧
        prepareSync F root request ((recoverJournal F.toJournalFormat root s.disk).final s.disk) =
          .ok prepared ∧
        prepared.mapM (journalFile root) = .ok files ∧
        s.sync F root request n =
          ⟨perform ((recoverJournal F.toJournalFormat root s.disk).final s.disk)
            ((commit (journalPath root).resolve (F.print ⟨1, files⟩) (entries root files)).take (m + 1)),
            request.generates ++ s.generated⟩ := by
  unfold Project.sync
  rcases sync_writes F root request s.disk with ⟨m, hwrites⟩ |
    ⟨prepared, files, hresult, hprepare, hfiles, hwrites⟩
  · refine .inl ⟨min n m, ?_⟩
    simp only [hwrites, List.take_take]
    rw [if_neg (Nat.not_lt.2 (List.length_take_le' _ _))]
  · simp only [hwrites]
    rcases Nat.lt_or_ge (recoverJournal F.toJournalFormat root s.disk).writes.length n with hn | hn
    · obtain ⟨m, rfl⟩ := Nat.exists_eq_add_of_lt hn
      refine .inr ⟨prepared, files, m, hresult, hprepare, hfiles, ?_⟩
      rw [Nat.add_assoc, List.take_length_add_append, perform_append, if_pos]
      · rfl
      · rw [List.length_append]
        exact Nat.lt_add_of_pos_right (by simp [commit])
    · refine .inl ⟨n, ?_⟩
      rw [List.take_append_of_le_length hn, if_neg (Nat.not_lt.2 (List.length_take_le' _ _))]

/-! ## The invariant -/

/-- The journal is in place, and the files before and after it are sound and have the same handwritten
    entries. -/
structure InFlight (F : Formats Content) (root : Path) (files : List (JournalFile Content))
    (old : Disk Content) (s : Project Content) : Prop where
  committable : Committable root files old
  pending : Pending (journalPath root).resolve (F.print ⟨1, files⟩) (entries root files) old s.disk
  sound_old : Sound F root s.generated old
  sound_new : Sound F root s.generated (perform old (puts (entries root files)))
  same : SameHandwritten F root s.generated old (perform old (puts (entries root files)))

/-- No journal is in place, or one that can be carried out. -/
def Settled (F : Formats Content) (root : Path) (s : Project Content) : Prop :=
  (s.disk (journalPath root).resolve = none ∧ Sound F root s.generated s.disk) ∨
    ∃ files old, InFlight F root files old s

theorem InFlight.sameHandwritten {files : List (JournalFile Content)}
    (h : InFlight F root files old s) :
    SameHandwritten F root s.generated s.disk (perform old (puts (entries root files))) :=
  between_sameHandwritten h.same h.pending.between

/-- A recovery that is cut off anywhere changes no handwritten entry. -/
theorem Settled.recover (h : Settled F root s) (m : Nat) :
    Settled F root ⟨perform s.disk
        ((recoverJournal F.toJournalFormat root s.disk).writes.take m), s.generated⟩ ∧
      SameHandwritten F root s.generated s.disk (perform s.disk
        ((recoverJournal F.toJournalFormat root s.disk).writes.take m)) := by
  rcases h with ⟨hclear, hsound⟩ | ⟨files, old, hflight⟩
  · rw [recoverJournal_none hclear, List.take_nil]
    exact ⟨.inl ⟨hclear, hsound⟩, fun _ _ _ _ => Iff.rfl, fun _ _ _ => rfl⟩
  · have hplan := hflight.committable.toPlan
    rw [recoverJournal_eq hflight.pending.placed hflight.committable.valid]
    rcases hflight.pending.cut hplan m with hpending | hdone
    · refine ⟨.inr ⟨files, old, { hflight with pending := hpending }⟩, ?_⟩
      exact hflight.sameHandwritten.trans
        (between_sameHandwritten hflight.same hpending.between).symm
    · rw [hdone]
      exact ⟨.inl ⟨hplan.done_clear, hflight.sound_new⟩, hflight.sameHandwritten⟩

/-- A recovery that gets through leaves no journal. -/
theorem Settled.recovered (h : Settled F root s) :
    Sound F root s.generated ((recoverJournal F.toJournalFormat root s.disk).final s.disk) := by
  rcases h with ⟨hclear, hsound⟩ | ⟨files, old, hflight⟩
  · rw [recoverJournal_none hclear]
    exact hsound
  · rw [recoverJournal_eq hflight.pending.placed hflight.committable.valid, Run.final,
      hflight.pending.redo hflight.committable.toPlan]
    exact hflight.sound_new

theorem Run.final_eq_take (run : Run Content) (disk : Disk Content) :
    run.final disk = perform disk (run.writes.take run.writes.length) := by
  rw [List.take_length]
  rfl

/-- A commit that is cut off after its journal is in place changes no handwritten entry. -/
theorem Prepares.commit {manifest manifest' : Manifest} {files : List (JournalFile Content)}
    (h : Prepares F root request disk prepared desired manifest manifest')
    (hfiles : prepared.mapM (journalFile root) = .ok files) (hsound : Sound F root generated disk)
    (hclear : disk (journalPath root).resolve = none) (m : Nat) :
    Settled F root ⟨perform disk ((Redo.commit (journalPath root).resolve (F.print ⟨1, files⟩)
        (entries root files)).take (m + 1)), request.generates ++ generated⟩ ∧
      SameHandwritten F root (request.generates ++ generated) disk
        (perform disk ((Redo.commit (journalPath root).resolve (F.print ⟨1, files⟩)
          (entries root files)).take (m + 1))) := by
  have hcommittable := committable hfiles h.nodup_paths h.apart hclear
  have hnew : AllNew prepared disk (perform disk (puts (entries root files))) :=
    allNew_of_done hfiles h.nodup_paths
  have hold := h.sound_old hsound hnew
  have hsame := h.sameHandwritten hsound hnew
  rcases hcommittable.toPlan.commit_cut (F.print ⟨1, files⟩) (m + 1) with hzero | hpending | hdone
  · cases hzero
  · refine ⟨.inr ⟨files, disk, hcommittable, hpending, hold, h.sound_new hsound hnew, hsame⟩, ?_⟩
    exact hsame.trans (between_sameHandwritten hsame hpending.between).symm
  · rw [hdone]
    exact ⟨.inl ⟨hcommittable.toPlan.done_clear, h.sound_new hsound hnew⟩, hsame⟩

/-- A run of `sync`, cut off anywhere, keeps the invariant, every handwritten entry and the rest of the
    files. -/
theorem Settled.sync (h : Settled F root s) (request : SyncRequest) (n : Nat) :
    Settled F root (s.sync F root request n) ∧
      (∀ kind name entry, F.entry root s.disk kind name = some entry →
        ¬ Generated F s.generated kind name entry →
        F.entry root (s.sync F root request n).disk kind name = some entry ∧
          ¬ Generated F (s.sync F root request n).generated kind name entry) ∧
      ∀ kind key, key ≠ kind.serversKey →
        F.setting root s.disk kind key = F.setting root (s.sync F root request n).disk kind key := by
  rcases s.sync_cases F root request n with ⟨m, hnext⟩ |
    ⟨prepared, files, m, hresult, hprepare, hfiles, hnext⟩
  · obtain ⟨hsettled, hsame⟩ := h.recover m
    rw [hnext]
    exact ⟨hsettled, fun kind name entry hentry hhand =>
      ⟨(hsame.entries kind name entry hhand).1 hentry, hhand⟩, hsame.settings⟩
  · have hsound := h.recovered
    obtain ⟨desired, manifest, manifest', hprepares⟩ := prepareSync_eq_ok hsound.exact hprepare
    obtain ⟨hsettled, hsame⟩ := hprepares.commit hfiles hsound (recoverJournal_final hresult) m
    have hnew : AllNew prepared ((recoverJournal F.toJournalFormat root s.disk).final s.disk)
        (perform ((recoverJournal F.toJournalFormat root s.disk).final s.disk)
          (puts (entries root files))) :=
      allNew_of_done hfiles hprepares.nodup_paths
    -- through the recovery, and then through the commit
    obtain ⟨_, hrecover⟩ := h.recover (recoverJournal F.toJournalFormat root s.disk).writes.length
    rw [← Run.final_eq_take] at hrecover
    rw [hnext]
    refine ⟨hsettled, fun kind name entry hentry hhand => ?_, fun kind key hkey =>
      (hrecover.settings kind key hkey).trans (hsame.settings kind key hkey)⟩
    have hentry' := (hrecover.entries kind name entry hhand).1 hentry
    have hhand' := (hprepares.keeps hsound hnew hentry' hhand).2
    exact ⟨(hsame.entries kind name entry hhand').1 hentry', hhand'⟩

/-- An edit that the code can cope with: no journal is in place, the numbers of the new contents are read
    as they are printed, and no entry of them passes for a generated one. -/
def Careful (F : Formats Content) (root : Path) (s : Project Content) (kind : ClientKind)
    (bytes : Option Content) : Prop :=
  s.disk (journalPath root).resolve = none ∧ (∀ contents ∈ bytes, F.ExactBytes kind contents) ∧
    ∀ name entry, F.entry root (s.edit root kind bytes).disk kind name = some entry →
      Distinguished F s.generated kind name entry

theorem Settled.edit (h : Settled F root s) {bytes : Option Content}
    (hcareful : Careful F root s kind bytes) : Settled F root (s.edit root kind bytes) := by
  obtain ⟨hclear, hexact, hnew⟩ := hcareful
  rcases h with ⟨_, hsound⟩ | ⟨files, old, hflight⟩
  · have hother : ∀ k, k ≠ (kind.path root).resolve → (s.edit root kind bytes).disk k = s.disk k :=
      fun k hne => Function.update_of_ne hne _ _
    refine .inl ⟨(hother _ (kind.resolve_ne_journal root).symm).trans hclear, ?_, ?_, ?_⟩
    · intro kind' contents hcontents
      by_cases hkind : kind' = kind
      · subst hkind
        have hself : (s.edit root kind' bytes).disk (kind'.path root).resolve = bytes :=
          Function.update_self _ _ _
        exact hexact contents (hself.symm.trans hcontents)
      · rw [hother _ (ClientKind.resolve_ne root hkind)] at hcontents
        exact hsound.exact kind' contents hcontents
    · intro kind' name entry hentry
      by_cases hkind : kind' = kind
      · subst hkind
        exact hnew name entry hentry
      · rw [entry_congr (hother _ (ClientKind.resolve_ne root hkind))] at hentry
        exact hsound.distinguished kind' name entry hentry
    · intro manifest hload
      rw [loadManifest_congr (hother _ (kind.resolve_ne_manifest root).symm)] at hload
      exact hsound.recorded manifest hload
  · rw [hflight.pending.placed] at hclear
    cases hclear

theorem Settled.of_reachable (hs : (projectWhere F root (Careful F root)).Reachable s) :
    Settled F root s := by
  refine hs.invariant (P := Settled F root) ?_ ?_
  · rintro s ⟨hgenerated, hmanifest, hjournal, hexact⟩
    refine .inl ⟨hjournal, hexact, ?_, ?_⟩
    · intro kind name entry _ edge server hmem
      rw [hgenerated] at hmem
      exact absurd hmem List.not_mem_nil
    · intro manifest hload kind name hash hrecorded
      have hdefault : Manifest.default = manifest := by
        simpa [loadManifest, readOr, hmanifest] using hload
      subst hdefault
      simp [Manifest.default] at hrecorded
  · intro s t _ h hstep
    cases hstep with
    | sync request n => exact (h.sync request n).1
    | edit kind bytes hcareful => exact h.edit hcareful

/-- What each run of `sync` keeps and no edit takes away is kept. -/
theorem Settled.keeps_of_steps {t : Project Content}
    {allowed : Project Content → ClientKind → Option Content → Prop} (h : Settled F root s)
    (keeps : Project Content → Prop) (hkeeps : keeps s)
    (hsync : ∀ a request n, Settled F root a → keeps a → keeps (a.sync F root request n))
    (hedit : ∀ a edited bytes, keeps a → allowed a edited bytes →
      Careful F root a edited bytes ∧ keeps (a.edit root edited bytes))
    (hrun : (projectWhere F root allowed).Steps s t) : keeps t := by
  have hall : Settled F root t ∧ keeps t := by
    induction hrun with
    | refl => exact ⟨h, hkeeps⟩
    | tail _ hstep ih =>
      obtain ⟨hsettled, hkeeps⟩ := ih
      cases hstep with
      | sync request n => exact ⟨(hsettled.sync request n).1, hsync _ request n hsettled hkeeps⟩
      | edit edited bytes hallowed =>
        obtain ⟨hcareful, hkeeps⟩ := hedit _ edited bytes hkeeps hallowed
        exact ⟨hsettled.edit hcareful, hkeeps⟩
  exact hall.2

/-- **Handwritten entries survive** every later run of `sync`, whether it succeeds, fails or is cut
    off, until the user changes them again, and so does what the files have under other keys: in every
    run in which the user edits the configurations only while no journal is in place, and leaves no
    entry that passes for a generated one and no number that is not read as it is printed. -/
theorem handwritten_entries_survive (F : Formats Content) (root : Path) (s : Project Content)
    (kind : ClientKind) (hs : (projectWhere F root (Careful F root)).Reachable s) :
    (∀ name entry, F.entry root s.disk kind name = some entry →
      ¬ Generated F s.generated kind name entry →
      ∀ t, (projectWhere F root (fun a edited bytes => Careful F root a edited bytes ∧
        F.entry root (a.edit root edited bytes).disk kind name = some entry)).Steps s t →
      F.entry root t.disk kind name = some entry) ∧
    ∀ key, key ≠ kind.serversKey →
      ∀ t, (projectWhere F root (fun a edited bytes => Careful F root a edited bytes ∧
        F.setting root (a.edit root edited bytes).disk kind key =
          F.setting root s.disk kind key)).Steps s t →
      F.setting root t.disk kind key = F.setting root s.disk kind key := by
  have hsettled := Settled.of_reachable hs
  constructor
  · intro name entry hentry hhand t hrun
    refine (hsettled.keeps_of_steps (fun a => F.entry root a.disk kind name = some entry ∧
      ¬ Generated F a.generated kind name entry) ⟨hentry, hhand⟩ ?_ ?_ hrun).1
    · intro a request n ha hkept
      exact (ha.sync request n).2.1 kind name entry hkept.1 hkept.2
    · intro a edited bytes hkept hallowed
      exact ⟨hallowed.1, hallowed.2, hkept.2⟩
  · intro key hkey t hrun
    refine hsettled.keeps_of_steps (fun a => F.setting root a.disk kind key =
      F.setting root s.disk kind key) rfl ?_ (fun a edited bytes _ hallowed => hallowed) hrun
    intro a request n ha hkept
    exact ((ha.sync request n).2.2 kind key hkey).symm.trans hkept

/-! ## Documents for examples -/

/-- Nested tables. -/
inductive Node where
  | string (s : String)
  | array (xs : List Node)
  | table (fields : List (String × Node))

theorem ofList_toList {β : Type} (m : BTreeMap β) : Std.ExtTreeMap.ofList m.toList compare = m := by
  refine Std.ExtTreeMap.ext_getElem? (fun k => ?_)
  cases hk : m[k]? with
  | none =>
    refine Std.ExtTreeMap.getElem?_ofList_of_contains_eq_false ?_
    simpa using hk
  | some v =>
    refine Std.ExtTreeMap.getElem?_ofList_of_mem Std.ReflCmp.compare_self m.distinct_keys_toList ?_
    exact Std.ExtTreeMap.mem_toList_iff_getElem?_eq_some.2 hk

/-- A short text for a node. -/
def Node.label : Node → String
  | .string s => s
  | .array _ => "array"
  | .table _ => "table"

def Node.asTable : Node → Option (BTreeMap Node)
  | .table fields => some (.ofList fields compare)
  | _ => none

/-- The texts of a table's strings and of its arrays of strings. -/
def Node.fingerprint : Node → String
  | .table fields => ",".intercalate (fields.map (fun field =>
    match field.2 with
    | .array xs => field.1 ++ ":" ++ " ".intercalate (xs.map Node.label)
    | node => field.1 ++ ":" ++ node.label))
  | node => node.label

def Node.tree : Tree where
  Node := Node
  string := .string
  array := .array
  table m := .table m.toList
  asTable := Node.asTable
  asTable_table m := congrArg some (ofList_toList m)
  fingerprint := Node.fingerprint

inductive Document where
  | json (document : Node)
  | toml (document : BTreeMap Node)
  | manifest (manifest : Manifest)

def exampleFormats : Formats (Stored Document) where
  toJournalFormat := Stored.format Document
  json := Node.tree
  toml := Node.tree
  parseJson
    | .document (.json document) => some document
    | _ => none
  printJson document := .document (.json document)
  Exact _ := True
  exact_asTable _ _ _ := by simp
  exact_proxy _ _ := trivial
  parse_printJson _ _ := rfl
  parseToml
    | .document (.toml document) => some document
    | _ => none
  printToml document := .document (.toml document)
  parse_printToml _ := rfl
  parseManifest
    | .document (.manifest manifest) => some manifest
    | _ => none
  printManifest manifest := .document (.manifest manifest)
  parse_printManifest _ := rfl

/-- `mcp sync -e win --client claude`, with one server on the edge. -/
def syncOfDebugger : SyncRequest where
  edges := ["win"]
  clients := [.claude]
  check := false
  mcpList _ := .ok (.ofList ["debugger"] compare)
  mcpCheck _ _ := .ok ()

/-- A project without configuration. -/
def emptyProject : Project (Stored Document) := ⟨fun _ => none, []⟩

/-- An entry that starts a program of the user. -/
def manualEntry : Node := .table [("command", .string "manual")]

/-- A `.mcp.json` with that entry only. -/
def manualConfiguration : Stored Document :=
  .document (.json (.table [("mcpServers", .table [("manual", manualEntry)])]))

theorem exactBytes_example (kind : ClientKind) (bytes : Stored Document) :
    exampleFormats.ExactBytes kind bytes := by
  cases kind with
  | claude => exact fun _ _ => trivial
  | codex => trivial

theorem manual_entry_survives_crash :
    exampleFormats.entry projectRoot (((emptyProject.edit projectRoot .claude
      (some manualConfiguration)).sync exampleFormats projectRoot syncOfDebugger 2).sync exampleFormats
      projectRoot syncOfDebugger 5).disk .claude "manual" = some manualEntry := by
  refine (handwritten_entries_survive exampleFormats projectRoot
    (emptyProject.edit projectRoot .claude (some manualConfiguration)) .claude ?_).1 "manual"
    manualEntry (by rfl) ?_ _ (.tail (.single (.sync _ syncOfDebugger 2)) (.sync _ syncOfDebugger 5))
  · refine ⟨emptyProject, ⟨rfl, rfl, rfl, fun kind bytes _ => exactBytes_example kind bytes⟩, .single
      (.edit _ .claude (some manualConfiguration) ⟨rfl, fun bytes _ => exactBytes_example _ bytes, ?_⟩)⟩
    intro name entry _ edge server hmem
    exact absurd hmem List.not_mem_nil
  · rintro ⟨edge, server, hmem, _⟩
    exact absurd hmem List.not_mem_nil

/-- A run is cut off when its journal is in place; the user adds an entry to `.mcp.json`; the next run
    carries the journal out and the entry is gone. -/
theorem edit_beside_journal_is_lost : ∃ s : Project (Stored Document),
    (projectWhere exampleFormats projectRoot (fun _ _ _ => True)).Reachable s ∧
    exampleFormats.entry projectRoot s.disk .claude "manual" = some manualEntry ∧
    ¬ Generated exampleFormats s.generated .claude "manual" manualEntry ∧
    exampleFormats.entry projectRoot (s.sync exampleFormats projectRoot syncOfDebugger 10).disk
      .claude "manual" = none := by
  refine ⟨(emptyProject.sync exampleFormats projectRoot syncOfDebugger 1).edit projectRoot .claude
    (some manualConfiguration), ?_, by rfl, ?_, ?_⟩
  · exact ⟨emptyProject, ⟨rfl, rfl, rfl, fun kind bytes _ => exactBytes_example kind bytes⟩,
      .tail (.single (.sync _ syncOfDebugger 1)) (.edit _ .claude (some manualConfiguration) trivial)⟩
  · have hnames : ∀ p ∈ (emptyProject.sync exampleFormats projectRoot syncOfDebugger 1).generated,
        p.2.1 ≠ "manual" := by
      decide +kernel
    rintro ⟨edge, server, hmem, _⟩
    exact hnames _ hmem rfl
  · exact Option.isNone_iff_eq_none.1 (by decide +kernel)

end AgentScale.Client
