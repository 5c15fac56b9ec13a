import AgentScale.Library.Checked
import AgentScale.Library.Redo
import Mathlib.Data.List.Nodup
import Mathlib.Logic.Relation

set_option autoImplicit false

/-! # The journal of MCP sync

`mcp_sync::commit_prepared` replaces several files of a project together: it writes all the new
contents into a journal first, then the files, and removes the journal at the end. `recover_journal`
carries out a journal that a crash has left behind.

`write_if_changed` replaces a file atomically and durably, so each call is one write; a crash, or an
I/O error, cuts the list of writes off. The project contains no symbolic links, so the file a path
names can be computed from its components (`resolve`). -/

namespace AgentScale.Client

open Checked Redo

/-! ## Paths -/

/-- `std::path::Component` on Unix. -/
inductive Component where
  | rootDir
  | curDir
  | parentDir
  | normal (name : String)
deriving DecidableEq

/-- A path by its `components()`, by which Rust compares paths too. Only the empty text has none. -/
abbrev Path : Type := List Component

def Component.text : Component → String
  | .rootDir => ""
  | .curDir => "."
  | .parentDir => ".."
  | .normal name => name

def Path.display (path : Path) : String :=
  if path = [.rootDir] then "/" else "/".intercalate (path.map Component.text)

/-- `Path::join`: an absolute path replaces what it is joined to. -/
def Path.join (base path : Path) : Path :=
  match base, path with
  | _, .rootDir :: _ => path
  | [], _ => path
  | _, .curDir :: rest => base ++ rest
  | _, _ => base ++ path

def Path.stripPrefix (path base : Path) : Option Path :=
  if base.isPrefixOf path then some (path.drop base.length) else none

def Component.walk (directory : List String) : Component → List String
  | .rootDir => []
  | .curDir => directory
  | .parentDir => directory.dropLast
  | .normal name => directory ++ [name]

/-- The file an absolute path names: the names from the root of the file system on. -/
def Path.resolve (path : Path) : List String := path.foldl Component.walk []

def Component.IsNormal (part : Component) : Prop := part = .normal part.text

instance (part : Component) : Decidable part.IsNormal :=
  inferInstanceAs (Decidable (part = .normal part.text))

def validateRelativePath (path : Path) : Except String Unit :=
  ensure (path ≠ [] ∧ ∀ part ∈ path, part.IsNormal)
    ("unsafe path in MCP sync journal: " ++ path.display)

/-! ## Journals -/

section Model

variable {Content : Type}

structure PreparedFile (Content : Type) where
  path : Path
  bytes : Content

structure JournalFile (Content : Type) where
  relativePath : Path
  bytes : Content

structure SyncJournal (Content : Type) where
  version : Nat
  files : List (JournalFile Content)

/-- How journals are stored: `serde_json::to_vec_pretty` with a newline at the end, and
    `serde_json::from_slice`. -/
structure JournalFormat (Content : Type) where
  print : SyncJournal Content → Content
  parse : Content → Option (SyncJournal Content)
  parse_print : ∀ journal, parse (print journal) = some journal

/-- The contents of every file. -/
abbrev Disk (Content : Type) : Type := List String → Option Content

/-- The writes of a function in order, and what it returns when none of them is cut off. -/
structure Run (Content : Type) where
  writes : List (Write (List String) Content)
  result : Except String Unit

def Run.andThen (first next : Run Content) : Run Content :=
  match first.result with
  | .error error => ⟨first.writes, .error error⟩
  | .ok () => ⟨first.writes ++ next.writes, next.result⟩

/-- The disk after a run that is not cut off. -/
def Run.final (run : Run Content) (disk : Disk Content) : Disk Content := perform disk run.writes

def journalPath (root : Path) : Path :=
  root.join [.normal ".agent-scale", .normal "mcp-sync-journal.json"]

/-- `write_if_changed`. A file that has the contents already keeps them. -/
def writeIfChanged (path : Path) (bytes : Content) : Run Content :=
  ⟨[.put path.resolve bytes], .ok ()⟩

/-- `std::fs::remove_file` of a file that is there. -/
def removeFile (path : Path) : Run Content := ⟨[.remove path.resolve], .ok ()⟩

def applyJournal (root : Path) : List (JournalFile Content) → Run Content
  | [] => ⟨[], .ok ()⟩
  | file :: rest =>
    match validateRelativePath file.relativePath with
    | .error error => ⟨[], .error error⟩
    | .ok () =>
      (writeIfChanged (root.join file.relativePath) file.bytes).andThen (applyJournal root rest)

def journalFile (root : Path) (file : PreparedFile Content) :
    Except String (JournalFile Content) := do
  let relativePath ← okOr (file.path.stripPrefix root)
    ("sync output escaped project root: " ++ file.path.display)
  validateRelativePath relativePath
  return ⟨relativePath, file.bytes⟩

variable (F : JournalFormat Content)

def commitPrepared (root : Path) (prepared : List (PreparedFile Content)) : Run Content :=
  match prepared.mapM (journalFile root) with
  | .error error => ⟨[], .error error⟩
  | .ok files =>
    (writeIfChanged (journalPath root) (F.print ⟨1, files⟩)).andThen
      ((applyJournal root files).andThen (removeFile (journalPath root)))

def recoverJournal (root : Path) (disk : Disk Content) : Run Content :=
  match disk (journalPath root).resolve with
  | none => ⟨[], .ok ()⟩
  | some bytes =>
    match F.parse bytes with
    | none => ⟨[], .error ("parse journal " ++ (journalPath root).display)⟩
    | some journal =>
      if journal.version ≠ 1 then
        ⟨[], .error ("unsupported MCP sync journal version " ++ toString journal.version)⟩
      else (applyJournal root journal.files).andThen (removeFile (journalPath root))

/-- A call of `recover_journal` that is cut off. -/
def Interrupted (root : Path) (disk disk' : Disk Content) : Prop :=
  ∃ n, disk' = perform disk ((recoverJournal F root disk).writes.take n)

end Model

/-! ## Paths under the root -/

def Path.names (path : Path) : List String := path.map Component.text

def Below (directory file : List String) : Prop := ∃ name names, file = directory ++ name :: names

theorem validateRelativePath_eq_ok {path : Path} :
    validateRelativePath path = .ok () ↔ path ≠ [] ∧ ∀ part ∈ path, part.IsNormal :=
  ensure_eq_ok

theorem foldl_walk_names {path : Path} (hnormal : ∀ part ∈ path, part.IsNormal)
    (directory : List String) :
    path.foldl Component.walk directory = directory ++ path.names := by
  induction path generalizing directory with
  | nil => exact (List.append_nil _).symm
  | cons part rest ih =>
    have hpart : Component.walk directory part = directory ++ [part.text] := by
      rw [hnormal part List.mem_cons_self]
      rfl
    rw [List.foldl_cons, hpart, ih (fun p hp => hnormal p (List.mem_cons_of_mem _ hp))]
    simp [Path.names]

theorem join_eq_append {root path : Path} (h : validateRelativePath path = .ok ()) :
    root.join path = root ++ path := by
  obtain ⟨hne, hnormal⟩ := validateRelativePath_eq_ok.1 h
  cases path with
  | nil => exact absurd rfl hne
  | cons part rest =>
    have hpart := hnormal part List.mem_cons_self
    cases part with
    | rootDir => cases hpart
    | curDir => cases hpart
    | parentDir => cases hpart
    | normal name =>
      cases root with
      | nil => rfl
      | cons first root => rfl

theorem resolve_append {root path : Path} (h : validateRelativePath path = .ok ()) :
    Path.resolve (root ++ path) = root.resolve ++ path.names := by
  rw [Path.resolve, List.foldl_append, foldl_walk_names (validateRelativePath_eq_ok.1 h).2]
  rfl

theorem below_of_validate {root path : Path} (h : validateRelativePath path = .ok ()) :
    Below root.resolve (root.join path).resolve := by
  cases path with
  | nil => exact absurd rfl (validateRelativePath_eq_ok.1 h).1
  | cons part rest =>
    rw [join_eq_append h]
    exact ⟨part.text, Path.names rest, resolve_append h⟩

theorem names_injective {path path' : Path} (hnormal : ∀ part ∈ path, part.IsNormal)
    (hnormal' : ∀ part ∈ path', part.IsNormal) (h : path.names = path'.names) : path = path' := by
  have hself : ∀ {p : Path}, (∀ part ∈ p, part.IsNormal) → p = p.names.map .normal := by
    intro p hp
    rw [Path.names, List.map_map]
    exact (List.map_id p).symm.trans (List.map_congr_left (fun part hpart => hp part hpart))
  rw [hself hnormal, hself hnormal', h]

/-- `path` is the root followed by a valid path. -/
def Within (root path : Path) : Prop :=
  ∃ relative, path = root ++ relative ∧ validateRelativePath relative = .ok ()

/-- Paths under the root that name one file are equal. -/
theorem Within.resolve_injective {root path path' : Path} (h : Within root path)
    (h' : Within root path') (heq : path.resolve = path'.resolve) : path = path' := by
  obtain ⟨relative, rfl, hvalid⟩ := h
  obtain ⟨relative', rfl, hvalid'⟩ := h'
  rw [resolve_append hvalid, resolve_append hvalid', List.append_cancel_left_eq] at heq
  rw [names_injective (validateRelativePath_eq_ok.1 hvalid).2
    (validateRelativePath_eq_ok.1 hvalid').2 heq]

theorem validate_journal : validateRelativePath
    [.normal ".agent-scale", .normal "mcp-sync-journal.json"] = .ok () := by
  decide

theorem within_journalPath (root : Path) : Within root (journalPath root) :=
  ⟨_, join_eq_append validate_journal, validate_journal⟩

/-! ## What a journal does -/

section Effects

variable {Content : Type} {F : JournalFormat Content} {root : Path}
  {files : List (JournalFile Content)} {disk : Disk Content}

def entries (root : Path) (files : List (JournalFile Content)) : List (List String × Content) :=
  files.map (fun file => ((root.join file.relativePath).resolve, file.bytes))

/-- A journal whose paths are all valid is carried out completely. -/
theorem applyJournal_eq (h : ∀ file ∈ files, validateRelativePath file.relativePath = .ok ()) :
    applyJournal root files = ⟨puts (entries root files), .ok ()⟩ := by
  induction files with
  | nil => rfl
  | cons file rest ih =>
    rw [applyJournal, h file List.mem_cons_self, ih (fun f hf => h f (List.mem_cons_of_mem _ hf))]
    rfl

/-- Whatever the journal holds, only files below the root are written. -/
theorem applyJournal_below {w : Write (List String) Content}
    (hw : w ∈ (applyJournal root files).writes) : Below root.resolve w.key := by
  induction files with
  | nil => exact absurd hw List.not_mem_nil
  | cons file rest ih =>
    rw [applyJournal] at hw
    cases hvalid : validateRelativePath file.relativePath with
    | error e =>
      rw [hvalid] at hw
      exact absurd hw List.not_mem_nil
    | ok u =>
      rw [hvalid] at hw
      rcases List.mem_cons.1 hw with rfl | hw
      · exact below_of_validate hvalid
      · exact ih hw

theorem journal_below : Below root.resolve (journalPath root).resolve :=
  below_of_validate validate_journal

theorem Run.andThen_ok {first next : Run Content} (h : first.result = .ok ()) :
    first.andThen next = ⟨first.writes ++ next.writes, next.result⟩ := by
  rw [Run.andThen, h]

theorem Run.andThen_error {first next : Run Content} {e : String} (h : first.result = .error e) :
    first.andThen next = ⟨first.writes, .error e⟩ := by
  rw [Run.andThen, h]

/-- There is no journal, it is refused, or it is applied and removed. -/
theorem recoverJournal_cases (F : JournalFormat Content) (root : Path) (disk : Disk Content) :
    (disk (journalPath root).resolve = none ∧ recoverJournal F root disk = ⟨[], .ok ()⟩) ∨
      (∃ e, recoverJournal F root disk = ⟨[], .error e⟩) ∨
      ∃ files : List (JournalFile Content), recoverJournal F root disk =
        (applyJournal root files).andThen (removeFile (journalPath root)) := by
  unfold recoverJournal
  split
  · exact .inl ⟨by assumption, rfl⟩
  · split
    · exact .inr (.inl ⟨_, rfl⟩)
    · split
      · exact .inr (.inl ⟨_, rfl⟩)
      · exact .inr (.inr ⟨_, rfl⟩)

/-- Whatever is in place of the journal, recovery writes files below the root only. -/
theorem recoverJournal_below {w : Write (List String) Content}
    (hw : w ∈ (recoverJournal F root disk).writes) : Below root.resolve w.key := by
  rcases recoverJournal_cases F root disk with ⟨_, hrun⟩ | ⟨e, hrun⟩ | ⟨files, hrun⟩
  · rw [hrun] at hw
    exact absurd hw List.not_mem_nil
  · rw [hrun] at hw
    exact absurd hw List.not_mem_nil
  · rw [hrun] at hw
    cases hresult : (applyJournal root files).result with
    | error e =>
      rw [Run.andThen_error hresult] at hw
      exact applyJournal_below hw
    | ok u =>
      rw [Run.andThen_ok hresult] at hw
      rcases List.mem_append.1 hw with hw | hw
      · exact applyJournal_below hw
      · obtain rfl := List.mem_singleton.1 hw
        exact journal_below

/-- The writes of a journal in place: all its files, and its removal. -/
theorem recoverJournal_eq (hplaced : disk (journalPath root).resolve = some (F.print ⟨1, files⟩))
    (h : ∀ file ∈ files, validateRelativePath file.relativePath = .ok ()) :
    recoverJournal F root disk = ⟨redo (journalPath root).resolve (entries root files), .ok ()⟩ := by
  rw [recoverJournal, hplaced]
  simp only [F.parse_print, ne_eq, not_true_eq_false, if_false]
  rw [applyJournal_eq h]
  rfl

theorem recoverJournal_none (h : disk (journalPath root).resolve = none) :
    recoverJournal F root disk = ⟨[], .ok ()⟩ := by
  rw [recoverJournal, h]

/-- A recovery that succeeds leaves no journal. -/
theorem recoverJournal_final (h : (recoverJournal F root disk).result = .ok ()) :
    (recoverJournal F root disk).final disk (journalPath root).resolve = none := by
  rcases recoverJournal_cases F root disk with ⟨hnone, hrun⟩ | ⟨e, hrun⟩ | ⟨files, hrun⟩
  · rw [hrun]
    exact hnone
  · rw [hrun] at h
    cases h
  · rw [hrun] at h ⊢
    cases hresult : (applyJournal root files).result with
    | error e =>
      rw [Run.andThen_error hresult] at h
      cases h
    | ok u =>
      rw [Run.andThen_ok hresult, Run.final, perform_append]
      exact Function.update_self _ _ _

theorem journalFile_eq_ok {prepared : PreparedFile Content} {file : JournalFile Content}
    (h : journalFile root prepared = .ok file) :
    prepared.path = root ++ file.relativePath ∧ file.bytes = prepared.bytes ∧
      validateRelativePath file.relativePath = .ok () := by
  obtain ⟨relative, hstrip, h⟩ := of_bind h
  obtain ⟨_, hvalid, h⟩ := of_bind h
  cases h
  refine ⟨?_, rfl, hvalid⟩
  obtain ⟨hinside, hdrop⟩ := Option.ite_none_right_eq_some.1 (okOr_eq_ok.1 hstrip)
  obtain ⟨rest, hrest⟩ := List.isPrefixOf_iff_prefix.1 hinside
  rw [← Option.some.inj hdrop, ← hrest, List.drop_left]

/-- The journal of prepared files: valid paths, and the files with their contents. -/
theorem journalFiles_eq_ok {prepared : List (PreparedFile Content)}
    (h : prepared.mapM (journalFile root) = .ok files) :
    (∀ file ∈ files, validateRelativePath file.relativePath = .ok ()) ∧
      (∀ file ∈ prepared, Within root file.path) ∧
      entries root files = prepared.map (fun file => (file.path.resolve, file.bytes)) := by
  induction prepared generalizing files with
  | nil =>
    obtain rfl : [] = files := pure_eq_ok.1 h
    exact ⟨by simp, by simp, rfl⟩
  | cons first rest ih =>
    obtain ⟨file, others, hfirst, hrest, rfl⟩ := mapM_cons_eq_ok.1 h
    obtain ⟨hpath, hbytes, hvalid⟩ := journalFile_eq_ok hfirst
    obtain ⟨hvalids, hwithin, hentries⟩ := ih hrest
    refine ⟨List.forall_mem_cons.2 ⟨hvalid, hvalids⟩,
      List.forall_mem_cons.2 ⟨⟨_, hpath, hvalid⟩, hwithin⟩, ?_⟩
    have hentry : ((root.join file.relativePath).resolve, file.bytes) =
        (first.path.resolve, first.bytes) := by
      rw [hbytes, hpath, join_eq_append hvalid]
    exact congrArg₂ List.cons hentry hentries

/-- A commit either refuses its files before the first write, or writes the journal, the files, and
    removes the journal. -/
theorem commitPrepared_cases (F : JournalFormat Content) (root : Path)
    (prepared : List (PreparedFile Content)) :
    (∃ e, commitPrepared F root prepared = ⟨[], .error e⟩) ∨
      ∃ files, prepared.mapM (journalFile root) = .ok files ∧
        commitPrepared F root prepared = ⟨commit (journalPath root).resolve (F.print ⟨1, files⟩)
          (entries root files), .ok ()⟩ := by
  cases hfiles : prepared.mapM (journalFile root) with
  | error e =>
    refine .inl ⟨e, ?_⟩
    rw [commitPrepared, hfiles]
  | ok files =>
    refine .inr ⟨files, rfl, ?_⟩
    rw [commitPrepared, hfiles]
    simp only [applyJournal_eq (journalFiles_eq_ok hfiles).1]
    rfl

end Effects

/-! ## All or nothing -/

section Crashes

variable {Content : Type} {F : JournalFormat Content} {root : Path} {old disk disk' : Disk Content}
  {files : List (JournalFile Content)} {prepared : List (PreparedFile Content)}

/-- Where crashes leave the disk once a commit has begun to write: the journal is in place, or all is
    done. -/
inductive Started (F : JournalFormat Content) (root : Path) (files : List (JournalFile Content))
    (old : Disk Content) : Disk Content → Prop
  | pending {disk : Disk Content} (h : Pending (journalPath root).resolve (F.print ⟨1, files⟩)
      (entries root files) old disk) : Started F root files old disk
  | done : Started F root files old (perform old (puts (entries root files)))

/-- The journal can be carried out: its paths are valid and distinct, the journal itself is not among
    them, and no other journal is in place before. -/
structure Committable (root : Path) (files : List (JournalFile Content)) (old : Disk Content) : Prop
    extends Plan (journalPath root).resolve (entries root files) old where
  valid : ∀ file ∈ files, validateRelativePath file.relativePath = .ok ()

/-- Without a journal, a recovery does nothing. -/
theorem Interrupted.of_clear (h : Interrupted F root disk disk')
    (hclear : disk (journalPath root).resolve = none) : disk' = disk := by
  obtain ⟨n, rfl⟩ := h
  rw [recoverJournal_none hclear, List.take_nil]
  rfl

/-- A recovery that is cut off anywhere leaves the commit recoverable. -/
theorem Started.interrupted (h : Committable root files old)
    (hdisk : Started F root files old disk) (hcut : Interrupted F root disk disk') :
    Started F root files old disk' := by
  cases hdisk with
  | pending hpending =>
    obtain ⟨n, rfl⟩ := hcut
    rw [recoverJournal_eq hpending.placed h.valid]
    rcases hpending.cut h.toPlan n with hcut | hcut
    · exact .pending hcut
    · exact hcut ▸ .done
  | done =>
    rw [hcut.of_clear h.toPlan.done_clear]
    exact .done

/-- A recovery that gets through finishes the commit. -/
theorem Started.recover (h : Committable root files old) (hdisk : Started F root files old disk) :
    (recoverJournal F root disk).result = .ok () ∧
      (recoverJournal F root disk).final disk = perform old (puts (entries root files)) := by
  cases hdisk with
  | pending hpending =>
    rw [recoverJournal_eq hpending.placed h.valid]
    exact ⟨rfl, hpending.redo h.toPlan⟩
  | done =>
    rw [recoverJournal_none h.toPlan.done_clear]
    exact ⟨rfl, rfl⟩

/-- A journal-free disk stays as it is. -/
theorem interruptions_of_clear (hclear : disk (journalPath root).resolve = none)
    (hcuts : Relation.ReflTransGen (Interrupted F root) disk disk') : disk' = disk := by
  induction hcuts with
  | refl => rfl
  | tail _ hcut ih => exact (hcut.of_clear (ih ▸ hclear)).trans ih

theorem Started.interruptions (h : Committable root files old)
    (hdisk : Started F root files old disk)
    (hcuts : Relation.ReflTransGen (Interrupted F root) disk disk') :
    Started F root files old disk' := by
  induction hcuts with
  | refl => exact hdisk
  | tail _ hcut ih => exact ih.interrupted h hcut

/-- The disk is as a completed recovery has left it, which is where `sync` begins. -/
def Recovered (F : JournalFormat Content) (root : Path) (disk : Disk Content) : Prop :=
  ∃ before, (recoverJournal F root before).result = .ok () ∧
    (recoverJournal F root before).final before = disk

theorem Recovered.clear (h : Recovered F root disk) : disk (journalPath root).resolve = none := by
  obtain ⟨before, hok, rfl⟩ := h
  exact recoverJournal_final hok

/-- The disk when a commit is cut off after `n` writes. -/
def crashAfter (F : JournalFormat Content) (root : Path) (prepared : List (PreparedFile Content))
    (old : Disk Content) (n : Nat) : Disk Content :=
  perform old ((commitPrepared F root prepared).writes.take n)

/-- Every prepared file is there with its new contents, and no other file has changed. -/
def AllNew (prepared : List (PreparedFile Content)) (old disk : Disk Content) : Prop :=
  (∀ file ∈ prepared, disk file.path.resolve = some file.bytes) ∧
    ∀ k, k ∉ prepared.map (fun file => file.path.resolve) → disk k = old k

/-- What a recovery brings about at `disk`, where the crash of a commit of `prepared` after `n` writes
    and later crashes have left it. -/
structure AllOrNothing (F : JournalFormat Content) (root : Path)
    (prepared : List (PreparedFile Content)) (old : Disk Content) (n : Nat) (disk : Disk Content) :
    Prop where
  completes : (recoverJournal F root disk).result = .ok ()
  /-- Nothing has happened only when the journal was never in place. -/
  all_or_nothing : AllNew prepared old ((recoverJournal F root disk).final disk) ∨
    (recoverJournal F root disk).final disk = old ∧
      ∀ m ≤ n, crashAfter F root prepared old m (journalPath root).resolve = none
  journal_gone : (recoverJournal F root disk).final disk (journalPath root).resolve = none
  idempotent : recoverJournal F root ((recoverJournal F root disk).final disk) = ⟨[], .ok ()⟩
  commit_below : ∀ w ∈ (commitPrepared F root prepared).writes, Below root.resolve w.key
  recover_below : ∀ (any : Disk Content), ∀ w ∈ (recoverJournal F root any).writes,
    Below root.resolve w.key

theorem commitPrepared_below {w : Write (List String) Content}
    (hw : w ∈ (commitPrepared F root prepared).writes) : Below root.resolve w.key := by
  rcases commitPrepared_cases F root prepared with ⟨e, hrun⟩ | ⟨files, hfiles, hrun⟩
  · rw [hrun] at hw
    exact absurd hw List.not_mem_nil
  · have happly : applyJournal root files = ⟨puts (entries root files), .ok ()⟩ :=
      applyJournal_eq (journalFiles_eq_ok hfiles).1
    rw [hrun] at hw
    rcases List.mem_cons.1 hw with rfl | hw
    · exact journal_below
    · rcases List.mem_append.1 hw with hw | hw
      · have hmem : w ∈ (applyJournal root files).writes := by rwa [happly]
        exact applyJournal_below hmem
      · obtain rfl := List.mem_singleton.1 hw
        exact journal_below

/-- The files of distinct prepared paths are distinct. -/
theorem nodup_entries (hfiles : prepared.mapM (journalFile root) = .ok files)
    (hdistinct : (prepared.map PreparedFile.path).Nodup) :
    ((entries root files).map Prod.fst).Nodup := by
  obtain ⟨_, hwithin, hentries⟩ := journalFiles_eq_ok hfiles
  have hkeys : (entries root files).map Prod.fst =
      (prepared.map PreparedFile.path).map Path.resolve := by
    rw [hentries, List.map_map, List.map_map]
    rfl
  rw [hkeys]
  refine List.Nodup.map_on (fun path hpath path' hpath' heq => ?_) hdistinct
  obtain ⟨file, hfile, rfl⟩ := List.mem_map.1 hpath
  obtain ⟨file', hfile', rfl⟩ := List.mem_map.1 hpath'
  exact (hwithin file hfile).resolve_injective (hwithin file' hfile') heq

theorem committable (hfiles : prepared.mapM (journalFile root) = .ok files)
    (hdistinct : (prepared.map PreparedFile.path).Nodup)
    (hapart : journalPath root ∉ prepared.map PreparedFile.path)
    (hclear : old (journalPath root).resolve = none) : Committable root files old := by
  obtain ⟨hvalid, hwithin, hentries⟩ := journalFiles_eq_ok hfiles
  refine ⟨⟨nodup_entries hfiles hdistinct, fun hmem => hapart ?_, hclear⟩, hvalid⟩
  rw [hentries, List.map_map] at hmem
  obtain ⟨file, hfile, hkey⟩ := List.mem_map.1 hmem
  have hpath := (hwithin file hfile).resolve_injective (within_journalPath root) hkey
  exact List.mem_map.2 ⟨file, hfile, hpath⟩

theorem allNew_of_done (hfiles : prepared.mapM (journalFile root) = .ok files)
    (hdistinct : (prepared.map PreparedFile.path).Nodup) :
    AllNew prepared old (perform old (puts (entries root files))) := by
  have hnodup := nodup_entries hfiles hdistinct
  obtain ⟨_, _, hentries⟩ := journalFiles_eq_ok hfiles
  constructor
  · intro file hfile
    have hmem : (file.path.resolve, file.bytes) ∈ entries root files :=
      hentries ▸ List.mem_map.2 ⟨file, hfile, rfl⟩
    exact perform_puts_mem hnodup hmem
  · intro k hk
    refine perform_puts_other (fun hmem => hk ?_)
    rw [hentries, List.map_map] at hmem
    exact hmem

/-- A commit that is cut off has written nothing, or its recovery will finish it. -/
theorem crashAfter_cases (F : JournalFormat Content)
    (hdistinct : (prepared.map PreparedFile.path).Nodup)
    (hapart : journalPath root ∉ prepared.map PreparedFile.path)
    (hclear : old (journalPath root).resolve = none) (n : Nat) :
    (∀ m ≤ n, crashAfter F root prepared old m = old) ∨
      ∃ files, prepared.mapM (journalFile root) = .ok files ∧ Committable root files old ∧
        Started F root files old (crashAfter F root prepared old n) := by
  rcases commitPrepared_cases F root prepared with ⟨e, hrun⟩ | ⟨files, hfiles, hrun⟩
  · left
    intro m _
    rw [crashAfter, hrun, List.take_nil]
    rfl
  · have hcommittable := committable hfiles hdistinct hapart hclear
    have hcut : crashAfter F root prepared old n = perform old
        ((commit (journalPath root).resolve (F.print ⟨1, files⟩) (entries root files)).take n) := by
      rw [crashAfter, hrun]
    rcases hcommittable.toPlan.commit_cut (F.print ⟨1, files⟩) n with rfl | hpending | hdone
    · left
      intro m hm
      obtain rfl := Nat.le_zero.1 hm
      rfl
    · exact .inr ⟨files, hfiles, hcommittable, hcut ▸ .pending hpending⟩
    · refine .inr ⟨files, hfiles, hcommittable, ?_⟩
      rw [hcut, hdone]
      exact .done

/-- **The sync journal is all-or-nothing.** Take any prepared files with distinct paths, none of them
    the journal's own path, from a disk that a completed recovery has left; cut the commit off after
    any number of writes, and any number of recoveries after it anywhere. Then the next recovery that
    is not cut off succeeds, leaves all files new, or all as they were if the journal was never in
    place, removes the journal, and has nothing left to do when it is run again. No journal makes it
    write outside of the project. -/
theorem sync_journal_is_all_or_nothing (F : JournalFormat Content) (root : Path)
    (prepared : List (PreparedFile Content)) (old : Disk Content) (n : Nat) (disk : Disk Content)
    (hrecovered : Recovered F root old) (hdistinct : (prepared.map PreparedFile.path).Nodup)
    (hapart : journalPath root ∉ prepared.map PreparedFile.path)
    (hcrashes : Relation.ReflTransGen (Interrupted F root) (crashAfter F root prepared old n) disk) :
    AllOrNothing F root prepared old n disk := by
  have hclear := hrecovered.clear
  have hrecover : (recoverJournal F root disk).result = .ok () ∧
      (AllNew prepared old ((recoverJournal F root disk).final disk) ∨
        (recoverJournal F root disk).final disk = old ∧
          ∀ m ≤ n, crashAfter F root prepared old m (journalPath root).resolve = none) := by
    rcases crashAfter_cases F hdistinct hapart hclear n with
      hnothing | ⟨files, hfiles, hcommittable, hstarted⟩
    · rw [hnothing n le_rfl] at hcrashes
      obtain rfl := interruptions_of_clear hclear hcrashes
      rw [recoverJournal_none hclear]
      exact ⟨rfl, .inr ⟨rfl, fun m hm => (hnothing m hm).symm ▸ hclear⟩⟩
    · obtain ⟨hok, hfinal⟩ := (hstarted.interruptions hcommittable hcrashes).recover hcommittable
      exact ⟨hok, .inl (hfinal ▸ allNew_of_done hfiles hdistinct)⟩
  have hgone := recoverJournal_final hrecover.1
  exact ⟨hrecover.1, hrecover.2, hgone, recoverJournal_none hgone,
    fun w hw => commitPrepared_below hw, fun any w hw => recoverJournal_below hw⟩

end Crashes

/-! ## A store of documents -/

/-- Contents that are a document or a journal. -/
inductive Stored (Document : Type) where
  | document (d : Document)
  | journal (j : SyncJournal (Stored Document))

def Stored.format (Document : Type) : JournalFormat (Stored Document) where
  print := .journal
  parse
    | .journal j => some j
    | .document _ => none
  parse_print _ := rfl

def projectRoot : Path := [.rootDir, .normal "project"]

/-- `.mcp.json` and `.codex/config.toml` with new contents. -/
def bothConfigurations : List (PreparedFile (Stored String)) :=
  [⟨projectRoot ++ [.normal ".mcp.json"], .document "new claude"⟩,
    ⟨projectRoot ++ [.normal ".codex", .normal "config.toml"], .document "new codex"⟩]

/-- The commit is cut off after the first file, and a recovery after it before the second one. -/
theorem interrupted_sync_is_all_or_nothing :
    AllOrNothing (Stored.format String) projectRoot bothConfigurations (fun _ => none) 2
      (perform (crashAfter (Stored.format String) projectRoot bothConfigurations (fun _ => none) 2)
        ((recoverJournal (Stored.format String) projectRoot (crashAfter (Stored.format String)
          projectRoot bothConfigurations (fun _ => none) 2)).writes.take 1)) :=
  sync_journal_is_all_or_nothing _ _ _ _ _ _ ⟨fun _ => none, rfl, rfl⟩ (by decide) (by decide)
    (.single ⟨1, rfl⟩)

/-- A file to be written in place of the journal is lost: the journal path gets its new contents, here
    those of an empty journal, and they are removed as the journal would be. The other file is new. -/
theorem file_in_place_of_journal_is_lost :
    ∃ prepared : List (PreparedFile (Stored String)),
      (prepared.map PreparedFile.path).Nodup ∧ (∀ file ∈ prepared, Within projectRoot file.path) ∧
      Recovered (Stored.format String) projectRoot (fun _ => none) ∧
      ∃ disk, disk = crashAfter (Stored.format String) projectRoot prepared (fun _ => none) 3 ∧
        (recoverJournal (Stored.format String) projectRoot disk).result = .ok () ∧
        ¬ AllNew prepared (fun _ => none)
          ((recoverJournal (Stored.format String) projectRoot disk).final disk) ∧
        (recoverJournal (Stored.format String) projectRoot disk).final disk ≠ fun _ => none := by
  refine ⟨[⟨journalPath projectRoot, .journal ⟨1, []⟩⟩,
    ⟨projectRoot ++ [.normal ".mcp.json"], .document "new claude"⟩], by decide, ?_,
    ⟨fun _ => none, rfl, rfl⟩, _, rfl, rfl, ?_, ?_⟩
  · intro file hfile
    rcases List.mem_cons.1 hfile with rfl | hfile
    · exact within_journalPath _
    · obtain rfl := List.mem_singleton.1 hfile
      exact ⟨[.normal ".mcp.json"], rfl, by decide⟩
  · intro hnew
    have hjournal := hnew.1 _ List.mem_cons_self
    cases hjournal
  · intro hold
    have hfile := congrFun hold ["project", ".mcp.json"]
    cases hfile

end AgentScale.Client
