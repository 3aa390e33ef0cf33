import Mathlib.Data.List.Perm.Basic
import PbsGui.Engine.TarListing

/-!
# What the report of an archive says

`write_tar` archives what it can read and lists the rest as skipped: a source, a folder or a
file that cannot be opened, and a file whose content is not on the disk.  A file that is open
and cannot be read to its end fails the run.  The report goes by the live paths, so it is the
same whether the sources are read where they are or from a copy.
-/

namespace PbsGui.Engine

open Lib List

/-! ### The files that a run comes to -/

/-- Why a file is skipped before its head is written. -/
def FileRead.skipReason : FileRead → Option String
  | .cloudOnly => some "cloud-only file (not downloaded to this machine)"
  | .openFailed reason => some reason
  | .opened _ _ => none

/-- A file that is not excluded: its live path, its name in the archive and how reading it
ends. -/
structure VisitedFile (N F : Type) where
  live : FsPath N
  name : String
  file : F
  read : FileRead

namespace VisitedFile

variable {N F : Type}

def event (visited : VisitedFile N F) : ArchiveEvent N := .add visited.live visited.name visited.read

/-- The entry of the report, if the file is archived. -/
def reported (visited : VisitedFile N F) : Option (String × UInt64) := visited.event.reported

/-- What is reported instead, if the file is skipped. -/
def skipped (text : N → String) (visited : VisitedFile N F) : Option Skipped :=
  visited.read.skipReason.map fun reason => ⟨visited.live.text text, reason⟩

theorem skipped_event (text : N → String) (visited : VisitedFile N F) :
    visited.event.skipped text = visited.skipped text := by
  obtain ⟨live, name, file, read⟩ := visited
  cases read <;> rfl

theorem reported_isSome_iff {text : N → String} {visited : VisitedFile N F}
    (h : visited.event.failure = none) :
    visited.reported.isSome ↔ visited.skipped text = none := by
  obtain ⟨live, name, file, read⟩ := visited
  cases read with
  | cloudOnly | openFailed =>
    simp [reported, skipped, event, ArchiveEvent.reported, FileRead.skipReason]
  | opened size append =>
    cases append with
    | error => cases h
    | ok => simp [reported, skipped, event, ArchiveEvent.reported, FileRead.skipReason]

end VisitedFile

section Visited

variable {N F : Type} [DecidableEq N] (text : N → String) (patterns : List (String → Bool))
  (readRoot : FsPath N → Option (FsPath N)) (access : TreeAccess N F) (source : FsPath N)

def sourceWalk (entries : Entries N F) : List (WalkItem N F) :=
  Node.walk (fun below => access.listing (((readRoot source).getD source).join below))
    (.folder entries)

def visitedFile (found : List N × F) : VisitedFile N F where
  live := source.join found.1
  name := archiveName text source (source.join found.1)
  file := found.2
  read := access.read (((readRoot source).getD source).join found.1) found.2

/-- The files of a source that are not excluded, in the order of the walk. -/
def visitedIn : List (VisitedFile N F) :=
  match access.root ((readRoot source).getD source) with
  | .ok (.folder entries) =>
    ((walkedFiles (sourceWalk readRoot access source entries)).filter
      fun found => !excluded text patterns (source.join found.1)).map
      (visitedFile text readRoot access source)
  | .ok (.file file) =>
    if excluded text patterns source then []
    else [⟨source, (source.fileName.map text).getD "file", file,
      access.read ((readRoot source).getD source) file⟩]
  | .ok .other | .error _ => []

def unlistedFolder : WalkItem N F → Option (FsPath N × String)
  | .error below reason => some (source.join below, reason)
  | .file _ _ | .nonFile _ => none

/-- What cannot be read of a source besides files: the source itself, or folders. -/
def unlistedIn : List (FsPath N × String) :=
  match access.root ((readRoot source).getD source) with
  | .error e => [(source, "source not readable: " ++ e)]
  | .ok (.folder entries) =>
    (sourceWalk readRoot access source entries).filterMap (unlistedFolder source)
  | .ok (.file _) | .ok .other => []

variable {text patterns readRoot access source}

theorem walkEvent_eq (item : WalkItem N F) :
    walkEvent text patterns access source ((readRoot source).getD source) item =
      ((item.file?.toList.filter fun found => !excluded text patterns (source.join found.1)).map
        (visitedFile text readRoot access source)).map VisitedFile.event ++
        (unlistedFolder source item).toList.map fun unlisted => .skip unlisted.1 unlisted.2 := by
  cases item with
  | error => simp [walkEvent, toLive_join, WalkItem.file?, unlistedFolder]
  | nonFile => simp [walkEvent, WalkItem.file?, unlistedFolder]
  | file below =>
    cases hkept : excluded text patterns (source.join below) with
    | true => simp [walkEvent, toLive_join, WalkItem.file?, unlistedFolder, hkept]
    | false =>
      simp [walkEvent, toLive_join, WalkItem.file?, unlistedFolder, hkept, visitedFile,
        VisitedFile.event]

theorem visitedFiles_eq_flatMap (items : List (WalkItem N F)) :
    ((walkedFiles items).filter fun found => !excluded text patterns (source.join found.1)).map
        (visitedFile text readRoot access source) =
      items.flatMap fun item =>
        (item.file?.toList.filter fun found => !excluded text patterns (source.join found.1)).map
          (visitedFile text readRoot access source) := by
  rw [walkedFiles, filterMap_eq_flatMap_toList, filter_flatMap, map_flatMap]

/-- A run does nothing with a source but come to its files and skip what it cannot list. -/
theorem sourceEvents_perm :
    (sourceEvents text patterns readRoot access source).Perm
      ((visitedIn text patterns readRoot access source).map VisitedFile.event ++
        (unlistedIn readRoot access source).map fun unlisted => .skip unlisted.1 unlisted.2) := by
  cases hroot : access.root ((readRoot source).getD source) with
  | error => simp [sourceEvents, visitedIn, unlistedIn, hroot]
  | ok node =>
    cases node with
    | other => simp [sourceEvents, visitedIn, unlistedIn, hroot]
    | file =>
      cases hkept : excluded text patterns source with
      | true => simp [sourceEvents, visitedIn, unlistedIn, hroot, hkept]
      | false => simp [sourceEvents, visitedIn, unlistedIn, hroot, hkept, VisitedFile.event]
    | folder =>
      simp only [sourceEvents, visitedIn, unlistedIn, hroot, visitedFiles_eq_flatMap, sourceWalk,
        filterMap_eq_flatMap_toList, map_flatMap]
      rw [flatMap_congr fun item _ => walkEvent_eq item]
      exact (flatMap_append_perm _ _ _).symm

variable {event : ArchiveEvent N}

theorem mem_sourceEvents :
    event ∈ sourceEvents text patterns readRoot access source ↔
      event ∈ (visitedIn text patterns readRoot access source).map VisitedFile.event ∨
        event ∈ (unlistedIn readRoot access source).map fun unlisted =>
          .skip unlisted.1 unlisted.2 := by
  rw [sourceEvents_perm.mem_iff, mem_append]

theorem sourceEvents_reported :
    (sourceEvents text patterns readRoot access source).filterMap ArchiveEvent.reported =
      (visitedIn text patterns readRoot access source).filterMap VisitedFile.reported := by
  cases hroot : access.root ((readRoot source).getD source) with
  | error => simp [sourceEvents, visitedIn, hroot, ArchiveEvent.reported]
  | ok node =>
    cases node with
    | other => simp [sourceEvents, visitedIn, hroot]
    | file =>
      cases hkept : excluded text patterns source with
      | true => simp [sourceEvents, visitedIn, hroot, hkept]
      | false =>
        simp only [sourceEvents, visitedIn, hroot, hkept]
        rfl
    | folder =>
      simp only [sourceEvents, visitedIn, hroot, visitedFiles_eq_flatMap, sourceWalk,
        filterMap_flatMap]
      refine flatMap_congr fun item _ => ?_
      have hskips : ((unlistedFolder source item).toList.map fun unlisted =>
          ArchiveEvent.skip unlisted.1 unlisted.2).filterMap ArchiveEvent.reported = [] := by
        rw [filterMap_map]
        exact filterMap_eq_nil_iff.mpr fun _ _ => rfl
      rw [walkEvent_eq, filterMap_append, hskips, append_nil, filterMap_map]
      rfl

/-- A file of a source that a run can come to: every folder on its path can be listed. -/
def ReachableFile (readRoot : FsPath N → Option (FsPath N)) (access : TreeAccess N F)
    (source : FsPath N) (below : List N) (file : F) : Prop :=
  ∃ node, access.root ((readRoot source).getD source) = .ok node ∧
    node.Reaches (fun path => access.listing (((readRoot source).getD source).join path)) below file

theorem exists_visited_iff {live : FsPath N} {file : F} :
    (∃ visited ∈ visitedIn text patterns readRoot access source,
        visited.live = live ∧ visited.file = file) ↔
      ∃ below, live = source.join below ∧ ReachableFile readRoot access source below file ∧
        excluded text patterns live = false := by
  have hself : source.join [] = source := by simp [FsPath.join]
  cases hroot : access.root ((readRoot source).getD source) with
  | error => simp [visitedIn, ReachableFile, hroot]
  | ok node =>
    cases node with
    | other =>
      simp only [visitedIn, ReachableFile, hroot, not_mem_nil, false_and, exists_false, false_iff]
      rintro ⟨below, -, ⟨node, hnode, hreach⟩, -⟩
      cases hnode
      cases hreach
    | file =>
      simp only [visitedIn, ReachableFile, hroot, Except.ok.injEq, exists_eq_left']
      constructor
      · rintro ⟨visited, hvis, rfl, rfl⟩
        split at hvis
        · cases hvis
        · rename_i hkept
          obtain rfl := mem_singleton.mp hvis
          exact ⟨[], hself.symm, .file _ _, Bool.eq_false_iff.mpr hkept⟩
      · rintro ⟨below, rfl, hreach, hkept⟩
        cases hreach
        rw [hself] at hkept ⊢
        rw [hkept]
        exact ⟨_, mem_singleton_self _, rfl, rfl⟩
    | folder =>
      simp only [visitedIn, ReachableFile, hroot, Except.ok.injEq, exists_eq_left',
        ← Node.file_mem_walk_iff]
      constructor
      · rintro ⟨visited, hvis, rfl, rfl⟩
        obtain ⟨found, hfound, rfl⟩ := mem_map.mp hvis
        obtain ⟨hwalked, hkept⟩ := mem_filter.mp hfound
        exact ⟨found.1, rfl, mem_walkedFiles.mp hwalked, by simpa [visitedFile] using hkept⟩
      · rintro ⟨below, rfl, hwalked, hkept⟩
        refine ⟨_, mem_map_of_mem (a := (below, file)) (mem_filter.mpr ⟨?_, ?_⟩), rfl, rfl⟩
        · exact mem_walkedFiles.mpr hwalked
        · simpa using hkept

theorem exists_read_of_visited {visited : VisitedFile N F}
    (hvis : visited ∈ visitedIn text patterns readRoot access source) :
    ∃ path, visited.read = access.read path visited.file := by
  unfold visitedIn at hvis
  split at hvis
  · obtain ⟨found, -, rfl⟩ := mem_map.mp hvis
    exact ⟨_, rfl⟩
  · split at hvis
    · cases hvis
    · obtain rfl := mem_singleton.mp hvis
      exact ⟨_, rfl⟩
  · cases hvis
  · cases hvis

theorem sourceEvents_failure
    (hread : ∀ path file size e, access.read path file ≠ .opened size (.error e))
    (hevent : event ∈ sourceEvents text patterns readRoot access source) :
    event.failure = none := by
  rcases mem_sourceEvents.mp hevent with hvis | hunlisted
  · obtain ⟨visited, hin, rfl⟩ := mem_map.mp hvis
    obtain ⟨path, heq⟩ := exists_read_of_visited hin
    obtain ⟨live, name, file, read⟩ := visited
    cases read with
    | cloudOnly | openFailed => rfl
    | opened size append =>
      cases append with
      | error e => exact absurd heq.symm (hread path file size e)
      | ok => rfl
  · obtain ⟨unlisted, -, rfl⟩ := mem_map.mp hunlisted
    rfl

end Visited

/-! ### Failures -/

section Failures

variable {N F : Type} [DecidableEq N] {text : N → String} {patterns : List (String → Bool)}
  {readRoot : FsPath N → Option (FsPath N)} {access : TreeAccess N F} {content : F → Bytes}
  {sources : List (FsPath N)} {flush : Except AppendError Unit} {archive : Archive}

/-- A file that is read to its end is copied as it is. -/
def CopiesContent (access : TreeAccess N F) (content : F → Bytes) : Prop :=
  ∀ path file size header data, access.read path file = .opened size (.ok (header, data)) →
    header.toNat = data.length ∧ data = content file

/-- The first error of a file or the archive in a run. -/
def firstFailure (text : N → String) (patterns : List (String → Bool))
    (readRoot : FsPath N → Option (FsPath N)) (access : TreeAccess N F)
    (sources : List (FsPath N)) : Option AppendError :=
  (runEvents text patterns readRoot access sources).findSome? ArchiveEvent.failure

theorem writeTar_error_iff (hflush : ∀ reason, flush ≠ .error (.read reason)) :
    (∀ e, writeTar text patterns readRoot access sources flush = .error e →
        ∃ reason, e = .write reason) ↔
      ∀ reason, firstFailure text patterns readRoot access sources ≠ some (.read reason) := by
  rw [writeTar_eq, ← firstFailure]
  cases firstFailure text patterns readRoot access sources with
  | some e => cases e <;> simp
  | none =>
    cases flush with
    | ok => simp [Except.map]
    | error e =>
      cases e with
      | write => simp [Except.map]
      | read reason => exact absurd rfl (hflush reason)

variable {source : FsPath N}

theorem mem_runEvents {event : ArchiveEvent N} (hsrc : source ∈ sources)
    (hevent : event ∈ sourceEvents text patterns readRoot access source) :
    event ∈ runEvents text patterns readRoot access sources :=
  mem_flatMap.mpr ⟨source, hsrc, hevent⟩

theorem unlisted_skipped (h : writeTar text patterns readRoot access sources flush = .ok archive)
    (hsrc : source ∈ sources) {unlisted : FsPath N × String}
    (hunlisted : unlisted ∈ unlistedIn readRoot access source) :
    ⟨unlisted.1.text text, unlisted.2⟩ ∈ archive.skipped := by
  obtain ⟨-, -, rfl⟩ := writeTar_eq_ok_iff.mp h
  refine mem_append_right _ (mem_filterMap.mpr ⟨_, mem_runEvents hsrc
    (mem_sourceEvents.mpr (.inr (mem_map_of_mem hunlisted))), rfl⟩)

variable {visited : VisitedFile N F}

theorem visited_skipped (h : writeTar text patterns readRoot access sources flush = .ok archive)
    (hsrc : source ∈ sources) (hvis : visited ∈ visitedIn text patterns readRoot access source)
    {skipped : Skipped} (hskip : visited.skipped text = some skipped) : skipped ∈ archive.skipped := by
  obtain ⟨-, -, rfl⟩ := writeTar_eq_ok_iff.mp h
  refine mem_append_right _ (mem_filterMap.mpr ⟨visited.event, mem_runEvents hsrc
    (mem_sourceEvents.mpr (.inl (mem_map_of_mem hvis))), ?_⟩)
  rw [visited.skipped_event, hskip]

theorem visited_read (hcont : CopiesContent access content)
    (hvis : visited ∈ visitedIn text patterns readRoot access source)
    (hok : visited.event.failure = none) (hopen : visited.skipped text = none) :
    ∃ entry, visited.event.stored = some entry ∧ entry.name = visited.name ∧
      entry.size.toNat = entry.data.length ∧ entry.data = content visited.file := by
  obtain ⟨path, hread⟩ := exists_read_of_visited hvis
  obtain ⟨live, name, file, read⟩ := visited
  cases read with
  | cloudOnly | openFailed => cases hopen
  | opened size append =>
    cases append with
    | error => cases hok
    | ok copied =>
      obtain ⟨hlen, hdata⟩ := hcont path file size copied.1 copied.2 hread.symm
      exact ⟨⟨name, copied.1, copied.2⟩, rfl, rfl, hlen, hdata⟩

/-- Only writes fail a run, exactly if no file that is open fails to be read before one
does.  A run that succeeds reports everything it could not list or open, and its archive has
every other file with its content, to be extracted where the names allow it. -/
theorem writeTar_skips_unreadable {format : TarFormat} (hcontent : CopiesContent access content)
    (hflush : ∀ reason, flush ≠ .error (.read reason)) :
    ((∀ e, writeTar text patterns readRoot access sources flush = .error e →
        ∃ reason, e = .write reason) ↔
      ∀ reason, firstFailure text patterns readRoot access sources ≠ some (.read reason)) ∧
    ∀ archive, writeTar text patterns readRoot access sources flush = .ok archive →
      Writable format archive.tar →
      (∀ source ∈ sources, ∀ unlisted ∈ unlistedIn readRoot access source,
        ⟨unlisted.1.text text, unlisted.2⟩ ∈ archive.skipped) ∧
      (∀ source ∈ sources, ∀ visited ∈ visitedIn text patterns readRoot access source,
        ∀ skipped, visited.skipped text = some skipped → skipped ∈ archive.skipped) ∧
      ∃ contents, readTar format (tarBytes format archive.tar) = some contents ∧
        (∀ source ∈ sources, ∀ visited ∈ visitedIn text patterns readRoot access source,
          visited.skipped text = none → (visited.name, content visited.file) ∈ contents) ∧
        ∀ {κ : Type} [DecidableEq κ] (fold : String → κ), (∀ name, ValidName (text name)) →
          archive.tar.Pairwise (EntriesApart fold) →
          extract fold none contents = .ok (archive.entries.length,
            contents.map fun entry => (entryPath fold entry.1, entry.2)) := by
  refine ⟨writeTar_error_iff hflush, fun archive h hwritable => ⟨fun source hsource unlisted =>
    unlisted_skipped h hsource, fun source hsource visited hvisited skipped =>
    visited_skipped h hsource hvisited, ?_⟩⟩
  have hstill : FilesStill access := fun path file size header data hread =>
    (hcontent path file size header data hread).1
  refine ⟨_, readTar_tarBytes hwritable (writeTar_sizes hstill h), ?_, ?_⟩
  · intro source hsource visited hvisited hopened
    obtain ⟨hnone, -, rfl⟩ := writeTar_eq_ok_iff.mp h
    have hevent := mem_runEvents hsource
      (mem_sourceEvents.mpr (.inl (mem_map_of_mem hvisited)))
    obtain ⟨entry, hstored, hname, -, hdata⟩ := visited_read hcontent hvisited
      (findSome?_eq_none_iff.mp hnone _ hevent) hopened
    rw [← hname, ← hdata]
    exact mem_map_of_mem
      (mem_append_right _ (mem_filterMap.mpr ⟨visited.event, hevent, hstored⟩))
  · intro κ _ fold hvalid hapart
    have hlength : archive.entries.length = archive.tar.length := by
      simpa using congrArg length (writeTar_ok h).2
    rw [extract_tar (writeTar_named hvalid h) hapart, hlength, map_map]
    rfl

end Failures

/-- The folder `data` with two files; reading the first one ends in the given way. -/
def lockedFirst (read : FileRead) : TreeAccess DataName Bool where
  root _ := .ok (.folder (.cons .a (.file true) (.cons .b (.file false) .nil)))
  listing _ := none
  read _ file := if file then read else .opened (some 1) (.ok (1, [8]))

/-- A first file that cannot be opened is skipped, and the second one is in the archive. -/
theorem lockedFirst_skipped : ∃ archive,
    writeTar DataName.text [] (fun _ => none) (lockedFirst (.openFailed "locked"))
        [⟨"C:\\", [.data]⟩] (.ok ()) = .ok archive ∧
      ⟨"C:\\data\\a", "locked"⟩ ∈ archive.skipped ∧
      ∃ contents, readTar sampleTarFormat (tarBytes sampleTarFormat archive.tar) = some contents ∧
        ("data/b", [8]) ∈ contents := by
  have hcontent : CopiesContent (lockedFirst (.openFailed "locked")) fun _ => [8] := by
    intro path file size header data hread
    cases file with
    | true => cases hread
    | false =>
      cases hread
      exact ⟨rfl, rfl⟩
  have hresult := (@writeTar_skips_unreadable DataName Bool _ DataName.text [] (fun _ => none) _ _
    [⟨"C:\\", [.data]⟩] (.ok ()) sampleTarFormat hcontent nofun).2
  obtain ⟨-, hskipped, contents, hread, hfiles, -⟩ := hresult _ rfl (by
    intro entry hentry
    obtain rfl := mem_singleton.mp hentry
    exact .inr rfl)
  refine ⟨_, rfl, ?_, contents, hread, ?_⟩
  · exact hskipped _ mem_cons_self ⟨⟨"C:\\", [.data, .a]⟩, "data/a", true, _⟩
      mem_cons_self _ rfl
  · exact hfiles _ mem_cons_self ⟨⟨"C:\\", [.data, .b]⟩, "data/b", false, _⟩
      (mem_cons_of_mem _ mem_cons_self) rfl

/-- A first file whose read fails part way fails the run, although every write succeeds. -/
theorem cutRead_fails_run :
    writeTar DataName.text [] (fun _ => none)
        (lockedFirst (.opened (some 2) (.error (.read "the device is not ready"))))
        [⟨"C:\\", [.data]⟩] (.ok ()) = .error (.read "the device is not ready") := rfl

section Complete

variable {N F : Type} [DecidableEq N] {text : N → String} {patterns : List (String → Bool)}
  {readRoot : FsPath N → Option (FsPath N)} {access : TreeAccess N F}
  {sources : List (FsPath N)} {flush : Except AppendError Unit} {archive : Archive}

omit [DecidableEq N] in
theorem FsPath.join_ne_of_not_nested {source other : FsPath N} (h : ¬ source.Nested other)
    (below below' : List N) : source.join below ≠ other.join below' := by
  intro heq
  obtain ⟨hroot, hparts⟩ := FsPath.mk.inj heq
  refine h ⟨hroot, prefix_or_prefix_of_prefix (prefix_append source.parts below) ?_⟩
  exact hparts ▸ prefix_append other.parts below'

theorem visitedIn_nodup {source : FsPath N}
    (hnames : ∀ node, access.root ((readRoot source).getD source) = .ok node → node.KeysApart id) :
    ((visitedIn text patterns readRoot access source).map VisitedFile.live).Nodup := by
  cases hroot : access.root ((readRoot source).getD source) with
  | error => simp [visitedIn, hroot]
  | ok node =>
    cases node with
    | other => simp [visitedIn, hroot]
    | file =>
      simp only [visitedIn, hroot]
      split <;> simp
    | folder entries =>
      simp only [visitedIn, hroot, map_map]
      have hapart : (walkedFiles (sourceWalk readRoot access source entries)).Pairwise
          (FilesApart id) := Node.walk_filesApart (hnames _ hroot)
      rw [List.Nodup, pairwise_map]
      refine (hapart.filter _).imp fun {left right} hne heq => hne.ne ?_
      have hparts : source.parts ++ left.1 = source.parts ++ right.1 := congrArg FsPath.parts heq
      rw [append_cancel_left hparts]

theorem visited_nodup (hapart : sources.Pairwise fun source other => ¬ source.Nested other)
    (hnames : ∀ source ∈ sources, ∀ node,
      access.root ((readRoot source).getD source) = .ok node → node.KeysApart id) :
    ((sources.flatMap (visitedIn text patterns readRoot access)).map VisitedFile.live).Nodup := by
  rw [map_flatMap, nodup_flatMap]
  refine ⟨fun source hsrc => visitedIn_nodup (hnames source hsrc), hapart.imp ?_⟩
  intro source other hnested live hlive hlive'
  obtain ⟨visited, hvis, hpath⟩ := mem_map.mp hlive
  obtain ⟨visited', hvis', hpath'⟩ := mem_map.mp hlive'
  obtain ⟨below, hbelow, -, -⟩ := exists_visited_iff.mp ⟨visited, hvis, hpath, rfl⟩
  obtain ⟨below', hbelow', -, -⟩ := exists_visited_iff.mp ⟨visited', hvis', hpath', rfl⟩
  exact FsPath.join_ne_of_not_nested hnested below below' (hbelow.symm.trans hbelow')

theorem writeTar_report (h : writeTar text patterns readRoot access sources flush = .ok archive) :
    archive.entries =
        (sources.flatMap (visitedIn text patterns readRoot access)).filterMap VisitedFile.reported ∧
      archive.skipped.Perm
        ((sources.flatMap (visitedIn text patterns readRoot access)).filterMap
            (VisitedFile.skipped text) ++
          (sources.flatMap (unlistedIn readRoot access)).map fun unlisted =>
            ⟨unlisted.1.text text, unlisted.2⟩) := by
  obtain ⟨-, -, rfl⟩ := writeTar_eq_ok_iff.mp h
  simp only [Archive.extend, nil_append, runEvents]
  constructor
  · rw [filterMap_flatMap, filterMap_flatMap]
    exact flatMap_congr fun source _ => sourceEvents_reported
  · have hperm : (sources.flatMap (sourceEvents text patterns readRoot access)).Perm
        (sources.flatMap (fun source =>
            (visitedIn text patterns readRoot access source).map VisitedFile.event) ++
          sources.flatMap fun source => (unlistedIn readRoot access source).map fun unlisted =>
            .skip unlisted.1 unlisted.2) :=
      (List.Perm.flatMap_left sources fun source _ => sourceEvents_perm).trans
        (flatMap_append_perm _ _ _).symm
    refine (hperm.filterMap _).trans (.of_eq ?_)
    rw [filterMap_append, ← map_flatMap, ← map_flatMap, filterMap_map, filterMap_map]
    congr 1
    · exact filterMap_congr fun visited _ => visited.skipped_event text
    · exact congrFun filterMap_eq_map _

/-- Two reads that a report does not tell apart, the reason of a skip aside. -/
def FileRead.Alike (read other : FileRead) : Prop :=
  read = other ∨ (read.skipReason.isSome ∧ other.skipReason.isSome)

/-- What is at the two paths is the same, with the same files and folders out of reach. -/
structure SameContents (access : TreeAccess N F) (path copy : FsPath N) : Prop where
  root : (∃ node, access.root path = .ok node ∧ access.root copy = .ok node) ∨
    ∃ e e', access.root path = .error e ∧ access.root copy = .error e'
  listing : ∀ below, access.listing (path.join below) = none ↔
    access.listing (copy.join below) = none
  read : ∀ below file,
    (access.read (path.join below) file).Alike (access.read (copy.join below) file)

/-- What an event adds to the report, without the reason of a skip. -/
def ArchiveEvent.outline (text : N → String) (event : ArchiveEvent N) :
    Option (String × UInt64) × Option String × Option AppendError :=
  (event.reported, (event.skipped text).map Skipped.path, event.failure)

/-- The entries, and the paths of what was skipped. -/
def Archive.outline (archive : Archive) : List (String × UInt64) × List String :=
  (archive.entries, archive.skipped.map Skipped.path)

omit [DecidableEq N] in
theorem ArchiveEvent.outline_add {read other : FileRead} (h : read.Alike other) (live : FsPath N)
    (name : String) :
    (ArchiveEvent.add live name read).outline text =
      (ArchiveEvent.add live name other).outline text := by
  rcases h with rfl | ⟨hread, hother⟩
  · rfl
  · have hskip : ∀ read : FileRead, read.skipReason.isSome →
        (ArchiveEvent.add live name read).outline text = (none, some (live.text text), none) := by
      intro read hread
      cases read with
      | cloudOnly | openFailed => rfl
      | opened => cases hread
    rw [hskip read hread, hskip other hother]

theorem writeTar_outline_congr {readRoot' : FsPath N → Option (FsPath N)}
    (h : (runEvents text patterns readRoot access sources).map (ArchiveEvent.outline text) =
      (runEvents text patterns readRoot' access sources).map (ArchiveEvent.outline text)) :
    (writeTar text patterns readRoot access sources flush).map Archive.outline =
      (writeTar text patterns readRoot' access sources flush).map Archive.outline := by
  have hfail : ∀ events : List (ArchiveEvent N), events.findSome? ArchiveEvent.failure =
      (events.map (ArchiveEvent.outline text)).findSome? fun outline => outline.2.2 := by
    intro events
    rw [findSome?_map]
    rfl
  have hextend : ∀ events : List (ArchiveEvent N), (({} : Archive).extend text events).outline =
      ((events.map (ArchiveEvent.outline text)).filterMap Prod.fst,
        (events.map (ArchiveEvent.outline text)).filterMap fun outline => outline.2.1) := by
    intro events
    simp only [Archive.outline, Archive.extend, nil_append, filterMap_map, map_filterMap]
    rfl
  rw [writeTar_eq, writeTar_eq, hfail, hfail, h]
  split
  · rfl
  · cases flush with
    | error => rfl
    | ok => exact congrArg Except.ok ((hextend _).trans (h ▸ (hextend _).symm))

/-- The outline of what an item of the walk leads to does not depend on where it is read. -/
theorem walkEvent_outline {source copy : FsPath N} (h : SameContents access source copy)
    (item : WalkItem N F) :
    (walkEvent text patterns access source copy item).map (ArchiveEvent.outline text) =
      (walkEvent text patterns access source source item.unexplained).map
        (ArchiveEvent.outline text) := by
  cases item with
  | error =>
    simp [walkEvent, WalkItem.unexplained, toLive_join, ArchiveEvent.outline,
      ArchiveEvent.reported, ArchiveEvent.skipped, ArchiveEvent.failure]
  | nonFile => rfl
  | file below file =>
    simp only [walkEvent, WalkItem.unexplained, toLive_join]
    split
    · rfl
    · simp only [map_cons, map_nil, ArchiveEvent.outline_add (h.read below file)]

theorem sourceEvents_outline {source : FsPath N}
    (h : SameContents access source ((readRoot source).getD source)) :
    (sourceEvents text patterns readRoot access source).map (ArchiveEvent.outline text) =
      (sourceEvents text patterns (fun _ => none) access source).map
        (ArchiveEvent.outline text) := by
  rcases h.root with ⟨node, hlive, hcopy⟩ | ⟨e, e', hlive, hcopy⟩
  · cases node with
    | other => simp only [sourceEvents, hlive, hcopy, Option.getD_none]
    | file file =>
      have hread := h.read [] file
      simp only [FsPath.join, append_nil] at hread
      simp only [sourceEvents, hlive, hcopy, Option.getD_none]
      split
      · rfl
      · simp only [map_cons, map_nil, ArchiveEvent.outline_add hread]
    | folder entries =>
      -- both walks are the same once the reasons are left out
      have hwalk := Node.walk_unexplained (.folder entries) h.listing
      have hlist := @SameContents.mk N F access source source (.inl ⟨_, hlive, hlive⟩)
        (fun _ => Iff.rfl) fun _ _ => .inl rfl
      simp only [sourceEvents, hlive, hcopy, Option.getD_none, map_flatMap]
      refine (flatMap_congr fun item _ => walkEvent_outline h item).trans ?_
      refine Eq.trans ?_ (flatMap_congr fun item _ => walkEvent_outline hlist item).symm
      have hfold (items : List (WalkItem N F)) :
          (items.flatMap fun item =>
            (walkEvent text patterns access source source item.unexplained).map
              (ArchiveEvent.outline text)) =
            (items.map WalkItem.unexplained).flatMap fun item =>
              (walkEvent text patterns access source source item).map
                (ArchiveEvent.outline text) := by
        rw [flatMap_map]
      rw [hfold, hfold, hwalk]
  · simp [sourceEvents, hlive, hcopy, ArchiveEvent.outline, ArchiveEvent.reported,
      ArchiveEvent.skipped, ArchiveEvent.failure]

end Complete

end PbsGui.Engine
