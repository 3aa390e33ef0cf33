import PbsGui.Engine.Archive
import PbsGui.Lib.EventRuns

/-!
# Names in an archive

Which file of an archive can take another's place when all of it is extracted.  Within
one source the tree keeps the names apart; between sources only the first part of a
name can, which is the name of the source itself.
-/

namespace PbsGui.Engine

open Lib List

/-- A name that the file system allows. -/
structure ValidName (name : String) : Prop where
  ne_empty : name ≠ ""
  ne_dot : name ≠ "."
  ne_dots : name ≠ ".."
  no_slash : '/' ∉ name.toList
  no_backslash : '\\' ∉ name.toList

theorem nameParts_slashes (name : String) : nameParts (slashes name) = nameParts name := by
  rw [nameParts, slashes_slashes, nameParts]

theorem ValidName.map_slash {name : String} (h : ValidName name) :
    name.toList.map slash = name.toList := by
  refine (map_congr_left fun c hc => ?_).trans (map_id _)
  exact if_neg fun (heq : c = '\\') => h.no_backslash (heq ▸ hc)

theorem nameParts_joinText {N : Type} {text : N → String} (hvalid : ∀ name, ValidName (text name))
    {parts : List N} (hne : parts ≠ []) : nameParts (joinText text parts) = parts.map text := by
  have hjoin : (slashes (joinText text parts)).toList =
      ['/'].intercalate (parts.map fun name => (text name).toList) := by
    simp only [slashes, joinText, String.toList_ofList]
    clear hne
    induction parts with
    | nil => rfl
    | cons first rest ih =>
      cases rest with
      | nil => simpa using (hvalid first).map_slash
      | cons =>
        simp only [map_cons, intercalate_cons_cons, map_append] at ih ⊢
        rw [ih, (hvalid first).map_slash]
        rfl
  rw [nameParts, hjoin, splitOn_intercalate]
  · simp
  · simp only [mem_map]
    rintro _ ⟨name, -, rfl⟩
    exact (hvalid name).no_slash
  · simpa using hne

theorem nameParts_text {name : String} (h : ValidName name) : nameParts name = [name] := by
  have hparts := @nameParts_joinText Unit (fun _ => name) (fun _ => h) [()] (by simp)
  simpa [joinText] using hparts

/-! ### What is stored -/

section Stored

variable {N : Type} {text : N → String}

def ArchiveEvent.stored : ArchiveEvent N → Option TarEntry
  | .add _ name (.opened _ (.ok (size, data))) => some ⟨name, size, data⟩
  | _ => none

theorem ArchiveEvent.stored_add {live : FsPath N} {name : String} {read : FileRead}
    {entry : TarEntry} (h : (ArchiveEvent.add live name read).stored = some entry) :
    entry.name = name ∧ ∃ size, read = .opened size (.ok (entry.size, entry.data)) := by
  rw [ArchiveEvent.stored.eq_def] at h
  split at h
  · rename_i hevent
    cases hevent
    cases h
    exact ⟨rfl, _, rfl⟩
  · cases h

theorem ArchiveEvent.filterMap_stored_singleton (event : ArchiveEvent N) :
    [event].filterMap ArchiveEvent.stored = event.stored.toList := by
  cases h : event.stored <;> simp [h]

/-- The entry that an event adds to the report. -/
def ArchiveEvent.reported : ArchiveEvent N → Option (String × UInt64)
  | .add _ name (.opened size (.ok _)) => some (name, size.getD 0)
  | _ => none

/-- What an event adds to the list of what was skipped. -/
def ArchiveEvent.skipped (text : N → String) : ArchiveEvent N → Option Skipped
  | .skip live reason => some ⟨live.text text, reason⟩
  | .add live _ .cloudOnly =>
    some ⟨live.text text, "cloud-only file (not downloaded to this machine)"⟩
  | .add live _ (.openFailed reason) => some ⟨live.text text, reason⟩
  | .add _ _ (.opened _ _) => none

/-- The error that an event ends the loop with. -/
def ArchiveEvent.failure : ArchiveEvent N → Option AppendError
  | .add _ _ (.opened _ (.error e)) => some e
  | _ => none

theorem ArchiveEvent.reported_name (event : ArchiveEvent N) :
    event.reported.map Prod.fst = event.stored.map TarEntry.name := by
  cases event with
  | skip => rfl
  | add live name read =>
    cases read with
    | cloudOnly | openFailed => rfl
    | opened size append => cases append <;> rfl

/-- The archive after events none of which fails. -/
def Archive.extend (text : N → String) (archive : Archive) (events : List (ArchiveEvent N)) :
    Archive where
  tar := archive.tar ++ events.filterMap ArchiveEvent.stored
  entries := archive.entries ++ events.filterMap ArchiveEvent.reported
  skipped := archive.skipped ++ events.filterMap (ArchiveEvent.skipped text)

theorem Archive.extend_nil (archive : Archive) : archive.extend text [] = archive := by
  simp [extend]

/-- One turn of the loop: the event fails, or the tar and the report grow together. -/
theorem handleEvent_eq (archive : Archive) (event : ArchiveEvent N) :
    handleEvent text archive event =
      match event.failure with
      | some e => .error e
      | none => .ok (archive.extend text [event]) := by
  cases event with
  | skip =>
    simp [handleEvent, ArchiveEvent.failure, Archive.extend, Archive.skip, ArchiveEvent.stored,
      ArchiveEvent.reported, ArchiveEvent.skipped]
  | add live name read =>
    cases read with
    | cloudOnly | openFailed =>
      simp [handleEvent, addFile, ArchiveEvent.failure, Archive.extend, Archive.skip,
        ArchiveEvent.stored, ArchiveEvent.reported, ArchiveEvent.skipped]
    | opened size append =>
      cases append with
      | error => rfl
      | ok =>
        simp [handleEvent, addFile, ArchiveEvent.failure, Archive.extend,
          ArchiveEvent.stored, ArchiveEvent.reported, ArchiveEvent.skipped]

theorem foldlM_handleEvent (archive : Archive) (events : List (ArchiveEvent N)) :
    events.foldlM (handleEvent text) archive =
      match events.findSome? ArchiveEvent.failure with
      | some e => .error e
      | none => .ok (archive.extend text events) := by
  induction events generalizing archive with
  | nil =>
    rw [Archive.extend_nil]
    rfl
  | cons event events ih =>
    rw [foldlM_cons, handleEvent_eq, findSome?_cons]
    cases hfail : event.failure with
    | some => rfl
    | none =>
      have hsplit : archive.extend text (event :: events) =
          (archive.extend text [event]).extend text events := by
        rw [← singleton_append]
        simp only [Archive.extend, filterMap_append, append_assoc]
      rw [hsplit]
      exact ih (archive.extend text [event])

end Stored

namespace FsPath

variable {N : Type} [DecidableEq N]

theorem stripPrefix_join (base : FsPath N) (below : List N) :
    (base.join below).stripPrefix base = some below := by
  simp [stripPrefix, join]

end FsPath

section Sources

variable {N F : Type} [DecidableEq N] {text : N → String}

theorem toLive_join (source read : FsPath N) (below : List N) :
    toLive source read (read.join below) = source.join below := by
  rw [toLive, FsPath.stripPrefix_join]
  cases below with
  | nil => simp [FsPath.join]
  | cons => rfl

/-- The parts of the name of a file below a source. -/
def fileParts (text : N → String) (source : FsPath N) (below : List N) : List String :=
  (source.fileName.toList ++ below).map text

theorem archiveName_join (source : FsPath N) (below : List N) :
    archiveName text source (source.join below) =
      slashes (joinText text (source.fileName.toList ++ below)) := by
  obtain ⟨root, parts⟩ := source
  rcases eq_nil_or_concat parts with rfl | ⟨above, last, rfl⟩
  · -- a drive is its own base
    have hparent : (FsPath.mk root ([] : List N)).parent = none := rfl
    simp only [archiveName, hparent, Option.getD_none, FsPath.stripPrefix_join]
    simp [FsPath.fileName]
  · have hparent : (FsPath.mk root (above.concat last)).parent = some ⟨root, above⟩ := by
      rw [FsPath.parent, concat_eq_append, dropLast_concat]
      simp
    have hjoin : (FsPath.mk root (above.concat last)).join below =
        (FsPath.mk root above).join (last :: below) := by
      simp [FsPath.join]
    simp only [archiveName, hparent, Option.getD_some, hjoin, FsPath.stripPrefix_join]
    simp [FsPath.fileName]

variable {source : FsPath N}

theorem nameParts_archiveName (hvalid : ∀ name, ValidName (text name)) {below : List N}
    (hne : fileParts text source below ≠ []) :
    nameParts (archiveName text source (source.join below)) = fileParts text source below := by
  rw [archiveName_join, nameParts_slashes, nameParts_joinText hvalid, fileParts]
  rintro hnil
  simp [fileParts, hnil] at hne

/-! ### What a source puts into the tar -/

variable {patterns : List (String → Bool)} {readRoot : FsPath N → Option (FsPath N)}
  {access : TreeAccess N F}

/-- The tar of a run, as what each source puts into it. -/
def storedFrom (text : N → String) (patterns : List (String → Bool))
    (readRoot : FsPath N → Option (FsPath N)) (access : TreeAccess N F) (source : FsPath N) :
    List TarEntry :=
  (sourceEvents text patterns readRoot access source).filterMap ArchiveEvent.stored

/-- What a run does, one source after the other. -/
def runEvents (text : N → String) (patterns : List (String → Bool))
    (readRoot : FsPath N → Option (FsPath N)) (access : TreeAccess N F)
    (sources : List (FsPath N)) : List (ArchiveEvent N) :=
  sources.flatMap (sourceEvents text patterns readRoot access)

/-- The run ends with the first error of a file or that of the flush, or it archives what it
can and skips the rest. -/
theorem writeTar_eq (sources : List (FsPath N)) (flush : Except AppendError Unit) :
    writeTar text patterns readRoot access sources flush =
      match (runEvents text patterns readRoot access sources).findSome? ArchiveEvent.failure with
      | some e => .error e
      | none => flush.map fun _ =>
        ({} : Archive).extend text (runEvents text patterns readRoot access sources) := by
  rw [writeTar, foldlM_handleEvent, runEvents]
  split
  · rfl
  · cases flush <;> rfl

variable {sources : List (FsPath N)} {flush : Except AppendError Unit}

theorem writeTar_eq_ok_iff {archive : Archive} :
    writeTar text patterns readRoot access sources flush = .ok archive ↔
      (runEvents text patterns readRoot access sources).findSome? ArchiveEvent.failure = none ∧
        flush = .ok () ∧
        archive = ({} : Archive).extend text (runEvents text patterns readRoot access sources) := by
  rw [writeTar_eq]
  cases (runEvents text patterns readRoot access sources).findSome? ArchiveEvent.failure with
  | some => simp
  | none => cases flush <;> simp [Except.map, eq_comm]

theorem writeTar_ok {archive : Archive}
    (h : writeTar text patterns readRoot access sources flush = .ok archive) :
    archive.tar = sources.flatMap (storedFrom text patterns readRoot access) ∧
      archive.entries.map Prod.fst = archive.tar.map TarEntry.name := by
  obtain ⟨-, -, rfl⟩ := writeTar_eq_ok_iff.mp h
  simp only [Archive.extend, nil_append]
  constructor
  · rw [runEvents, filterMap_flatMap]
    rfl
  · rw [map_filterMap, map_filterMap]
    exact filterMap_congr fun event _ => event.reported_name

/-- What a file of a source's tree puts into the tar. -/
def storedFile (text : N → String) (patterns : List (String → Bool)) (access : TreeAccess N F)
    (source read : FsPath N) (found : List N × F) : Option TarEntry :=
  if excluded text patterns (source.join found.1) then none
  else (ArchiveEvent.add (source.join found.1) (archiveName text source (source.join found.1))
    (access.read (read.join found.1) found.2)).stored

theorem walkEvent_stored (source read : FsPath N) (item : WalkItem N F) :
    (walkEvent text patterns access source read item).filterMap ArchiveEvent.stored =
      (item.file?.bind (storedFile text patterns access source read)).toList := by
  cases item with
  | error | nonFile => rfl
  | file =>
    simp only [walkEvent, toLive_join, WalkItem.file?, Option.bind_some, storedFile]
    split
    · rfl
    · exact ArchiveEvent.filterMap_stored_singleton _

theorem storedFrom_error {e : String} (h : access.root ((readRoot source).getD source) = .error e) :
    storedFrom text patterns readRoot access source = [] := by
  simp only [storedFrom, sourceEvents, h]
  rfl

theorem storedFrom_other (h : access.root ((readRoot source).getD source) = .ok .other) :
    storedFrom text patterns readRoot access source = [] := by
  simp only [storedFrom, sourceEvents, h]
  rfl

theorem storedFrom_folder {entries : Entries N F}
    (h : access.root ((readRoot source).getD source) = .ok (.folder entries)) :
    storedFrom text patterns readRoot access source =
      (walkedFiles (Node.walk (fun below =>
        access.listing (((readRoot source).getD source).join below)) (.folder entries))).filterMap
        (storedFile text patterns access source ((readRoot source).getD source)) := by
  simp only [storedFrom, sourceEvents, h, filterMap_flatMap, walkEvent_stored]
  rw [walkedFiles, filterMap_filterMap, filterMap_eq_flatMap_toList]

theorem storedFrom_file {file : F}
    (h : access.root ((readRoot source).getD source) = .ok (.file file)) :
    storedFrom text patterns readRoot access source =
      if excluded text patterns source then []
      else ((ArchiveEvent.add source ((source.fileName.map text).getD "file")
        (access.read ((readRoot source).getD source) file)).stored).toList := by
  simp only [storedFrom, sourceEvents, h]
  split
  · rfl
  · exact ArchiveEvent.filterMap_stored_singleton _

theorem storedFile_eq_some {source read : FsPath N} {found : List N × F} {entry : TarEntry}
    (h : storedFile text patterns access source read found = some entry) :
    entry.name = archiveName text source (source.join found.1) ∧
      ∃ size, access.read (read.join found.1) found.2 =
        .opened size (.ok (entry.size, entry.data)) := by
  rw [storedFile] at h
  split at h
  · cases h
  · exact ArchiveEvent.stored_add h

theorem mem_storedFrom {entry : TarEntry}
    (hentry : entry ∈ storedFrom text patterns readRoot access source) :
    (∃ entries found,
      access.root ((readRoot source).getD source) = .ok (.folder entries) ∧
        found ∈ walkedFiles (Node.walk (fun below =>
          access.listing (((readRoot source).getD source).join below)) (.folder entries)) ∧
        storedFile text patterns access source ((readRoot source).getD source) found = some entry) ∨
      ∃ file, access.root ((readRoot source).getD source) = .ok (.file file) ∧
        (ArchiveEvent.add source ((source.fileName.map text).getD "file")
          (access.read ((readRoot source).getD source) file)).stored = some entry := by
  cases hroot : access.root ((readRoot source).getD source) with
  | error => simp [storedFrom_error hroot] at hentry
  | ok node =>
    cases node with
    | other => simp [storedFrom_other hroot] at hentry
    | folder entries =>
      rw [storedFrom_folder hroot] at hentry
      obtain ⟨found, hfound, hstored⟩ := mem_filterMap.mp hentry
      exact .inl ⟨entries, found, rfl, hfound, hstored⟩
    | file file =>
      rw [storedFrom_file hroot] at hentry
      split at hentry
      · cases hentry
      · exact .inr ⟨file, rfl, Option.mem_toList.mp hentry⟩

end Sources

section Tops

variable {N F : Type} {text : N → String} {readRoot : FsPath N → Option (FsPath N)}
  {access : TreeAccess N F}

/-- The first parts of the names that a source can give. -/
def topTexts (text : N → String) (readRoot : FsPath N → Option (FsPath N))
    (access : TreeAccess N F) (source : FsPath N) : List String :=
  match source.fileName, access.root ((readRoot source).getD source) with
  | some name, _ => [text name]
  | none, .ok (.folder entries) => entries.names.map text
  | none, .ok (.file _) => ["file"]
  | none, _ => []

/-- An entry whose name has valid parts, the first of them among the given ones. -/
def NamedBelow (tops : List String) (entry : TarEntry) : Prop :=
  (∀ part ∈ nameParts entry.name, ValidName part) ∧
    ∃ top ∈ tops, ∃ rest, nameParts entry.name = top :: rest

variable {source : FsPath N} {entries : Entries N F}

theorem exists_top_of_walk (h : access.root ((readRoot source).getD source) = .ok (.folder entries))
    {listing : List N → Option String} {found : List N × F}
    (hfound : found ∈ walkedFiles (Node.walk listing (.folder entries))) :
    ∃ top ∈ topTexts text readRoot access source, ∃ rest,
      fileParts text source found.1 = top :: rest := by
  cases hname : source.fileName with
  | some name =>
    exact ⟨text name, by simp [topTexts, hname], found.1.map text, by simp [fileParts, hname]⟩
  | none =>
    -- a drive: the name starts with the entry of its root folder
    rw [Node.walk] at hfound
    split at hfound
    · simp [walkedFiles, WalkItem.file?] at hfound
    · obtain ⟨name, hmem, below, hbelow⟩ := Entries.exists_name_of_walk hfound
      refine ⟨text name, ?_, below.map text, by simp [fileParts, hname, hbelow]⟩
      simp only [topTexts, hname, h]
      exact mem_map_of_mem hmem

theorem fileParts_ne_nil (h : access.root ((readRoot source).getD source) = .ok (.folder entries))
    {listing : List N → Option String} {found : List N × F}
    (hfound : found ∈ walkedFiles (Node.walk listing (.folder entries))) :
    fileParts text source found.1 ≠ [] := by
  obtain ⟨top, -, rest, hparts⟩ := @exists_top_of_walk N F text readRoot access _ _ h _ _ hfound
  rw [hparts]
  exact cons_ne_nil top rest

variable [DecidableEq N] {patterns : List (String → Bool)}

theorem storedFrom_named (hvalid : ∀ name, ValidName (text name)) {entry : TarEntry}
    (hentry : entry ∈ storedFrom text patterns readRoot access source) :
    NamedBelow (topTexts text readRoot access source) entry := by
  rcases mem_storedFrom hentry with ⟨entries, found, hroot, hfound, hstored⟩ | ⟨file, hroot, hstored⟩
  · obtain ⟨top, htop, rest, hparts⟩ := exists_top_of_walk hroot hfound
    have hname := nameParts_archiveName hvalid (hparts ▸ cons_ne_nil top rest)
    rw [← (storedFile_eq_some hstored).1] at hname
    refine ⟨fun part hpart => ?_, top, htop, rest, hname.trans hparts⟩
    rw [hname, fileParts] at hpart
    obtain ⟨name, -, rfl⟩ := mem_map.mp hpart
    exact hvalid name
  · obtain ⟨hname, -⟩ := ArchiveEvent.stored_add hstored
    obtain ⟨top, htop, hok, hentry⟩ : ∃ top ∈ topTexts text readRoot access source,
        ValidName top ∧ entry.name = top := by
      cases hlast : source.fileName with
      | some last =>
        exact ⟨text last, by simp [topTexts, hlast], hvalid last, by simp [hname, hlast]⟩
      | none =>
        exact ⟨"file", by simp [topTexts, hlast, hroot],
          ⟨by decide, by decide, by decide, by decide, by decide⟩, by simp [hname, hlast]⟩
    rw [NamedBelow, hentry, nameParts_text hok]
    exact ⟨fun part hpart => mem_singleton.mp hpart ▸ hok, top, htop, [], rfl⟩

variable {κ : Type} (fold : String → κ)

def entryPath (name : String) : List κ := (nameParts name).map fold

/-- No entry is put in the other's place, or below it. -/
def EntriesApart (left right : TarEntry) : Prop :=
  Apart (entryPath fold left.name) (entryPath fold right.name)

variable {fold}

variable {left right : TarEntry}

theorem EntriesApart.path_ne (h : EntriesApart fold left right) :
    entryPath fold left.name ≠ entryPath fold right.name :=
  Apart.ne h

theorem storedFrom_apart (hvalid : ∀ name, ValidName (text name))
    (hkeys : ∀ node, access.root ((readRoot source).getD source) = .ok node →
      node.KeysApart fun name => fold (text name)) :
    (storedFrom text patterns readRoot access source).Pairwise (EntriesApart fold) := by
  cases hroot : access.root ((readRoot source).getD source) with
  | error => simp [storedFrom_error hroot]
  | ok node =>
    cases node with
    | other => simp [storedFrom_other hroot]
    | file file =>
      rw [storedFrom_file hroot]
      split
      · exact List.Pairwise.nil
      · cases (ArchiveEvent.add source ((source.fileName.map text).getD "file")
          (access.read ((readRoot source).getD source) file)).stored <;> simp
    | folder =>
      rw [storedFrom_folder hroot, pairwise_filterMap]
      refine (Node.walk_filesApart (hkeys _ hroot)).imp_of_mem ?_
      intro left right hleft hright hapart first hfirst second hsnd
      rw [EntriesApart, entryPath, entryPath, (storedFile_eq_some hfirst).1,
        (storedFile_eq_some hsnd).1, nameParts_archiveName hvalid (fileParts_ne_nil hroot hleft),
        nameParts_archiveName hvalid (fileParts_ne_nil hroot hright), fileParts, fileParts]
      simp only [map_append, map_map]
      exact hapart.append _

theorem tar_apart (hvalid : ∀ name, ValidName (text name)) {sources : List (FsPath N)}
    (htops : (sources.flatMap fun source =>
      (topTexts text readRoot access source).map fold).Nodup)
    (hkeys : ∀ source ∈ sources, ∀ node, access.root ((readRoot source).getD source) = .ok node →
      node.KeysApart fun name => fold (text name)) :
    (sources.flatMap (storedFrom text patterns readRoot access)).Pairwise (EntriesApart fold) := by
  refine pairwise_flatMap.mpr ⟨fun source hsrc =>
    storedFrom_apart hvalid (hkeys source hsrc), ?_⟩
  refine (nodup_flatMap.mp htops).2.imp ?_
  intro source other hdisjoint left hleft right hright
  obtain ⟨-, top, htop, rest, hparts⟩ := storedFrom_named hvalid hleft
  obtain ⟨-, top', htop', rest', hparts'⟩ := storedFrom_named hvalid hright
  rw [EntriesApart, entryPath, entryPath, hparts, hparts']
  refine apart_of_ne (fun heq => ?_) _ _
  refine hdisjoint (mem_map_of_mem htop) ?_
  rw [heq]
  exact mem_map_of_mem htop'

end Tops

section Extraction

variable {κ : Type} [DecidableEq κ] {fold : String → κ}

variable {files : List (List κ × Bytes)} {name : String}

theorem putFile_new {path : List κ} {data : Bytes} (hapart : ∀ file ∈ files, Apart file.1 path) :
    putFile files name path data = .ok (files ++ [(path, data)]) := by
  have hfree : ¬ ∃ file ∈ files, file.1 ≠ path ∧ (file.1 <+: path ∨ path <+: file.1) := by
    rintro ⟨file, hfile, -, hle | hle⟩
    · exact (hapart file hfile).1 hle
    · exact (hapart file hfile).2 hle
  have hnew : path ∉ files.map Prod.fst := by
    intro hmem
    obtain ⟨file, hfile, heq⟩ := mem_map.mp hmem
    exact (hapart file hfile).ne heq
  rw [putFile, if_neg hfree, Keyed.upsert_of_notMem hnew]

theorem unpackParts_of_valid (hvalid : ∀ part ∈ nameParts name, ValidName part) :
    unpackParts name = nameParts name := by
  refine filter_eq_self.mpr fun part hpart => ?_
  simp [(hvalid part hpart).ne_empty, (hvalid part hpart).ne_dot]

theorem unpackIn_new {data : Bytes} (hvalid : ∀ part ∈ nameParts name, ValidName part)
    (hne : nameParts name ≠ []) (hapart : ∀ file ∈ files, Apart file.1 (entryPath fold name)) :
    unpackIn fold files name data = .ok (files ++ [(entryPath fold name, data)], true) := by
  have hdots : ".." ∉ nameParts name := fun hmem => (hvalid _ hmem).ne_dots rfl
  rw [entryPath] at hapart ⊢
  rw [unpackIn, unpackParts_of_valid hvalid, if_neg hdots, if_neg hne, putFile_new hapart]
  rfl

theorem foldlM_extractEntry {entries : List (String × Bytes)} {count : Nat}
    (hvalid : ∀ entry ∈ entries, ∀ part ∈ nameParts entry.1, ValidName part)
    (hne : ∀ entry ∈ entries, nameParts entry.1 ≠ [])
    (hapart : entries.Pairwise fun left right => Apart (entryPath fold left.1) (entryPath fold right.1))
    (hfiles : ∀ file ∈ files, ∀ entry ∈ entries, Apart file.1 (entryPath fold entry.1)) :
    entries.foldlM (extractEntry fold none) (count, files) =
      .ok (count + entries.length,
        files ++ entries.map fun entry => (entryPath fold entry.1, entry.2)) := by
  induction entries generalizing count files with
  | nil => simp [pure, Except.pure]
  | cons entry entries ih =>
    obtain ⟨hfirst, hrest⟩ := pairwise_cons.mp hapart
    have hstep : extractEntry fold none (count, files) entry =
        .ok (count + 1, files ++ [(entryPath fold entry.1, entry.2)]) := by
      rw [extractEntry, unpackIn_new (hvalid entry mem_cons_self)
        (hne entry mem_cons_self) fun file hfile => hfiles file hfile entry mem_cons_self]
      rfl
    have hnext : ∀ file ∈ files ++ [(entryPath fold entry.1, entry.2)], ∀ other ∈ entries,
        Apart file.1 (entryPath fold other.1) := by
      intro file hfile other hother
      rcases mem_append.mp hfile with hold | hnew
      · exact hfiles file hold other (mem_cons_of_mem _ hother)
      · rw [mem_singleton.mp hnew]
        dsimp only
        exact hfirst other hother
    rw [foldlM_cons, hstep]
    refine (ih (forall_mem_cons.mp hvalid).2
      (forall_mem_cons.mp hne).2 hrest hnext).trans ?_
    simp [Nat.add_comm, Nat.add_left_comm]

theorem extract_tar {tar : List TarEntry}
    (hnamed : ∀ entry ∈ tar, (∀ part ∈ nameParts entry.name, ValidName part) ∧
      nameParts entry.name ≠ [])
    (hapart : tar.Pairwise (EntriesApart fold)) :
    extract fold none (tar.map fun entry => (entry.name, entry.data)) =
      .ok (tar.length, tar.map fun entry => (entryPath fold entry.name, entry.data)) := by
  have hpairs : (tar.map fun entry => (entry.name, entry.data)).Pairwise fun left right =>
      Apart (entryPath fold left.1) (entryPath fold right.1) := by
    rw [pairwise_map]
    exact hapart
  rw [extract, foldlM_extractEntry _ _ hpairs (by simp)]
  · simp
  · simpa using fun entry hentry => (hnamed entry hentry).1
  · simpa using fun entry hentry => (hnamed entry hentry).2

end Extraction

section Whole

variable {N F : Type} [DecidableEq N] {text : N → String} {patterns : List (String → Bool)}
  {readRoot : FsPath N → Option (FsPath N)} {access : TreeAccess N F}

theorem storedFrom_read {source : FsPath N} {entry : TarEntry}
    (hentry : entry ∈ storedFrom text patterns readRoot access source) :
    ∃ path file size, access.read path file = .opened size (.ok (entry.size, entry.data)) := by
  rcases mem_storedFrom hentry with ⟨_, _, -, -, hstored⟩ | ⟨_, -, hstored⟩
  · exact ⟨_, _, (storedFile_eq_some hstored).2⟩
  · exact ⟨_, _, (ArchiveEvent.stored_add hstored).2⟩

/-- No file changes its length while it is copied. -/
def FilesStill (access : TreeAccess N F) : Prop :=
  ∀ path file size header data,
    access.read path file = .opened size (.ok (header, data)) → header.toNat = data.length

section Ok

variable {sources : List (FsPath N)} {flush : Except AppendError Unit} {archive : Archive}

theorem writeTar_named (hvalid : ∀ name, ValidName (text name))
    (h : writeTar text patterns readRoot access sources flush = .ok archive) :
    ∀ entry ∈ archive.tar, (∀ part ∈ nameParts entry.name, ValidName part) ∧
      nameParts entry.name ≠ [] := by
  intro entry hentry
  rw [(writeTar_ok h).1] at hentry
  obtain ⟨source, -, hfrom⟩ := mem_flatMap.mp hentry
  obtain ⟨hparts, top, -, rest, hname⟩ := storedFrom_named hvalid hfrom
  exact ⟨hparts, hname ▸ cons_ne_nil top rest⟩

theorem writeTar_sizes (hstill : FilesStill access)
    (h : writeTar text patterns readRoot access sources flush = .ok archive) :
    ∀ entry ∈ archive.tar, entry.size.toNat = entry.data.length := by
  intro entry hentry
  rw [(writeTar_ok h).1] at hentry
  obtain ⟨source, -, hfrom⟩ := mem_flatMap.mp hentry
  obtain ⟨path, file, size, hread⟩ := storedFrom_read hfrom
  exact hstill _ _ _ _ _ hread

end Ok

end Whole

def FsPath.Nested {N : Type} (left right : FsPath N) : Prop :=
  left.root = right.root ∧ (left.parts <+: right.parts ∨ right.parts <+: left.parts)

def sampleFolder {N : Type} (name : N) (content : UInt8) : Node N UInt8 :=
  .folder (.cons name (.file content) .nil)

/-- A file system whose files are all readable. -/
def sampleTrees {N : Type} (root : FsPath N → Except String (Node N UInt8)) :
    TreeAccess N UInt8 where
  root := root
  listing _ := none
  read _ content := .opened (some 1) (.ok (1, [content]))

/-- `C:\a\data` and `C:\b\data`, each with a file `x.txt`. -/
def twoDataFolders : TreeAccess String UInt8 :=
  sampleTrees fun path =>
    if path.parts = ["a", "data"] then .ok (sampleFolder "x.txt" 1)
    else if path.parts = ["b", "data"] then .ok (sampleFolder "x.txt" 2)
    else .error "not found"

/-- The names of a small file system. -/
inductive SampleName
  | home | docs | data | report
  deriving DecidableEq

def SampleName.text : SampleName → String
  | home => "home"
  | docs => "docs"
  | data => "data"
  | report => "report.txt"

/-- `docs` and `data`, each with a file of the same name. -/
def docsAndData : TreeAccess SampleName UInt8 :=
  sampleTrees fun path =>
    if path.parts = [.home, .docs] then .ok (sampleFolder .report 1)
    else .ok (sampleFolder .report 2)

end PbsGui.Engine
