import PbsGui.Engine.TarListing

/-!
# Listing and restoring single files

A file backup stores, beside the tar, a catalog of the names and sizes in its report
(`start_archiver`).  `list_files` shows the catalog, or the tar if there is none, and the
paths chosen from it select the entries that `extract` unpacks.  For files that do not change
during the run the two lists are the same, so a chosen path stands for the same entries in
both.
-/

namespace PbsGui.Engine

open Lib List

/-- How the catalog is written and read (`serde_json`). -/
structure CatalogCodec where
  toVec : List FileInfo → Option Bytes
  fromSlice : Bytes → Option (List FileInfo)
  fromSlice_toVec : ∀ {files bytes}, toVec files = some bytes → fromSlice bytes = some files

/-- What a committed file backup holds: the archive and the blob `catalog.json.blob`. -/
structure FileSnapshot where
  archive : Bytes
  catalog : Option Bytes

def catalogOf (entries : List (String × UInt64)) : List FileInfo :=
  entries.map fun entry => ⟨entry.1, entry.2.toNat⟩

/-- The snapshot of a run; a run whose archive failed commits none. -/
def fileSnapshot (codec : CatalogCodec) (format : TarFormat) (result : Except AppendError Archive) :
    Option FileSnapshot :=
  match result with
  | .ok archive =>
    some
      { archive := tarBytes format archive.tar
        catalog := codec.toVec (catalogOf archive.entries) }
  | .error _ => none

/-- The files of a snapshot: those of the catalog blob if it was downloaded, otherwise
those of the archive. -/
def listFiles (codec : CatalogCodec) (format : TarFormat) (downloaded : Option Bytes)
    (snapshot : FileSnapshot) : Option (List FileInfo) :=
  match downloaded with
  | some bytes => codec.fromSlice bytes
  | none => listTar format snapshot.archive

def restoredMessage (count : Nat) : String := "restored " ++ toString count ++ " file(s)"

section Restore

variable {κ : Type} [DecidableEq κ] (fold : String → κ)

/-- Restore the chosen files, or all: the message, and the files in the destination; `none`
if the archive cannot be read. -/
def runRestore (format : TarFormat) (snapshot : FileSnapshot) (files : Option (List String)) :
    Option (Except String (String × List (List κ × Bytes))) :=
  (readTar format snapshot.archive).map fun entries =>
    (extract fold files entries).map fun (count, restored) => (restoredMessage count, restored)

variable {fold}

theorem extract_selected (chosen : List String) (entries : List (String × Bytes)) :
    extract fold (some chosen) entries =
      extract fold none (entries.filter fun entry => chosen.contains (slashes entry.1)) := by
  rw [extract, extract]
  generalize ((0, []) : Nat × List (List κ × Bytes)) = done
  induction entries generalizing done with
  | nil => rw [filter_nil, foldlM_nil, foldlM_nil]
  | cons entry later ih =>
    rw [foldlM_cons, filter_cons]
    split
    case isTrue hchosen =>
      have hstep : extractEntry fold (some chosen) done entry = extractEntry fold none done entry := by
        rw [extractEntry, extractEntry, Option.all_some, if_pos hchosen, Option.all_none, if_pos rfl]
      rw [foldlM_cons, hstep]
      exact congrArg _ (funext ih)
    case isFalse hother =>
      have hstep : extractEntry fold (some chosen) done entry = .ok done := by
        rw [extractEntry, Option.all_some, if_neg hother]
      rw [hstep]
      exact ih done

theorem unpackIn_unpacks {files : List (List κ × Bytes)} {name : String} {data : Bytes}
    {result : List (List κ × Bytes) × Bool} (hdots : ".." ∉ unpackParts name)
    (h : unpackIn fold files name data = .ok result) : result.2 = true := by
  rw [unpackIn, if_neg hdots] at h
  split at h
  · cases h
    rfl
  · cases hput : putFile files name ((unpackParts name).map fold) data with
    | error =>
      rw [hput] at h
      cases h
    | ok =>
      rw [hput] at h
      cases h
      rfl

theorem extractEntry_counts {entry : String × Bytes}
    (hvalid : ∀ part ∈ nameParts entry.1, ValidName part) {done next : Nat × List (List κ × Bytes)}
    (h : extractEntry fold none done entry = .ok next) : next.1 = done.1 + 1 := by
  have hdots : ".." ∉ unpackParts entry.1 := by
    rw [unpackParts_of_valid hvalid]
    exact fun hmem => (hvalid _ hmem).ne_dots rfl
  rw [extractEntry, Option.all_none, if_pos rfl] at h
  cases hunpack : unpackIn fold done.2 entry.1 entry.2 with
  | error =>
    rw [hunpack] at h
    cases h
  | ok =>
    rw [hunpack] at h
    cases h
    dsimp only
    rw [if_pos (unpackIn_unpacks hdots hunpack)]

theorem foldlM_extractEntry_counts {entries : List (String × Bytes)}
    (hvalid : ∀ entry ∈ entries, ∀ part ∈ nameParts entry.1, ValidName part)
    {done result : Nat × List (List κ × Bytes)}
    (h : entries.foldlM (extractEntry fold none) done = .ok result) :
    result.1 = done.1 + entries.length := by
  induction entries generalizing done with
  | nil =>
    cases h
    rfl
  | cons entry later ih =>
    rw [foldlM_cons] at h
    cases hnext : extractEntry fold none done entry with
    | error =>
      rw [hnext] at h
      cases h
    | ok =>
      rw [hnext] at h
      rw [ih (forall_mem_cons.mp hvalid).2 h,
        extractEntry_counts (hvalid entry mem_cons_self) hnext, length_cons,
        Nat.add_assoc, Nat.add_comm 1]

end Restore

/-! ### Static trees -/

section Static

variable {N F : Type} [DecidableEq N] {text : N → String} {patterns : List (String → Bool)}
  {readRoot : FsPath N → Option (FsPath N)} {access : TreeAccess N F} {sources : List (FsPath N)}
  {flush : Except AppendError Unit} {archive : Archive}

/-- The size of a file that is opened, the size in its header and the length of what is
copied are the same. -/
def FilesStatic (access : TreeAccess N F) : Prop :=
  ∀ path file size header data,
    access.read path file = .opened size (.ok (header, data)) →
      size = some header ∧ header.toNat = data.length

omit [DecidableEq N] in
theorem FilesStatic.still (h : FilesStatic access) : FilesStill access :=
  fun path file size header data hread => (h path file size header data hread).2

theorem read_of_mem_sourceEvents {source live : FsPath N} {name : String} {read : FileRead}
    (h : ArchiveEvent.add live name read ∈ sourceEvents text patterns readRoot access source) :
    ∃ path file, read = access.read path file := by
  rw [sourceEvents] at h
  split at h
  case h_1 => cases mem_singleton.mp h
  case h_2 entries hroot =>
    obtain ⟨item, -, hitem⟩ := mem_flatMap.mp h
    cases item with
    | error => cases mem_singleton.mp hitem
    | nonFile => cases hitem
    | file =>
      simp only [walkEvent] at hitem
      split at hitem
      · cases hitem
      · cases mem_singleton.mp hitem
        exact ⟨_, _, rfl⟩
  case h_3 file hroot =>
    split at h
    · cases h
    · cases mem_singleton.mp h
      exact ⟨_, _, rfl⟩
  case h_4 => cases h

theorem entries_eq_tar (hstatic : FilesStatic access)
    (h : writeTar text patterns readRoot access sources flush = .ok archive) :
    archive.entries = archive.tar.map fun entry => (entry.name, entry.size) := by
  obtain ⟨-, -, rfl⟩ := writeTar_eq_ok_iff.mp h
  simp only [Archive.extend, nil_append]
  rw [map_filterMap]
  refine filterMap_congr fun event hevent => ?_
  obtain ⟨source, -, hsrc⟩ := mem_flatMap.mp hevent
  cases event with
  | skip => rfl
  | add live name read =>
    obtain ⟨path, file, hread⟩ := read_of_mem_sourceEvents hsrc
    cases read with
    | cloudOnly | openFailed => rfl
    | opened size append =>
      cases append with
      | error => rfl
      | ok copied =>
        have hsize := (hstatic path file size copied.1 copied.2 hread.symm).1
        subst hsize
        rfl

theorem read_snapshot {format : TarFormat} (hstatic : FilesStatic access)
    (h : writeTar text patterns readRoot access sources flush = .ok archive)
    (hwr : Writable format archive.tar) :
    readTar format (tarBytes format archive.tar) =
      some (archive.tar.map fun entry => (entry.name, entry.data)) :=
  readTar_tarBytes hwr (writeTar_sizes hstatic.still h)

theorem slashes_of_mem_tar (hvalid : ∀ name, ValidName (text name))
    (h : writeTar text patterns readRoot access sources flush = .ok archive) {entry : TarEntry}
    (hentry : entry ∈ archive.tar) : slashes entry.name = entry.name := by
  rw [(writeTar_ok h).1] at hentry
  obtain ⟨source, -, hfrom⟩ := mem_flatMap.mp hentry
  exact storedFrom_slashes (fun name => (hvalid name).no_backslash) hfrom

theorem list_snapshot {format : TarFormat} (hvalid : ∀ name, ValidName (text name))
    (hstatic : FilesStatic access)
    (h : writeTar text patterns readRoot access sources flush = .ok archive)
    (hwr : Writable format archive.tar) :
    listTar format (tarBytes format archive.tar) = some (catalogOf archive.entries) := by
  have hstep : ∀ entry ∈ archive.tar, entry.InStep := by
    intro entry hentry
    rw [TarEntry.InStep, writeTar_sizes hstatic.still h entry hentry]
  rw [listTar_tarBytes hwr hstep, catalogOf, entries_eq_tar hstatic h, map_map]
  refine congrArg some (map_congr_left fun entry hentry => ?_)
  rw [slashes_of_mem_tar hvalid h hentry]
  rfl

theorem extract_chosen {κ : Type} [DecidableEq κ] {fold : String → κ} {source : FsPath N}
    (hvalid : ∀ name, ValidName (text name))
    (hkeys : ∀ node, access.root ((readRoot source).getD source) = .ok node →
      node.KeysApart fun name => fold (text name))
    (h : writeTar text patterns readRoot access [source] flush = .ok archive)
    (choose : TarEntry → Bool) :
    extract fold none ((archive.tar.filter choose).map fun entry => (entry.name, entry.data)) =
      .ok ((archive.tar.filter choose).length,
        (archive.tar.filter choose).map fun entry => (entryPath fold entry.name, entry.data)) := by
  have hapart : archive.tar.Pairwise (EntriesApart fold) := by
    rw [(writeTar_ok h).1, flatMap_singleton]
    exact storedFrom_apart hvalid hkeys
  refine extract_tar (fun entry hentry => ?_) (hapart.sublist filter_sublist)
  exact writeTar_named hvalid h entry (mem_of_mem_filter hentry)

/-- The catalog and the archive of a committed backup list the same files, and chosen paths
restore the entries of the archive with these paths: a restore is that of these entries
alone, what it reports is their number, and for a tree whose names the destination keeps
apart it is done, with each entry at its own path and nothing else. -/
theorem catalog_selects {κ : Type} [DecidableEq κ] {fold : String → κ} {codec : CatalogCodec}
    {format : TarFormat} {snapshot : FileSnapshot} (hvalid : ∀ name, ValidName (text name))
    (hstatic : FilesStatic access)
    (hwritable : ∀ archive, writeTar text patterns readRoot access sources flush = .ok archive →
      Writable format archive.tar)
    (h : fileSnapshot codec format (writeTar text patterns readRoot access sources flush) =
      some snapshot) :
    ∃ files entries,
      (∀ blob, snapshot.catalog = some blob →
        listFiles codec format (some blob) snapshot = some files) ∧
      listFiles codec format none snapshot = some files ∧
      readTar format snapshot.archive = some entries ∧
      entries.map Prod.fst = files.map FileInfo.path ∧
      ∀ chosen : List String,
        let selected := entries.filter fun entry => chosen.contains entry.1
        runRestore fold format snapshot (some chosen) =
            some ((extract fold none selected).map fun (count, restored) =>
              (restoredMessage count, restored)) ∧
          (∀ message restored,
            runRestore fold format snapshot (some chosen) = some (.ok (message, restored)) →
              message = restoredMessage selected.length) ∧
          ∀ source, sources = [source] →
            (∀ node, access.root ((readRoot source).getD source) = .ok node →
              node.KeysApart fun name => fold (text name)) →
            runRestore fold format snapshot (some chosen) =
              some (.ok (restoredMessage selected.length,
                selected.map fun entry => (entryPath fold entry.1, entry.2))) := by
  cases hrun : writeTar text patterns readRoot access sources flush with
  | error =>
    rw [hrun] at h
    cases h
  | ok archive =>
    rw [hrun] at h
    cases h
    have hwritten := hwritable archive hrun
    have hread := read_snapshot hstatic hrun hwritten
    have hnamed := writeTar_named hvalid hrun
    have hsame : ∀ chosen : List String,
        ((archive.tar.map fun entry => (entry.name, entry.data)).filter fun entry =>
            chosen.contains (slashes entry.1)) =
          (archive.tar.map fun entry => (entry.name, entry.data)).filter fun entry =>
            chosen.contains entry.1 := by
      intro chosen
      refine filter_congr fun entry hentry => ?_
      obtain ⟨stored, hstored, rfl⟩ := mem_map.mp hentry
      rw [slashes_of_mem_tar hvalid hrun hstored]
    refine ⟨catalogOf archive.entries, _, fun blob hblob => codec.fromSlice_toVec hblob,
      list_snapshot hvalid hstatic hrun hwritten, hread, ?_, fun chosen => ?_⟩
    · rw [catalogOf, entries_eq_tar hstatic hrun]
      simp
    have hrestore : runRestore fold format
        { archive := tarBytes format archive.tar
          catalog := codec.toVec (catalogOf archive.entries) } (some chosen) =
        some ((extract fold none ((archive.tar.map fun entry => (entry.name, entry.data)).filter
          fun entry => chosen.contains entry.1)).map fun (count, restored) =>
            (restoredMessage count, restored)) := by
      rw [runRestore, hread, Option.map_some, extract_selected, hsame]
    refine ⟨hrestore, ?_, ?_⟩
    · intro message restored hdone
      rw [hrestore] at hdone
      have hparts : ∀ entry ∈ (archive.tar.map fun entry => (entry.name, entry.data)).filter
          (fun entry => chosen.contains entry.1), ∀ part ∈ nameParts entry.1, ValidName part := by
        intro entry hentry
        obtain ⟨stored, hstored, rfl⟩ := mem_map.mp (mem_of_mem_filter hentry)
        exact (hnamed stored hstored).1
      cases hextract : extract fold none ((archive.tar.map fun entry =>
          (entry.name, entry.data)).filter fun entry => chosen.contains entry.1) with
      | error =>
        rw [hextract] at hdone
        cases hdone
      | ok =>
        rw [hextract] at hdone
        cases hdone
        rw [foldlM_extractEntry_counts hparts hextract, Nat.zero_add]
    · intro source hsource hkeys
      subst hsource
      rw [hrestore, filter_map, extract_chosen hvalid hkeys hrun, length_map, map_map]
      rfl

end Static

def smallFiles : TreeAccess DataName UInt8 :=
  sampleTrees fun _ => .ok (.folder (.cons .a (.file 7) (.cons .b (.file 8) .nil)))

def smallCatalog : List FileInfo := [⟨"data/a", 1⟩, ⟨"data/b", 1⟩]

def smallCodec : CatalogCodec where
  toVec files := if files = smallCatalog then some [1] else none
  fromSlice bytes := if bytes = [1] then some smallCatalog else none
  fromSlice_toVec {files bytes} h := by
    split at h
    · cases h
      rw [if_pos rfl, ‹files = smallCatalog›]
    · cases h

/-- The catalog lists both files, and one of them is restored. -/
theorem oneFile_restored :
    let snapshot : FileSnapshot :=
      { archive := tarBytes sampleTarFormat (growingArchive (1, [7]) (1, [8])).tar
        catalog := some [1] }
    listFiles smallCodec sampleTarFormat (some [1]) snapshot = some smallCatalog ∧
      runRestore id sampleTarFormat snapshot (some ["data/b"]) =
        some (.ok (restoredMessage 1, [(entryPath id "data/b", [8])])) := by
  intro snapshot
  have hvalid : ∀ name : DataName, ValidName name.text := by
    intro name
    cases name <;> exact ⟨by decide, by decide, by decide, by decide, by decide⟩
  have hstatic : FilesStatic smallFiles := by
    intro path file size header data hread
    cases hread
    exact ⟨rfl, rfl⟩
  have hrun : writeTar DataName.text [] (fun _ => none) smallFiles [⟨"C:\\", [.data]⟩] (.ok ()) =
      .ok (growingArchive (1, [7]) (1, [8])) := rfl
  have hwritable : ∀ archive, writeTar DataName.text [] (fun _ => none) smallFiles
      [⟨"C:\\", [.data]⟩] (.ok ()) = .ok archive → Writable sampleTarFormat archive.tar := by
    intro archive harchive
    cases hrun.symm.trans harchive
    exact growingArchive_writable _ _
  have hkeys : ∀ node, smallFiles.root ⟨"C:\\", [.data]⟩ = .ok node →
      node.KeysApart fun name => id name.text := by
    rintro node ⟨⟩
    exact ⟨by decide, trivial, trivial, trivial⟩
  obtain ⟨files, entries, hcatalog, -, hread, -, hchosen⟩ :=
    @catalog_selects _ _ _ DataName.text [] (fun _ => none) smallFiles [⟨"C:\\", [.data]⟩] (.ok ())
      _ _ id smallCodec sampleTarFormat snapshot hvalid hstatic hwritable rfl
  have hentries : entries = [("data/a", [7]), ("data/b", [8])] :=
    Option.some.inj (hread.symm.trans (read_snapshot hstatic hrun (hwritable _ hrun)))
  refine ⟨rfl, ?_⟩
  rw [(hchosen ["data/b"]).2.2 _ rfl hkeys, hentries]
  rfl

end PbsGui.Engine
