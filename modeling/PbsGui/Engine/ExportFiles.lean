import PbsGui.Engine.ReplaySteps
import PbsGui.Lib.Bytes
import PbsGui.Lib.Disk

/-!
# Exports that run side by side

`download_sql_image_to_file` (`handler.rs`) looks whether its file exists, streams the snapshot
into a file with `.partial` behind its name and renames that into place.  `export_sql_full` does
so for one snapshot and `export_sql_chain` for each backup of a chain, with a file of
instructions at the end.

The model is a step relation over any number of requests on one disk, where each file
operation is a step and a request can stop after any of them.  As long as no two requests are at
work on the same file, what an export puts under a final name is the whole stream, and it
replaces nothing.  Two requests for the same snapshot can do both.
-/

namespace PbsGui.Engine.ExportFiles

open Lib Relation List Function

/-- How the file system compares names, letter by letter: as they are, or without regard to
case.  The last letters of the names that matter here stay apart. -/
structure NameFolding where
  fold : Char → Char
  apart : [fold 'k', fold 'n', fold 'l', fold 't'].Nodup

def NameFolding.key (names : NameFolding) (name : List Char) : List Char := name.map names.fold

def exactNames : NameFolding := ⟨id, by decide⟩

abbrev Location (Dir : Type*) := Dir × List Char

def IsExportName (name : List Char) : Prop :=
  ∃ stem, name = stem ++ ['.', 'b', 'a', 'k'] ∨ name = stem ++ ['.', 't', 'r', 'n']

/-- A backup to export: the name of its file, and the native stream of its snapshot. -/
structure ExportItem where
  name : List Char
  image : Bytes
  named : IsExportName name

/-- The instructions that go with a chain. -/
structure StepsFile where
  database : List Char
  text : Bytes

section Paths

variable {Dir : Type*} (names : NameFolding) (dir : Dir)

/-- `final_path` -/
def ExportItem.finalPath (item : ExportItem) : Location Dir := (dir, names.key item.name)

/-- `tmp_path` -/
def ExportItem.tmpPath (item : ExportItem) : Location Dir :=
  (dir, names.key (item.name ++ ".partial".toList))

def StepsFile.path (steps : StepsFile) : Location Dir :=
  (dir, names.key (sanitizeFilename steps.database ++ "-RESTORE-STEPS.txt".toList))

end Paths

/-! ### Requests -/

/-- What a request writes. -/
structure ExportRequest (Dir : Type*) where
  dir : Dir
  items : List ExportItem
  steps : Option StepsFile

/-- A full snapshot, under the name of `export_sql_full`. -/
def fullItem (database : List Char) (backupTime : Int) (image : Bytes) : ExportItem where
  name := sanitizeFilename database ++ '-' :: (fileStamp backupTime ++ ['.', 'b', 'a', 'k'])
  image := image
  named := ⟨sanitizeFilename database ++ '-' :: fileStamp backupTime, .inl (by simp)⟩

/-- Write one full snapshot's native stream to a `.bak`. -/
def exportSqlFull {Dir : Type*} (dir : Dir) (database : List Char) (backupTime : Int)
    (image : Bytes) : ExportRequest Dir where
  dir := dir
  items := [fullItem database backupTime image]
  steps := none

theorem isExportName_exportName (database : List Char) (place : Nat) (item : ChainItem) :
    IsExportName (exportName database place item) := by
  refine ⟨sanitizeFilename database ++ '-' :: (zeroFilled 2 (place + 1) ++ '-' ::
    ((if item.isLog then "LOG" else "FULL").toList ++ '-' :: fileStamp item.snapshotTime)), ?_⟩
  cases hlog : item.isLog <;> simp [exportName, hlog]

/-- Write the files of a chain, in the order of the restore, and the steps of a restore. -/
def exportSqlChain {Dir : Type*} (dir : Dir) (database : List Char) (chain : List ChainItem)
    (target : Int) (image : ChainItem → Bytes) : ExportRequest Dir where
  dir := dir
  items := chain.mapIdx fun place item =>
    ⟨exportName database place item, image item, isExportName_exportName database place item⟩
  steps := some ⟨database,
    (String.ofList (buildRestoreSteps database (exportFiles database chain) target)).toUTF8.data.toList⟩

/-- Where the download of a file stands. -/
inductive DownloadStage
  /-- Before the check that the file does not exist. -/
  | checking
  /-- Connecting to the server. -/
  | connecting
  /-- The partial file is open; `rest` has yet to reach it. -/
  | streaming (node offset : Nat) (rest : Bytes)
  /-- The download failed, and the partial file is closed. -/
  | removing
  /-- The partial file is whole and closed. -/
  | finalising

/-- A request at work: the files it has yet to write, the present one first. -/
structure Running (Dir : Type*) where
  dir : Dir
  items : List ExportItem
  steps : Option StepsFile
  stage : DownloadStage

def ExportRequest.start {Dir : Type*} (request : ExportRequest Dir) : Running Dir :=
  { dir := request.dir, items := request.items, steps := request.steps, stage := .checking }

/-- The disk and the requests. -/
structure Exports (Dir : Type*) where
  disk : Disk (Location Dir) UInt8
  requests : List (Running Dir)
  /-- The streams that exports have put under final names. -/
  placed : Location Dir → Option Bytes
  /-- An export has replaced a file under a final name. -/
  replaced : Bool

def Exports.start {Dir : Type*} (disk : Disk (Location Dir) UInt8) : Exports Dir :=
  { disk := disk, requests := [], placed := fun _ => none, replaced := false }

section Steps

variable {Dir : Type*} [DecidableEq Dir] (names : NameFolding) (unseen : Location Dir → Prop)

/-- A step of one of the requests.  `unseen` are the files whose metadata cannot be read:
`exists` says that they are not there. -/
inductive ExportStep (state : Exports Dir) : Exports Dir → Prop
  | started (request : ExportRequest Dir) :
      ExportStep state { state with requests := request.start :: state.requests }
  /-- The request ends: with an error, because it is done, or with the engine. -/
  | stopped {left right : List (Running Dir)} {run : Running Dir}
      (hrequests : state.requests = left ++ run :: right) :
      ExportStep state { state with requests := left ++ right }
  | checked {left right : List (Running Dir)} {run : Running Dir} {item : ExportItem}
      {rest : List ExportItem} (hrequests : state.requests = left ++ run :: right)
      (hitems : run.items = item :: rest) (hstage : run.stage = .checking)
      (hexists : state.disk.entry (item.finalPath names run.dir) = none ∨
        unseen (item.finalPath names run.dir)) :
      ExportStep state
        { state with requests := left ++ { run with stage := .connecting } :: right }
  | created {left right : List (Running Dir)} {run : Running Dir} {item : ExportItem}
      {rest : List ExportItem} (hrequests : state.requests = left ++ run :: right)
      (hitems : run.items = item :: rest) (hstage : run.stage = .connecting) :
      ExportStep state
        { state with
          disk := state.disk.create (item.tmpPath names run.dir)
          requests := left ++ { run with
            stage := .streaming (state.disk.nodeFor (item.tmpPath names run.dir)) 0 item.image
            } :: right }
  /-- Some of the stream reaches the file, through the pipeline and the buffer. -/
  | wrote {left right : List (Running Dir)} {run : Running Dir} {item : ExportItem}
      {items : List ExportItem} {node offset : Nat} (piece : Bytes) {rest : Bytes}
      (hrequests : state.requests = left ++ run :: right) (hitems : run.items = item :: items)
      (hstage : run.stage = .streaming node offset (piece ++ rest)) :
      ExportStep state
        { state with
          disk := state.disk.write node offset piece
          requests := left ++ { run with
            stage := .streaming node (offset + piece.length) rest } :: right }
  | streamed {left right : List (Running Dir)} {run : Running Dir} {item : ExportItem}
      {items : List ExportItem} {node offset : Nat}
      (hrequests : state.requests = left ++ run :: right) (hitems : run.items = item :: items)
      (hstage : run.stage = .streaming node offset []) :
      ExportStep state { state with requests := left ++ { run with stage := .finalising } :: right }
  /-- The stream or the flush fails. -/
  | failed {left right : List (Running Dir)} {run : Running Dir} {item : ExportItem}
      {items : List ExportItem} {node offset : Nat} {rest : Bytes}
      (hrequests : state.requests = left ++ run :: right) (hitems : run.items = item :: items)
      (hstage : run.stage = .streaming node offset rest) :
      ExportStep state { state with requests := left ++ { run with stage := .removing } :: right }
  | removed {left right : List (Running Dir)} {run : Running Dir} {item : ExportItem}
      {rest : List ExportItem} (hrequests : state.requests = left ++ run :: right)
      (hitems : run.items = item :: rest) (hstage : run.stage = .removing) :
      ExportStep state
        { state with
          disk := state.disk.remove (item.tmpPath names run.dir)
          requests := left ++ right }
  | renamed {left right : List (Running Dir)} {run : Running Dir} {item : ExportItem}
      {rest : List ExportItem} {disk : Disk (Location Dir) UInt8}
      (hrequests : state.requests = left ++ run :: right)
      (hitems : run.items = item :: rest) (hstage : run.stage = .finalising)
      (hrename : state.disk.rename (item.tmpPath names run.dir) (item.finalPath names run.dir) =
        some disk) :
      ExportStep state
        { disk := disk
          requests := left ++ { run with items := rest, stage := .checking } :: right
          placed := Function.update state.placed (item.finalPath names run.dir) (some item.image)
          replaced := state.replaced ||
            (state.disk.entry (item.finalPath names run.dir)).isSome }
  /-- `write_export_file` writes to a new file only, of which an error can leave a part. -/
  | stepsWritten {left right : List (Running Dir)} {run : Running Dir} {steps : StepsFile}
      {content : Bytes} (hrequests : state.requests = left ++ run :: right)
      (hitems : run.items = []) (hsteps : run.steps = some steps)
      (hnew : state.disk.entry (steps.path names run.dir) = none)
      (hcontent : content <+: steps.text) :
      ExportStep state
        { state with
          disk := (state.disk.create (steps.path names run.dir)).write
            (state.disk.nodeFor (steps.path names run.dir)) 0 content
          requests := left ++ right }

/-- The file a request is at work on, from the check to the end of the download. -/
def Running.busyAt (run : Running Dir) : Option (Location Dir) :=
  match run.items, run.stage with
  | _ :: _, .checking | [], _ => none
  | item :: _, _ => some (item.finalPath names run.dir)

/-- No two requests are at work on the same file. -/
def Exports.Exclusive (state : Exports Dir) : Prop :=
  (state.requests.filterMap (Running.busyAt names)).Nodup

/-- The runs in which no two requests are at work on the same file at once. -/
def ExclusiveReaches (disk : Disk (Location Dir) UInt8) : Exports Dir → Prop :=
  ReflTransGen (fun before after => ExportStep names unseen before after ∧ after.Exclusive names)
    (Exports.start disk)

end Steps

section Paths

variable {Dir : Type*} (names : NameFolding) (dir other : Dir)

theorem ne_of_last {path partner : Location Dir} {first second : Char}
    (hpath : path.2.getLast? = some first) (hpartner : partner.2.getLast? = some second)
    (hne : first ≠ second) : path ≠ partner := by
  rintro rfl
  exact hne (Option.some.inj (hpath.symm.trans hpartner))

theorem ExportItem.finalPath_last (item : ExportItem) :
    (item.finalPath names dir).2.getLast? = some (names.fold 'k') ∨
      (item.finalPath names dir).2.getLast? = some (names.fold 'n') := by
  obtain ⟨stem, hname | hname⟩ := item.named
  · exact Or.inl (by simp [finalPath, NameFolding.key, hname])
  · exact Or.inr (by simp [finalPath, NameFolding.key, hname])

theorem ExportItem.tmpPath_last (item : ExportItem) :
    (item.tmpPath names dir).2.getLast? = some (names.fold 'l') := by
  simp [tmpPath, NameFolding.key]

theorem StepsFile.path_last (steps : StepsFile) :
    (steps.path names dir).2.getLast? = some (names.fold 't') := by
  simp [path, NameFolding.key]

theorem NameFolding.last_ne :
    (names.fold 'k' ≠ names.fold 'l' ∧ names.fold 'k' ≠ names.fold 't') ∧
      (names.fold 'n' ≠ names.fold 'l' ∧ names.fold 'n' ≠ names.fold 't') ∧
      names.fold 'l' ≠ names.fold 't' := by
  have hapart := names.apart
  simp only [nodup_cons, mem_cons, not_mem_nil, or_false, not_or] at hapart
  exact ⟨hapart.1.2, hapart.2.1, hapart.2.2.1⟩

theorem ExportItem.finalPath_ne_tmpPath (item partner : ExportItem) :
    item.finalPath names dir ≠ partner.tmpPath names other := by
  rcases item.finalPath_last names dir with hlast | hlast
  · exact ne_of_last hlast (partner.tmpPath_last names other) names.last_ne.1.1
  · exact ne_of_last hlast (partner.tmpPath_last names other) names.last_ne.2.1.1

theorem ExportItem.finalPath_ne_path (item : ExportItem) (steps : StepsFile) :
    item.finalPath names dir ≠ steps.path names other := by
  rcases item.finalPath_last names dir with hlast | hlast
  · exact ne_of_last hlast (steps.path_last names other) names.last_ne.1.2
  · exact ne_of_last hlast (steps.path_last names other) names.last_ne.2.1.2

theorem ExportItem.tmpPath_ne_path (item : ExportItem) (steps : StepsFile) :
    item.tmpPath names dir ≠ steps.path names other :=
  ne_of_last (item.tmpPath_last names dir) (steps.path_last names other) names.last_ne.2.2

theorem ExportItem.finalPath_eq_of_tmpPath_eq {item partner : ExportItem}
    (h : item.tmpPath names dir = partner.tmpPath names other) :
    item.finalPath names dir = partner.finalPath names other := by
  obtain ⟨hdir, hkey⟩ := Prod.mk.inj h
  simp only [NameFolding.key, map_append] at hkey
  exact Prod.ext hdir (append_cancel_right hkey)

end Paths

section Invariant

variable {Dir : Type*} {names : NameFolding} {unseen : Location Dir → Prop}
  {state after : Exports Dir} {disk changed : Disk (Location Dir) UInt8} {run : Running Dir}
  {left right : List (Running Dir)} {item : ExportItem} {rest : List ExportItem}

/-- What a request can rely on: its file does not exist, and the partial file holds what it has
written. -/
def Running.Holds (names : NameFolding) (disk : Disk (Location Dir) UInt8) (run : Running Dir) :
    Prop :=
  match run.items, run.stage with
  | item :: _, .connecting => disk.entry (item.finalPath names run.dir) = none
  | item :: _, .streaming node offset rest =>
    disk.entry (item.finalPath names run.dir) = none ∧
      disk.entry (item.tmpPath names run.dir) = some node ∧
      offset = (disk.body node).length ∧ disk.body node ++ rest = item.image
  | item :: _, .finalising =>
    disk.entry (item.finalPath names run.dir) = none ∧
      disk.content (item.tmpPath names run.dir) = some item.image
  | _, _ => True

theorem Running.Holds.frame (h : run.Holds names disk) {touched : Set (Location Dir)}
    (hsame : Disk.SameBut touched disk changed)
    (hfree : ∀ item rest, run.items = item :: rest → run.busyAt names ≠ none →
      item.finalPath names run.dir ∉ touched ∧ item.tmpPath names run.dir ∉ touched) :
    run.Holds names changed := by
  obtain ⟨dir, items, steps, stage⟩ := run
  cases items with
  | nil => exact trivial
  | cons item rest =>
    cases stage with
    | checking | removing => exact trivial
    | connecting =>
      obtain ⟨hfinal, -⟩ := hfree item rest rfl nofun
      exact (hsame _ hfinal).1.trans h
    | streaming node =>
      obtain ⟨hfinal, htmp⟩ := hfree item rest rfl nofun
      obtain ⟨hnone, hnode, hoff, himage⟩ := h
      have hbody := (hsame _ htmp).2 node hnode
      refine ⟨(hsame _ hfinal).1.trans hnone, (hsame _ htmp).1.trans hnode, ?_, ?_⟩
      · rw [hbody]
        exact hoff
      · rw [hbody]
        exact himage
    | finalising =>
      obtain ⟨hfinal, htmp⟩ := hfree item rest rfl nofun
      exact ⟨(hsame _ hfinal).1.trans h.1, (hsame.content htmp).trans h.2⟩

theorem Exports.Exclusive.others (h : state.Exclusive names)
    (hreqs : state.requests = left ++ run :: right) {path : Location Dir}
    (hbusy : run.busyAt names = some path) :
    ∀ partner ∈ left ++ right, partner.busyAt names ≠ some path := by
  rw [Exports.Exclusive, hreqs, filterMap_append,
    filterMap_cons_some hbusy, nodup_middle, nodup_cons] at h
  intro partner hpartner hsame
  refine h.1 ?_
  rw [← filterMap_append]
  exact mem_filterMap.mpr ⟨partner, hpartner, hsame⟩

/-- What holds in every state. -/
structure Exports.Inv (names : NameFolding) (state : Exports Dir) : Prop where
  runs : ∀ run ∈ state.requests, run.Holds names state.disk
  placed : ∀ path image, state.placed path = some image →
    (∃ item dir, path = ExportItem.finalPath names dir item) ∧
      state.disk.content path = some image
  kept : state.replaced = false

/-- A request that changes nothing but its own two files leaves the others as they are. -/
theorem Exports.Inv.others (h : state.Inv names) (hexclusive : state.Exclusive names)
    (hreqs : state.requests = left ++ run :: right) (hitems : run.items = item :: rest)
    (hbusy : run.stage ≠ .checking)
    (hsame : Disk.SameBut {item.tmpPath names run.dir, item.finalPath names run.dir}
      state.disk changed) :
    ∀ partner ∈ left ++ right, partner.Holds names changed := by
  have hpath : run.busyAt names = some (item.finalPath names run.dir) := by
    obtain ⟨dir, items, steps, stage⟩ := run
    obtain rfl : items = item :: rest := hitems
    cases stage <;> first | rfl | exact absurd rfl hbusy
  intro partner hpartner
  have hmem : partner ∈ state.requests := hreqs ▸ Transition.mem_middle.mpr (.inr hpartner)
  refine (h.runs partner hmem).frame hsame fun own tail hown hat => ?_
  have hother : own.finalPath names partner.dir ≠ item.finalPath names run.dir := by
    intro heq
    refine hexclusive.others hreqs hpath partner hpartner ?_
    obtain ⟨dir, items, steps, stage⟩ := partner
    obtain rfl : items = own :: tail := hown
    rw [← heq]
    cases stage <;> first | rfl | exact absurd rfl hat
  simp only [Set.mem_insert_iff, Set.mem_singleton_iff, not_or]
  refine ⟨⟨own.finalPath_ne_tmpPath names _ _ item, hother⟩, fun heq => hother ?_, fun heq => ?_⟩
  · exact ExportItem.finalPath_eq_of_tmpPath_eq names _ _ heq
  · exact item.finalPath_ne_tmpPath names _ _ own heq.symm

theorem Exports.Inv.placed_of_sameBut (h : state.Inv names) {path : Location Dir}
    (hsame : Disk.SameBut {path} state.disk changed)
    (hpath : ∀ item dir, ExportItem.finalPath names dir item ≠ path) :
    ∀ path image, state.placed path = some image →
      (∃ item dir, path = ExportItem.finalPath names dir item) ∧
        changed.content path = some image := by
  intro place image hplaced
  obtain ⟨⟨item, dir, rfl⟩, hcont⟩ := h.placed place image hplaced
  exact ⟨⟨item, dir, rfl⟩, (hsame.content (hpath item dir)).trans hcont⟩

theorem Exports.Inv.split (h : state.Inv names) (hreqs : state.requests = left ++ run :: right) :
    run.Holds names state.disk ∧ ∀ partner ∈ left ++ right, partner.Holds names state.disk := by
  have hruns := h.runs
  rwa [hreqs, Transition.forall_mem_middle] at hruns

theorem Exports.Inv.step [DecidableEq Dir] (h : state.Inv names)
    (hexclusive : state.Exclusive names) (hseen : ∀ path, ¬ unseen path)
    (hstep : ExportStep names unseen state after) : after.Inv names := by
  cases hstep with
  | started request =>
    refine ⟨fun run hrun => ?_, h.placed, h.kept⟩
    rcases mem_cons.mp hrun with rfl | hold
    · unfold ExportRequest.start Running.Holds
      cases request.items <;> exact trivial
    · exact h.runs run hold
  | stopped hreqs => exact ⟨(h.split hreqs).2, h.placed, h.kept⟩
  | checked hreqs hitems hstage hex =>
    refine ⟨Transition.forall_mem_middle.mpr ⟨?_, (h.split hreqs).2⟩, h.placed, h.kept⟩
    simp only [Running.Holds, hitems]
    exact hex.resolve_right (hseen _)
  | @created left right run item rest hreqs hitems hstage =>
    have hsame := @Disk.create_sameBut _ _ state.disk (item.tmpPath names run.dir) _
    have hholds := (h.split hreqs).1
    simp only [Running.Holds, hitems, hstage] at hholds
    refine ⟨Transition.forall_mem_middle.mpr ⟨?_, h.others hexclusive hreqs hitems
      (by simp [hstage]) (hsame.mono (by simp))⟩, h.placed_of_sameBut hsame ?_, h.kept⟩
    · simp only [Running.Holds, hitems]
      refine ⟨?_, Disk.create_entry_self, ?_, ?_⟩
      · exact (hsame _ (item.finalPath_ne_tmpPath names _ _ item)).1.trans hholds
      · simp
      · simp
    · exact fun other dir => other.finalPath_ne_tmpPath names _ _ item
  | @wrote left right run item items node offset piece rest hreqs hitems hstage =>
    have hholds := (h.split hreqs).1
    simp only [Running.Holds, hitems, hstage] at hholds
    obtain ⟨hnone, hnode, hoff, himage⟩ := hholds
    have hsame := @Disk.write_sameBut _ _ state.disk _ _ offset _ piece hnode
    refine ⟨Transition.forall_mem_middle.mpr ⟨?_, h.others hexclusive hreqs hitems
      (by simp [hstage]) (hsame.mono (by simp))⟩, h.placed_of_sameBut hsame ?_, h.kept⟩
    · simp only [Running.Holds, hitems]
      rw [Disk.write_body_self, hoff, overwrite_length]
      refine ⟨hnone, hnode, by simp, ?_⟩
      rw [append_assoc]
      exact himage
    · exact fun other dir => other.finalPath_ne_tmpPath names _ _ item
  | @streamed left right run item items node offset hreqs hitems hstage =>
    have hholds := (h.split hreqs).1
    simp only [Running.Holds, hitems, hstage] at hholds
    obtain ⟨hnone, hnode, -, himage⟩ := hholds
    refine ⟨Transition.forall_mem_middle.mpr ⟨?_, (h.split hreqs).2⟩, h.placed, h.kept⟩
    simp only [Running.Holds, hitems]
    refine ⟨hnone, ?_⟩
    rw [Disk.content, hnode, ← himage, append_nil]
    rfl
  | failed hreqs hitems =>
    refine ⟨Transition.forall_mem_middle.mpr ⟨?_, (h.split hreqs).2⟩, h.placed, h.kept⟩
    simp only [Running.Holds, hitems]
  | @removed left right run item rest hreqs hitems hstage =>
    have hsame := @Disk.remove_sameBut _ _ state.disk (item.tmpPath names run.dir) _
    refine ⟨h.others hexclusive hreqs hitems (by simp [hstage]) (hsame.mono (by simp)),
      h.placed_of_sameBut hsame ?_, h.kept⟩
    exact fun other dir => other.finalPath_ne_tmpPath names _ _ item
  | @renamed left right run item rest disk hreqs hitems hstage hrename =>
    have hholds := (h.split hreqs).1
    simp only [Running.Holds, hitems, hstage] at hholds
    obtain ⟨hnone, hwhole⟩ := hholds
    obtain ⟨node, hnode, htarget, hbody, hsame⟩ := Disk.rename_eq_some hrename
    refine ⟨Transition.forall_mem_middle.mpr ⟨?_, h.others hexclusive hreqs hitems
      (by simp [hstage]) hsame⟩, fun path image hplaced => ?_, ?_⟩
    · unfold Running.Holds
      cases rest <;> exact trivial
    · replace hplaced : update state.placed (item.finalPath names run.dir)
        (some item.image) path = some image := hplaced
      by_cases hpath : path = item.finalPath names run.dir
      · rw [hpath, update_self] at hplaced
        refine ⟨⟨item, run.dir, hpath⟩, ?_⟩
        rw [hpath, Disk.content, htarget, hbody, ← hplaced, ← hwhole, Disk.content, hnode]
      · rw [update_of_ne hpath] at hplaced
        obtain ⟨⟨other, dir, rfl⟩, hcont⟩ := h.placed path image hplaced
        refine ⟨⟨other, dir, rfl⟩, (hsame.content ?_).trans hcont⟩
        simp only [Set.mem_insert_iff, Set.mem_singleton_iff, not_or]
        exact ⟨other.finalPath_ne_tmpPath names _ _ item, hpath⟩
    · rw [h.kept, hnone]
      rfl
  | @stepsWritten left right run steps content hreqs hitems hsteps hnew hcont =>
    have hcreate := @Disk.create_sameBut _ _ state.disk (steps.path names run.dir) _
    have hwrit := @Disk.write_sameBut _ _ (state.disk.create (steps.path names run.dir))
      (steps.path names run.dir) _ 0 _ content Disk.create_entry_self
    have hsame := hcreate.trans hwrit
    refine ⟨fun partner hpartner => ?_, h.placed_of_sameBut hsame ?_, h.kept⟩
    · refine ((h.split hreqs).2 partner hpartner).frame hsame fun own tail _ _ => ⟨?_, ?_⟩
      · exact own.finalPath_ne_path names _ _ steps
      · exact own.tmpPath_ne_path names _ _ steps
    · exact fun other dir => other.finalPath_ne_path names _ _ steps

end Invariant

/-- **Exports side by side.**  In every run of any number of requests, from any disk, in which
no two requests are at work on the same file at once and the files under the final names can be
looked at: what an export has put under a final name is there, with the whole stream of its
snapshot, and no export has replaced a file. -/
theorem exports_complete {Dir : Type*} [DecidableEq Dir] {names : NameFolding}
    {unseen : Location Dir → Prop} (hseen : ∀ path, ¬ unseen path)
    {disk : Disk (Location Dir) UInt8} {state : Exports Dir}
    (hrun : ExclusiveReaches names unseen disk state) :
    (∀ path image, state.placed path = some image → state.disk.content path = some image) ∧
      state.replaced = false := by
  have hinv : state.Inv names ∧ state.Exclusive names := by
    refine @Transition.invariant_of_reachable _ _
      (fun state : Exports Dir => state.Inv names ∧ state.Exclusive names) _ _ ⟨⟨?_, ?_, rfl⟩, ?_⟩
      (fun _ _ hbefore hstep => ⟨hbefore.1.step hbefore.2 hseen hstep.1, hstep.2⟩) hrun
    · exact nofun
    · exact nofun
    · exact nodup_nil
  exact ⟨fun path image hplaced => (hinv.1.placed path image hplaced).2, hinv.1.kept⟩


/-! ### One export, and two at once -/

section Samples

variable {Dir : Type*} (names : NameFolding) (unseen : Location Dir → Prop) (dir : Dir)
  (item : ExportItem)

def single (stage : DownloadStage) : Running Dir :=
  { dir := dir, items := [item], steps := none, stage := stage }

theorem exclusive_single {state : Exports Dir} {run : Running Dir} (h : state.requests = [run]) :
    state.Exclusive names := by
  rw [Exports.Exclusive, h]
  cases hbusy : run.busyAt names <;> simp [hbusy]

variable [DecidableEq Dir]

/-- The disk when the partial file has been written. -/
def written (disk : Disk (Location Dir) UInt8) : Disk (Location Dir) UInt8 :=
  (disk.create (item.tmpPath names dir)).write (disk.nodeFor (item.tmpPath names dir)) 0 item.image

variable {disk : Disk (Location Dir) UInt8}

theorem written_entry :
    (written names dir item disk).entry (item.tmpPath names dir) =
      some (disk.nodeFor (item.tmpPath names dir)) :=
  Disk.create_entry_self

theorem download_run {state : Exports Dir} {left right : List (Running Dir)}
    {allow : Exports Dir → Prop}
    (hallow : ∀ (state : Exports Dir) run, state.requests = left ++ run :: right → allow state)
    (hreqs : state.requests = left ++ single dir item .connecting :: right) :
    ReflTransGen (fun before after => ExportStep names unseen before after ∧ allow after) state
      { state with
        disk := written names dir item state.disk
        requests := left ++ single dir item .finalising :: right } := by
  have hstage : (single dir item (.streaming (state.disk.nodeFor (item.tmpPath names dir)) 0
      item.image)).stage =
        .streaming (state.disk.nodeFor (item.tmpPath names dir)) 0 (item.image ++ []) := by
    rw [append_nil]
    rfl
  exact .head ⟨.created hreqs rfl rfl, hallow _ _ rfl⟩ <|
    .head ⟨.wrote item.image rfl rfl hstage, hallow _ _ rfl⟩ <|
    .single ⟨@ExportStep.streamed _ _ names unseen _ left right (single dir item
      (.streaming (state.disk.nodeFor (item.tmpPath names dir)) (0 + item.image.length) []))
      item [] _ _ rfl rfl rfl, hallow _ _ rfl⟩

theorem single_export (hnone : disk.entry (item.finalPath names dir) = none) :
    ∃ state, ExclusiveReaches names unseen disk state ∧
      state.placed (item.finalPath names dir) = some item.image := by
  obtain ⟨after, hrename⟩ :=
    Disk.exists_rename (written_entry names dir item) (item.finalPath names dir)
  have hdown := @download_run _ names unseen dir item _
    { Exports.start disk with requests := [single dir item .connecting] } [] []
    (Exports.Exclusive names) (fun _ _ h => exclusive_single names h) rfl
  exact ⟨_,
    .head ⟨.started ⟨dir, [item], none⟩, exclusive_single names rfl⟩ <|
    .head ⟨@ExportStep.checked _ _ names unseen _ [] [] (single dir item .checking) item []
      rfl rfl rfl (.inl hnone), exclusive_single names rfl⟩ <|
    hdown.tail ⟨@ExportStep.renamed _ _ names unseen _ [] [] (single dir item .finalising)
      item [] after rfl rfl rfl hrename, exclusive_single names rfl⟩,
    update_self ..⟩

/-- Two requests for one file have both found that it does not exist. -/
def bothChecked : Exports Dir :=
  { Exports.start Disk.empty with
    requests := [single dir item .connecting, single dir item .connecting] }

theorem bothChecked_reached :
    ReflTransGen (ExportStep names unseen) (Exports.start Disk.empty) (bothChecked dir item) :=
  .head (.started ⟨dir, [item], none⟩) <|
  .head (.started ⟨dir, [item], none⟩) <|
  .head (@ExportStep.checked _ _ names unseen _ [] [single dir item .checking]
    (single dir item .checking) item [] rfl rfl rfl (.inl rfl)) <|
  .single (@ExportStep.checked _ _ names unseen _ [single dir item .connecting] []
    (single dir item .checking) item [] rfl rfl rfl (.inl rfl))

/-- The second request empties the partial file that the first is about to rename, and stops. -/
theorem truncated_export : ∃ state : Exports Dir,
    ReflTransGen (ExportStep names unseen) (Exports.start Disk.empty) state ∧
      state.placed (item.finalPath names dir) = some item.image ∧
      state.disk.content (item.finalPath names dir) = some [] := by
  have hfirst := @download_run _ names unseen dir item _ (bothChecked dir item)
    [single dir item .connecting] [] (fun _ => True) (fun _ _ _ => trivial) rfl
  let whole := written names dir item Disk.empty
  let emptied := whole.create (item.tmpPath names dir)
  have hentry : emptied.entry (item.tmpPath names dir) =
      some (whole.nodeFor (item.tmpPath names dir)) := Disk.create_entry_self
  obtain ⟨after, hrename⟩ := Disk.exists_rename hentry (item.finalPath names dir)
  obtain ⟨node, hnode, htarget, hbody, -⟩ := Disk.rename_eq_some hrename
  refine ⟨_, (bothChecked_reached names unseen dir item).trans <|
    (hfirst.lift id fun _ _ hstep => hstep.1).trans <|
    .head (@ExportStep.created _ _ names unseen _ [] [single dir item .finalising]
      (single dir item .connecting) item [] rfl rfl rfl) <|
    .head (@ExportStep.renamed _ _ names unseen _
      [single dir item (.streaming (whole.nodeFor (item.tmpPath names dir)) 0 item.image)] []
      (single dir item .finalising) item [] after rfl rfl rfl hrename) <|
    .single (@ExportStep.stopped _ _ names unseen _ [] _ _ rfl), update_self .., ?_⟩
  obtain rfl := Option.some.inj (hentry.symm.trans hnode)
  change (after.entry _).map after.body = some []
  rw [htarget, hbody]
  exact congrArg some Disk.create_body_self

/-- The second request downloads its file when the first is done, and renames it over the
first one's. -/
theorem replacing_export : ∃ state : Exports Dir,
    ReflTransGen (ExportStep names unseen) (Exports.start Disk.empty) state ∧
      state.placed (item.finalPath names dir) = some item.image ∧ state.replaced = true := by
  have hfirst := @download_run _ names unseen dir item _ (bothChecked dir item)
    [single dir item .connecting] [] (fun _ => True) (fun _ _ _ => trivial) rfl
  obtain ⟨placed, hplaced⟩ :=
    Disk.exists_rename (written_entry names dir item) (item.finalPath names dir)
  obtain ⟨node, -, htarget, -, -⟩ := Disk.rename_eq_some hplaced
  let done : Running Dir := { single dir item .checking with items := [] }
  let next : Exports Dir :=
    { disk := placed
      requests := [single dir item .connecting, done]
      placed := update (fun _ => none) (item.finalPath names dir) (some item.image)
      replaced := ((written names dir item Disk.empty).entry (item.finalPath names dir)).isSome }
  have hsnd := @download_run _ names unseen dir item _ next [] [done] (fun _ => True)
    (fun _ _ _ => trivial) rfl
  obtain ⟨after, hafter⟩ :=
    Disk.exists_rename (written_entry names dir item) (item.finalPath names dir)
  have hkept : (written names dir item placed).entry (item.finalPath names dir) = some node := by
    rw [← htarget]
    exact (Disk.create_sameBut _ (item.finalPath_ne_tmpPath names dir dir item)).1
  refine ⟨_, (bothChecked_reached names unseen dir item).trans <|
    (hfirst.lift id fun _ _ hstep => hstep.1).trans <|
    .head (@ExportStep.renamed _ _ names unseen _ [single dir item .connecting] []
      (single dir item .finalising) item [] placed rfl rfl rfl hplaced) <|
    (hsnd.lift id fun _ _ hstep => hstep.1).tail
    (@ExportStep.renamed _ _ names unseen _ [] [done] (single dir item .finalising) item []
      after rfl rfl rfl hafter), update_self .., ?_⟩
  change (next.replaced ||
    ((written names dir item placed).entry (item.finalPath names dir)).isSome) = true
  rw [hkept, Option.isSome_some, Bool.or_true]

end Samples

/-- A full backup of the database `sales`. -/
def salesItem : ExportItem := fullItem "sales".toList 1782266400 [97, 98]

/-- An export of one snapshot into an empty folder. -/
theorem salesExport_complete : ∃ state : Exports Unit,
    ExclusiveReaches exactNames (fun _ => False) Disk.empty state ∧
      state.disk.content (salesItem.finalPath exactNames ()) = some [97, 98] ∧
      state.replaced = false := by
  obtain ⟨state, hrun, hplaced⟩ :=
    @single_export Unit exactNames (fun _ => False) () salesItem _ Disk.empty rfl
  obtain ⟨hcomplete, hkept⟩ := exports_complete (fun _ => id) hrun
  exact ⟨state, hrun, hcomplete _ _ hplaced, hkept⟩

/-- Two exports of the same snapshot into the same folder, where nothing else happens: in one
run the file that is put under the final name is empty and stays so, in another the file of the
first export is replaced. -/
theorem concurrent_exports_clash :
    (∃ state : Exports Unit,
      ReflTransGen (ExportStep exactNames fun _ => False) (Exports.start Disk.empty) state ∧
        state.placed (salesItem.finalPath exactNames ()) = some [97, 98] ∧
        state.disk.content (salesItem.finalPath exactNames ()) = some []) ∧
    (∃ state : Exports Unit,
      ReflTransGen (ExportStep exactNames fun _ => False) (Exports.start Disk.empty) state ∧
        state.placed (salesItem.finalPath exactNames ()) = some [97, 98] ∧
        state.replaced = true) :=
  ⟨truncated_export exactNames (fun _ => False) () salesItem,
    replacing_export exactNames (fun _ => False) () salesItem⟩

end PbsGui.Engine.ExportFiles
