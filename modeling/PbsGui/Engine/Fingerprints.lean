import PbsGui.Engine.SkippedRuns

/-!
# What a fingerprint depends on, and when there is none

The bytes that `fingerprint` hashes stand for the files that were found, whatever the
order of the sources and of the entries in a folder.  It walks the folders that `write_tar`
walks, but fails where the archiver leaves out what it cannot read.
-/

namespace PbsGui.Engine

open Lib List

/-- The same files, with the entries of the folders in any order. -/
structure SameFiles {N : Type} (view view' : FileView N) : Prop where
  disk : ∀ path, Option.Rel Node.Reordered (view.disk path) (view'.disk path)
  rootFails : view.rootFails = view'.rootFails
  listing : view.listing = view'.listing
  metadata : view.metadata = view'.metadata

section Order

variable {N : Type} {platform : Platform N} {view view' : FileView N}

theorem SameFiles.symm (h : SameFiles view view') : SameFiles view' view where
  disk path := by
    have hdisk := h.disk path
    generalize view.disk path = here at hdisk ⊢
    generalize view'.disk path = there at hdisk ⊢
    cases hdisk with
    | none => exact .none
    | some hnode => exact .some hnode.symm
  rootFails := h.rootFails.symm
  listing := h.listing.symm
  metadata := h.metadata.symm

theorem gather_congr_perm {α β : Type} {visit visit' : α → Except String (List β)}
    (hvisit : ∀ item found, visit item = .ok found →
      ∃ more, visit' item = .ok more ∧ found.Perm more)
    {items : List α} {all : List β} (h : gather visit items = .ok all) :
    ∃ more, gather visit' items = .ok more ∧ all.Perm more := by
  induction items generalizing all with
  | nil => exact ⟨all, h, List.Perm.refl all⟩
  | cons item rest ih =>
    obtain ⟨found, later, hfirst, hlater, rfl⟩ := gather_cons_eq_ok.mp h
    obtain ⟨found', hfirst', hsame⟩ := hvisit item found hfirst
    obtain ⟨later', hlater', hsame'⟩ := ih hlater
    exact ⟨_, gather_cons_eq_ok.mpr ⟨found', later', hfirst', hlater', rfl⟩, hsame.append hsame'⟩

theorem foundAt_congr (h : view.metadata = view'.metadata) (patterns : List (String → Bool))
    (source : FsPath N) :
    foundAt platform view patterns source = foundAt platform view' patterns source := by
  funext item
  cases item with
  | error | nonFile => rfl
  | file => rw [foundAt, foundAt, h]

variable {found : List (String × StoredFile)}

theorem foundIn_reordered (h : SameFiles view view') {patterns : List (String → Bool)}
    {source : FsPath N} (hfound : foundIn platform view patterns source = .ok found) :
    ∃ more, foundIn platform view' patterns source = .ok more ∧ found.Perm more := by
  rw [foundIn, h.rootFails, h.metadata, h.listing, foundAt_congr h.metadata] at hfound
  rw [foundIn]
  cases hroot : view'.rootFails source with
  | true =>
    simp only [hroot, if_true] at hfound ⊢
    exact ⟨found, hfound, List.Perm.refl found⟩
  | false =>
    simp only [hroot, Bool.false_eq_true, if_false] at hfound ⊢
    have hdisk := h.disk source
    generalize view.disk source = here at hdisk hfound
    generalize view'.disk source = there at hdisk
    cases hdisk with
    | none => exact ⟨found, hfound, List.Perm.refl found⟩
    | some hnode =>
      cases hnode with
      | file | other => exact ⟨found, hfound, List.Perm.refl found⟩
      | folder hents => exact gather_perm (Node.Reordered.folder hents).walk_perm hfound

variable {job job' : FileJob N}

/-- The sources and their folders in another order give the same files in another order. -/
theorem foundFiles_reordered (h : SameFiles view view') (hsrcs : job.sources.Perm job'.sources)
    (hexcludes : job.excludes = job'.excludes) (hfound : foundFiles platform view job = .ok found) :
    ∃ more, foundFiles platform view' job' = .ok more ∧ found.Perm more := by
  have hpatterns : job.patterns platform = job'.patterns platform := by
    rw [FileJob.patterns, FileJob.patterns, hexcludes]
  rw [foundFiles, hpatterns] at hfound
  obtain ⟨middle, hmid, hsame⟩ :=
    gather_congr_perm (fun source here hhere => foundIn_reordered h hhere) hfound
  obtain ⟨more, hmore, hsame'⟩ := gather_perm hsrcs hmid
  exact ⟨more, hmore, hsame.trans hsame'⟩

variable {print : FixedBytes 32}

theorem fingerprint_eq_ok {job : FileJob N} :
    fingerprint platform view job = .ok print ↔
      ∃ found, foundFiles platform view job = .ok found ∧ hashFound platform found = print := by
  rw [fingerprint, except_bind_eq_ok]
  refine exists_congr fun found => and_congr_right fun _ => ?_
  exact ⟨fun h => Except.ok.inj h, fun h => congrArg Except.ok h⟩

theorem fingerprint_reordered (h : SameFiles view view') (hsrcs : job.sources.Perm job'.sources)
    (hexcludes : job.excludes = job'.excludes) (hprint : fingerprint platform view job = .ok print) :
    fingerprint platform view' job' = .ok print := by
  obtain ⟨found, hfound, rfl⟩ := fingerprint_eq_ok.mp hprint
  obtain ⟨more, hmore, hsame⟩ := foundFiles_reordered h hsrcs hexcludes hfound
  refine fingerprint_eq_ok.mpr ⟨more, hmore, ?_⟩
  rw [hashFound, hashFound, encodeItems_perm (hsame.map fileItem)]

/-- The hashed bytes tell listings apart that are not the same up to order.  Without a
collision so does the fingerprint, which is the same for the sources and their folders in
any order. -/
theorem hashed_eq_iff_perm (platform : Platform N) :
    (∀ items others : List FileItem, (∀ item ∈ items ++ others, NulFree item.path) →
      (encodeItems items = encodeItems others ↔ items.Perm others)) ∧
    (∀ (view view' : FileView N) (job job' : FileJob N) (found found' : List (String × StoredFile)),
      foundFiles platform view job = .ok found → foundFiles platform view' job' = .ok found' →
      (∀ file ∈ found ++ found', NulFree file.1) →
      (hashFound platform found = hashFound platform found' →
        encodeItems (found.map fileItem) = encodeItems (found'.map fileItem)) →
      (fingerprint platform view job = fingerprint platform view' job' ↔
        (found.map fileItem).Perm (found'.map fileItem))) ∧
    ∀ (view view' : FileView N) (job job' : FileJob N) (print : FixedBytes 32),
      SameFiles view view' → job.sources.Perm job'.sources → job.excludes = job'.excludes →
      (fingerprint platform view job = .ok print ↔
        fingerprint platform view' job' = .ok print) := by
  refine ⟨fun items others hnul => ?_, ?_, ?_⟩
  · exact encodeItems_eq_iff (forall_mem_append.mp hnul).1
      (forall_mem_append.mp hnul).2
  · intro view view' job job' found found' hfound hfound' hnul hcollision
    have hnuls : ∀ files, files ⊆ found ++ found' →
        ∀ item ∈ files.map fileItem, NulFree item.path := by
      intro files hfiles item hitem
      obtain ⟨file, hfile, rfl⟩ := mem_map.mp hitem
      exact hnul file (hfiles hfile)
    have hbytes := encodeItems_eq_iff (hnuls found (subset_append_left found found'))
      (hnuls found' (subset_append_right found found'))
    rw [fingerprint_eq_ok.mpr ⟨found, hfound, rfl⟩, fingerprint_eq_ok.mpr ⟨found', hfound', rfl⟩]
    constructor
    · exact fun h => hbytes.mp (hcollision (Except.ok.inj h))
    · intro hperm
      rw [hashFound, hashFound, encodeItems_perm hperm]
  · intro view view' job job' print hview hsources hexcludes
    exact ⟨fingerprint_reordered hview hsources hexcludes,
      fingerprint_reordered hview.symm hsources.symm hexcludes.symm⟩

end Order

def twoFiles (first second : String) : Node String StoredFile :=
  .folder (.cons first (.file ⟨[1], 5⟩) (.cons second (.file ⟨[1], 5⟩) .nil))

/-- A file system that has the tree at every path. -/
def treeView (tree : Node String StoredFile) : FileView String where
  disk _ := some tree
  rootFails _ := false
  listing _ := none
  metadata _ := none

/-- The job walks the folder in either order, and its fingerprint is the same. -/
theorem twoFiles_fingerprint :
    foundFiles samplePlatform (treeView (twoFiles "a" "b")) (dataJob "pbs1") =
        .ok [("C:/data/a", ⟨[1], 5⟩), ("C:/data/b", ⟨[1], 5⟩)] ∧
      foundFiles samplePlatform (treeView (twoFiles "b" "a")) (dataJob "pbs1") =
        .ok [("C:/data/b", ⟨[1], 5⟩), ("C:/data/a", ⟨[1], 5⟩)] ∧
      fingerprint samplePlatform (treeView (twoFiles "a" "b")) (dataJob "pbs1") =
        fingerprint samplePlatform (treeView (twoFiles "b" "a")) (dataJob "pbs1") := by
  have hperm : ([("C:/data/a", ⟨[1], 5⟩), ("C:/data/b", ⟨[1], 5⟩)] : List (String × StoredFile)).Perm
      [("C:/data/b", ⟨[1], 5⟩), ("C:/data/a", ⟨[1], 5⟩)] := .swap _ _ _
  refine ⟨rfl, rfl, ?_⟩
  exact ((hashed_eq_iff_perm samplePlatform).2.1 _ _ _ _ _ _ rfl rfl (by decide)
    fun _ => encodeItems_perm (hperm.map fileItem)).mpr (hperm.map fileItem)

/-! ### Runs that fail for want of a fingerprint -/

section Blocked

variable {N : Type} (platform : Platform N) (view : FileView N) (patterns : List (String → Bool))
  (source : FsPath N)

/-- Something that the fingerprint of a source needs cannot be read. -/
inductive Blocked : Prop
  /-- A folder that cannot be listed, whether it is excluded or not. -/
  | folder {entries : Entries N StoredFile} {below : List N} {reason : String}
      (hroot : view.rootFails source = false) (hdisk : view.disk source = some (.folder entries))
      (hwalk : WalkItem.error below reason ∈
        Node.walk (fun below => view.listing (source.join below)) (.folder entries))
  /-- A file whose metadata cannot be read. -/
  | file {entries : Entries N StoredFile} {below : List N} {file : StoredFile} {reason : String}
      (hroot : view.rootFails source = false) (hdisk : view.disk source = some (.folder entries))
      (hwalk : WalkItem.file below file ∈
        Node.walk (fun below => view.listing (source.join below)) (.folder entries))
      (hkept : excluded platform.text patterns (source.join below) = false)
      (hmetadata : view.metadata (source.join below) = some reason)
  /-- A source that is such a file. -/
  | source {file : StoredFile} {reason : String}
      (hroot : view.rootFails source = false) (hdisk : view.disk source = some (.file file))
      (hkept : excluded platform.text patterns source = false)
      (hmetadata : view.metadata source = some reason)

variable {platform view patterns source}

theorem foundAt_error_iff {item : WalkItem N StoredFile} :
    (∃ e, foundAt platform view patterns source item = .error e) ↔
      (∃ below reason, item = .error below reason) ∨
        ∃ below file reason, item = .file below file ∧
          excluded platform.text patterns (source.join below) = false ∧
          view.metadata (source.join below) = some reason := by
  cases item with
  | error | nonFile => simp [foundAt]
  | file below =>
    cases hkept : excluded platform.text patterns (source.join below) with
    | true => simp [foundAt, hkept]
    | false =>
      cases hmeta : view.metadata (source.join below) with
      | none | some => simp [foundAt, hkept, hmeta]

theorem foundIn_error_iff :
    (∃ e, foundIn platform view patterns source = .error e) ↔
      Blocked platform view patterns source := by
  constructor
  · intro h
    cases hroot : view.rootFails source with
    | true => simp [foundIn, hroot] at h
    | false =>
      cases hdisk : view.disk source with
      | none => simp [foundIn, hroot, hdisk] at h
      | some node =>
        cases node with
        | other => simp [foundIn, hroot, hdisk] at h
        | file =>
          simp only [foundIn, hroot, hdisk, Bool.false_eq_true, if_false] at h
          cases hkept : excluded platform.text patterns source with
          | true => simp [hkept] at h
          | false =>
            cases hmeta : view.metadata source with
            | none => simp [hkept, hmeta] at h
            | some => exact .source hroot hdisk hkept hmeta
        | folder =>
          simp only [foundIn, hroot, hdisk, Bool.false_eq_true, if_false] at h
          obtain ⟨item, hitem, hvisit⟩ := gather_error_iff.mp h
          rcases foundAt_error_iff.mp hvisit with
            ⟨below, reason, rfl⟩ | ⟨below, file, reason, rfl, hkept, hmeta⟩
          · exact .folder hroot hdisk hitem
          · exact .file hroot hdisk hitem hkept hmeta
  · intro h
    cases h with
    | folder hroot hdisk hwalk =>
      simp only [foundIn, hroot, hdisk, Bool.false_eq_true, if_false]
      exact gather_error_iff.mpr ⟨_, hwalk, foundAt_error_iff.mpr (.inl ⟨_, _, rfl⟩)⟩
    | file hroot hdisk hwalk hkept hmeta =>
      simp only [foundIn, hroot, hdisk, Bool.false_eq_true, if_false]
      exact gather_error_iff.mpr
        ⟨_, hwalk, foundAt_error_iff.mpr (.inr ⟨_, _, _, rfl, hkept, hmeta⟩)⟩
    | source hroot hdisk hkept hmeta => simp [foundIn, hroot, hdisk, hkept, hmeta]

theorem foundFiles_error_iff {job : FileJob N} :
    (∃ e, foundFiles platform view job = .error e) ↔
      ∃ source ∈ job.sources, Blocked platform view (job.patterns platform) source := by
  rw [foundFiles, gather_error_iff]
  exact exists_congr fun source => and_congr_right fun _ => foundIn_error_iff

end Blocked

section Detection

variable {N : Type} [DecidableEq N]

def FileJobState.detecting (state : FileJobState N) (on : Bool) : FileJobState N :=
  { state with job := { state.job with changeDetection := on } }

def RunFails (platform : Platform N) (state : FileJobState N) (env : RunEnv N) : Prop :=
  ∃ e, (runInner platform state env).1 = .error e

variable {platform : Platform N} {state : FileJobState N} {env : RunEnv N}

theorem runFails_off_iff :
    RunFails platform (state.detecting false) env ↔
      ∃ e, doFileBackup platform env state.job = .error e := by
  have hback : doFileBackup platform env (state.detecting false).job =
      doFileBackup platform env state.job := rfl
  have hdet : detectFiles platform env (state.detecting false).job = .ok none := rfl
  rw [RunFails, runInner, hdet]
  simp only [Option.isSome_none, Bool.false_eq_true, false_and, if_false, hback]
  cases doFileBackup platform env state.job <;> simp

theorem runFails_on_iff :
    RunFails platform (state.detecting true) env ↔
      (∃ source ∈ state.job.sources,
        Blocked platform env.view (state.job.patterns platform) source) ∨
      ∃ found, foundFiles platform env.view state.job = .ok found ∧
        load state.file ≠ some (hashFound platform found) ∧
        ∃ e, doFileBackup platform env state.job = .error e := by
  have hback : doFileBackup platform env (state.detecting true).job =
      doFileBackup platform env state.job := rfl
  have hdet : detectFiles platform env (state.detecting true).job =
      (foundFiles platform env.view state.job).map some := rfl
  have hfile : (state.detecting true).file = state.file := rfl
  rw [← foundFiles_error_iff, RunFails, runInner, hdet]
  cases hfound : foundFiles platform env.view state.job with
  | error => simp [Except.map]
  | ok found =>
    by_cases hsame : load state.file = some (hashFound platform found)
    · simp [Except.map, hsame, hfile]
    · cases hres : doFileBackup platform env state.job with
      | error | ok => simp [Except.map, hsame, hfile, hback, hres]

/-- A run with change detection fails only where it would fail without, exactly if every
source that blocks the fingerprint comes with a backup that fails as well. -/
theorem detection_fails_only_iff (platform : Platform N) (state : FileJobState N) (env : RunEnv N) :
    (RunFails platform (state.detecting true) env →
      RunFails platform (state.detecting false) env) ↔
    ((∃ source ∈ state.job.sources,
        Blocked platform env.view (state.job.patterns platform) source) →
      RunFails platform (state.detecting false) env) := by
  constructor
  · exact fun h hblocked => h (runFails_on_iff.mpr (.inl hblocked))
  · intro h hfails
    rcases runFails_on_iff.mp hfails with hblocked | ⟨found, -, -, hbackup⟩
    · exact h hblocked
    · exact runFails_off_iff.mpr hbackup

end Detection

def privateTree : Node String StoredFile :=
  .folder (.cons "private" (.folder .nil) (.cons "x.txt" (.file ⟨[7], 0⟩) .nil))

def privateListing (path : FsPath String) : Option String :=
  if path.parts = ["data", "private"] then some "access denied" else none

/-- A run over the tree; the fingerprint and the archiver find the same. -/
def privateRun : RunEnv String where
  view := {
    disk := fun _ => some privateTree
    rootFails := fun _ => false
    listing := privateListing
    metadata := fun _ => none }
  readRoot _ := none
  access := {
    root := fun _ => .ok privateTree
    listing := privateListing
    read := fun _ _ => readWell }
  flush := .ok ()
  warnings := []
  upload := .ok ()
  save := .written

/-- Without change detection the folder is skipped with a warning and the file is backed
up; with it nothing is. -/
theorem privateFolder_blocks :
    (runInner samplePlatform (FileJobState.detecting ⟨dataJob "pbs1", none, []⟩ false) privateRun).1 =
        .ok (.backedUp true) ∧
      archivedFiles samplePlatform privateRun (dataJob "pbs1") = [("C:/data/x.txt", [7])] ∧
      (runInner samplePlatform (FileJobState.detecting ⟨dataJob "pbs1", none, []⟩ true) privateRun).1 =
        .error "access denied" :=
  ⟨rfl, rfl, rfl⟩

end PbsGui.Engine
