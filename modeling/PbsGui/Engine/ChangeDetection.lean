import Mathlib.Algebra.Order.Group.Int
import Mathlib.Data.List.Lex
import Mathlib.Data.Prod.Lex
import PbsGui.Engine.Archive
import PbsGui.Ipc.Protocol
import PbsGui.Lib.EventRuns
import PbsGui.Lib.Selection

/-!
# Change detection

`changedet.rs` makes a fingerprint of a job's sources: the SHA-256 of the sorted paths,
sizes and modification seconds of their files.  A run is skipped if it finds the fingerprint
of the last successful backup again.  The bytes that are hashed determine the files they were
made of.
-/

namespace PbsGui.Engine

open Lib List

/-- A file on disk, with its modification time in seconds. -/
structure StoredFile where
  content : Bytes
  mtime : Int64
  deriving DecidableEq

def StoredFile.size (file : StoredFile) : UInt64 := UInt64.ofNat file.content.length

/-- One record of the fingerprint. -/
structure FileItem where
  path : String
  size : UInt64
  mtime : Int64
  deriving DecidableEq

def fileItem (found : String × StoredFile) : FileItem := ⟨found.1, found.2.size, found.2.mtime⟩

/-- `as_bytes` -/
def pathBytes (path : String) : Bytes := path.toList.flatMap String.utf8EncodeChar

/-- The order of the records (`items.sort()`). -/
def itemKey (item : FileItem) : List Nat ×ₗ Nat ×ₗ Int :=
  toLex ((pathBytes item.path).map UInt8.toNat, toLex (item.size.toNat, item.mtime.toInt))

def encodeItem (item : FileItem) : Bytes :=
  pathBytes item.path ++ 0 :: (u64ToLe item.size ++ u64ToLe item.mtime.toUInt64)

def encodeItems (items : List FileItem) : Bytes := (sortByKey itemKey items).flatMap encodeItem

def NulFree (path : String) : Prop := '\x00' ∉ path.toList

instance : DecidablePred NulFree := fun path => inferInstanceAs (Decidable ('\x00' ∉ path.toList))

theorem eq_nul_of_zero_mem {c : Char} (h : 0 ∈ String.utf8EncodeChar c) : c = '\x00' := by
  have hbyte : ∀ n : Nat, 0 = UInt8.ofNat n → n % 256 = 0 := by
    intro n hn
    have := congrArg UInt8.toNat hn
    rw [UInt8.toNat_ofNat'] at this
    exact this.symm
  rw [String.utf8EncodeChar] at h
  split at h
  · have hvalue := hbyte _ (mem_singleton.mp h)
    apply Char.ext
    apply UInt32.toNat_inj.mp
    show c.val.toNat = 0
    omega
  · -- the bytes of a longer encoding are at least 128
    exfalso
    split at h
    · simp only [mem_cons, not_mem_nil, or_false] at h
      rcases h with h | h <;> have := hbyte _ h <;> omega
    · split at h
      · simp only [mem_cons, not_mem_nil, or_false] at h
        rcases h with h | h | h <;> have := hbyte _ h <;> omega
      · simp only [mem_cons, not_mem_nil, or_false] at h
        rcases h with h | h | h | h <;> have := hbyte _ h <;> omega

theorem zero_notMem_pathBytes {path : String} (h : NulFree path) : 0 ∉ pathBytes path := by
  intro hmem
  obtain ⟨c, hc, hzero⟩ := mem_flatMap.mp hmem
  exact h (eq_nul_of_zero_mem hzero ▸ hc)

theorem pathBytes_injective : Function.Injective pathBytes := by
  intro left right h
  rw [← String.toByteArray_inj, ← String.utf8Encode_toList, ← String.utf8Encode_toList]
  exact congrArg toByteArray h

theorem itemKey_injective : Function.Injective itemKey := by
  rintro ⟨path, size, mtime⟩ ⟨path', size', mtime'⟩ h
  simp only [itemKey, EmbeddingLike.apply_eq_iff_eq, Prod.mk.injEq] at h
  obtain ⟨hpath, hsize, hmtime⟩ := h
  have hbytes : pathBytes path = pathBytes path' :=
    map_injective_iff.mpr (fun _ _ => UInt8.toNat_inj.mp) hpath
  rw [pathBytes_injective hbytes, UInt64.toNat_inj.mp hsize, Int64.toInt_inj.mp hmtime]

theorem encodeItem_append_inj {left right : FileItem} {rest more : Bytes}
    (hleft : NulFree left.path) (hright : NulFree right.path)
    (h : encodeItem left ++ rest = encodeItem right ++ more) : left = right ∧ rest = more := by
  simp only [encodeItem, append_assoc, cons_append] at h
  obtain ⟨hpath, hfields⟩ :=
    append_separator_inj (zero_notMem_pathBytes hleft) (zero_notMem_pathBytes hright) h
  obtain ⟨hsize, hfields⟩ := append_inj hfields (by simp)
  obtain ⟨hmtime, hrest⟩ := append_inj hfields (by simp)
  refine ⟨?_, hrest⟩
  obtain ⟨path, size, ⟨mtime⟩⟩ := left
  obtain ⟨path', size', ⟨mtime'⟩⟩ := right
  obtain rfl : path = path' := pathBytes_injective hpath
  obtain rfl : size = size' := u64ToLe_injective hsize
  obtain rfl : mtime = mtime' := u64ToLe_injective hmtime
  rfl

variable {items others : List FileItem}

theorem flatMap_encodeItem_inj (hitems : ∀ item ∈ items, NulFree item.path)
    (hothers : ∀ item ∈ others, NulFree item.path)
    (h : items.flatMap encodeItem = others.flatMap encodeItem) : items = others := by
  have hnonempty : ∀ item rest, encodeItem item ++ rest ≠ [] := by
    intro item rest hnil
    simp [encodeItem] at hnil
  induction items generalizing others with
  | nil =>
    cases others with
    | nil => rfl
    | cons other => exact absurd h.symm (hnonempty other _)
  | cons item items ih =>
    cases others with
    | nil => exact absurd h (hnonempty item _)
    | cons other =>
      obtain ⟨hfirst, hrest⟩ := encodeItem_append_inj (hitems item mem_cons_self)
        (hothers other mem_cons_self) h
      rw [hfirst, ih (forall_mem_cons.mp hitems).2 (forall_mem_cons.mp hothers).2 hrest]

theorem sortByKey_itemKey_perm (items : List FileItem) : (sortByKey itemKey items).Perm items :=
  perm_insertionSort _ items

theorem encodeItems_perm (h : items.Perm others) : encodeItems items = encodeItems others := by
  have hsort := (sortByKey_itemKey_perm items).trans
    (h.trans (sortByKey_itemKey_perm others).symm)
  rw [encodeItems, encodeItems, List.Perm.eq_of_pairwise _ sortByKey_pairwise sortByKey_pairwise
    hsort]
  intro left right _ _ hle hge
  exact itemKey_injective (le_antisymm hle hge)

theorem encodeItems_eq_iff (hitems : ∀ item ∈ items, NulFree item.path)
    (hothers : ∀ item ∈ others, NulFree item.path) :
    encodeItems items = encodeItems others ↔ items.Perm others := by
  constructor
  · intro h
    have hsort := flatMap_encodeItem_inj (fun item hitem => hitems item (mem_sortByKey.mp hitem))
      (fun item hitem => hothers item (mem_sortByKey.mp hitem)) h
    exact (sortByKey_itemKey_perm items).symm.trans (hsort ▸ sortByKey_itemKey_perm others)
  · exact encodeItems_perm

/-! ### The files of a job -/

/-- A job with a files source; a source's string is the text of its path. -/
structure FileJob (N : Type) where
  sources : List (FsPath N)
  excludes : List String
  changeDetection : Bool
  destination : Ipc.JobDestination

/-- The file system while a fingerprint is made: what is there, and what cannot be read. -/
structure FileView (N : Type) where
  disk : FsPath N → Option (Node N StoredFile)
  /-- Whether `is_dir` and `is_file` fail to see what is at a path. -/
  rootFails : FsPath N → Bool
  /-- Why a folder cannot be listed. -/
  listing : FsPath N → Option String
  /-- Why the metadata of a file cannot be read. -/
  metadata : FsPath N → Option String

/-- What the engine's libraries and the platform do. -/
structure Platform (N : Type) where
  /-- `to_string_lossy` of a name -/
  text : N → String
  /-- `Pattern::new(e).ok()` -/
  compile : String → Option (String → Bool)
  /-- SHA-256 -/
  hash : Bytes → FixedBytes 32

/-- A loop whose body pushes what it finds, or returns an error. -/
def gather {α β : Type} (visit : α → Except String (List β)) : List α → Except String (List β)
  | [] => .ok []
  | item :: rest => do
    let found ← visit item
    let more ← gather visit rest
    return found ++ more

variable {α β : Type} {visit : α → Except String (List β)}

theorem gather_cons_eq_ok {item : α} {rest : List α} {all : List β} :
    gather visit (item :: rest) = .ok all ↔ ∃ found later,
      visit item = .ok found ∧ gather visit rest = .ok later ∧ found ++ later = all := by
  rw [gather]
  cases visit item with
  | error => simp [bind, Except.bind]
  | ok => cases gather visit rest <;> simp [bind, Except.bind, pure, Except.pure]

theorem gather_ok {items : List α} {all : List β} (h : gather visit items = .ok all) {item : α}
    (hitem : item ∈ items) : ∃ found, visit item = .ok found ∧ ∀ one ∈ found, one ∈ all := by
  induction items generalizing all with
  | nil => cases hitem
  | cons first rest ih =>
    obtain ⟨found, more, hfirst, hrest, rfl⟩ := gather_cons_eq_ok.mp h
    rcases mem_cons.mp hitem with rfl | hmem
    · exact ⟨found, hfirst, fun one hone => mem_append_left _ hone⟩
    · obtain ⟨here, hvisit, hhere⟩ := ih hrest hmem
      exact ⟨here, hvisit, fun one hone => mem_append_right _ (hhere one hone)⟩

theorem gather_perm {items others : List α} (hperm : items.Perm others) {all : List β}
    (h : gather visit items = .ok all) :
    ∃ more, gather visit others = .ok more ∧ all.Perm more := by
  induction hperm generalizing all with
  | nil => exact ⟨all, h, List.Perm.refl all⟩
  | cons item _ ih =>
    obtain ⟨found, later, hfirst, hlater, rfl⟩ := gather_cons_eq_ok.mp h
    obtain ⟨more, hmore, hsame⟩ := ih hlater
    exact ⟨_, gather_cons_eq_ok.mpr ⟨found, more, hfirst, hmore, rfl⟩, hsame.append_left found⟩
  | swap =>
    obtain ⟨found, later, hsnd, hlater, rfl⟩ := gather_cons_eq_ok.mp h
    obtain ⟨other, last, hfirst, hlast, rfl⟩ := gather_cons_eq_ok.mp hlater
    refine ⟨other ++ (found ++ last), by rw [gather, gather, hfirst, hsnd, hlast]; rfl, ?_⟩
    rw [← append_assoc, ← append_assoc]
    exact perm_append_comm.append_right last
  | trans _ _ ih ih' =>
    obtain ⟨middle, hmid, hsame⟩ := ih h
    obtain ⟨more, hmore, hsame'⟩ := ih' hmid
    exact ⟨more, hmore, hsame.trans hsame'⟩

theorem gather_error_iff {items : List α} :
    (∃ e, gather visit items = .error e) ↔ ∃ item ∈ items, ∃ e, visit item = .error e := by
  induction items with
  | nil => simp [gather]
  | cons item rest ih =>
    rw [exists_mem_cons_iff, ← ih, gather]
    cases hfirst : visit item with
    | error => simp [bind, Except.bind]
    | ok =>
      cases hrest : gather visit rest with
      | error => simp [bind, Except.bind]
      | ok => simp [bind, Except.bind, pure, Except.pure]

section Found

variable {N : Type} (platform : Platform N)

def FileJob.patterns (job : FileJob N) : List (String → Bool) :=
  job.excludes.filterMap platform.compile

variable (view : FileView N) (patterns : List (String → Bool)) (source : FsPath N)

def foundAt : WalkItem N StoredFile → Except String (List (String × StoredFile))
  | .error _ reason => .error reason
  | .nonFile _ => .ok []
  | .file below file =>
    let path := source.join below
    if excluded platform.text patterns path then .ok []
    else
      match view.metadata path with
      | some reason => .error reason
      | none => .ok [(slashes (path.text platform.text), file)]

/-- The body of the loop over the sources.  What cannot be read at a source's own path is
left out. -/
def foundIn : Except String (List (String × StoredFile)) :=
  match if view.rootFails source then none else view.disk source with
  | some (.folder entries) =>
    gather (foundAt platform view patterns source)
      (Node.walk (fun below => view.listing (source.join below)) (.folder entries))
  | some (.file file) =>
    if excluded platform.text patterns source then .ok []
    else
      match view.metadata source with
      | some reason => .error reason
      | none => .ok [(source.text platform.text, file)]
  | some .other | none => .ok []

/-- The files that a job's fingerprint is made of. -/
def foundFiles (job : FileJob N) : Except String (List (String × StoredFile)) :=
  gather (foundIn platform view (job.patterns platform)) job.sources

def hashFound (found : List (String × StoredFile)) : FixedBytes 32 :=
  platform.hash (encodeItems (found.map fileItem))

def fingerprint (job : FileJob N) : Except String (FixedBytes 32) := do
  let found ← foundFiles platform view job
  return hashFound platform found

/-- The files that are at a source's path and not excluded. -/
def currentFiles : List (FsPath N × StoredFile) :=
  match view.disk source with
  | some (.folder entries) =>
    ((Node.folder entries).files.map fun found => (source.join found.1, found.2)).filter
      fun file => !excluded platform.text patterns file.1
  | some (.file file) => if excluded platform.text patterns source then [] else [(source, file)]
  | some .other | none => []

end Found

section Cover

variable {N : Type} {platform : Platform N} {view : FileView N} {patterns : List (String → Bool)}
  {source : FsPath N} {found : List (String × StoredFile)}

theorem mem_gather_foundAt {entries : Entries N StoredFile}
    (h : gather (foundAt platform view patterns source)
      (Node.walk (fun below => view.listing (source.join below)) (.folder entries)) = .ok found)
    {below : List N} {file : StoredFile} (hfile : (below, file) ∈ (Node.folder entries).files)
    (hexcl : excluded platform.text patterns (source.join below) = false) :
    (slashes ((source.join below).text platform.text), file) ∈ found := by
  -- an error of the walk would have been returned
  have hwalk := Node.walk_eq_of_no_error fun path reason hmem => by
    obtain ⟨_, hvisit, -⟩ := gather_ok h hmem
    cases hvisit
  rw [Node.files, ← hwalk, mem_walkedFiles] at hfile
  obtain ⟨here, hvisit, hhere⟩ := gather_ok h hfile
  simp only [foundAt, hexcl, Bool.false_eq_true, if_false] at hvisit
  split at hvisit
  · cases hvisit
  · cases hvisit
    exact hhere _ mem_cons_self

variable {file : FsPath N × StoredFile}

theorem mem_foundIn_of_current (h : foundIn platform view patterns source = .ok found)
    (hroot : view.rootFails source = false)
    (hfile : file ∈ currentFiles platform view patterns source) :
    ∃ path, (path, file.2) ∈ found ∧ slashes path = slashes (file.1.text platform.text) := by
  simp only [foundIn, hroot, Bool.false_eq_true, if_false] at h
  cases hdisk : view.disk source with
  | none => simp [currentFiles, hdisk] at hfile
  | some node =>
    cases node with
    | other => simp [currentFiles, hdisk] at hfile
    | folder =>
      simp only [hdisk] at h
      simp only [currentFiles, hdisk, mem_filter, mem_map, Bool.not_eq_true'] at hfile
      obtain ⟨⟨⟨below, content⟩, hmem, rfl⟩, hexcl⟩ := hfile
      exact ⟨_, mem_gather_foundAt h hmem hexcl, slashes_slashes _⟩
    | file =>
      simp only [hdisk] at h
      simp only [currentFiles, hdisk] at hfile
      split at hfile
      · cases hfile
      · rename_i hexcl
        rw [if_neg hexcl] at h
        obtain rfl := mem_singleton.mp hfile
        split at h
        · cases h
        · cases h
          exact ⟨_, mem_cons_self, rfl⟩

theorem mem_foundFiles_of_current {job : FileJob N} (h : foundFiles platform view job = .ok found)
    (hsrc : source ∈ job.sources) (hroot : view.rootFails source = false)
    (hfile : file ∈ currentFiles platform view (job.patterns platform) source) :
    ∃ path, (path, file.2) ∈ found ∧ slashes path = slashes (file.1.text platform.text) := by
  obtain ⟨here, hvisit, hhere⟩ := gather_ok h hsrc
  obtain ⟨path, hpath, htext⟩ := mem_foundIn_of_current hvisit hroot hfile
  exact ⟨path, hhere _ hpath, htext⟩

end Cover

end PbsGui.Engine
