import Mathlib.Data.List.Induction
import PbsGui.Client.Upload

/-!
# What the upload loop computes

`LoopState.Describes` says what the locals of `backup_dynamic_reader` are once its loop has
gone through a list of contents: every offset is the sum of the lengths in front of it, as a
64-bit number.  One run of the loop body keeps this, whether the chunk is reused or uploaded.
-/

namespace PbsGui.Client

open Lib List

/-- The length of a list of chunks laid end to end. -/
def totalLength (contents : List Bytes) : Nat :=
  (contents.map List.length).sum

@[simp] theorem totalLength_append (left right : List Bytes) :
    totalLength (left ++ right) = totalLength left + totalLength right := by
  simp [totalLength]

@[simp] theorem totalLength_singleton (data : Bytes) : totalLength [data] = data.length := by
  simp [totalLength]

/-- The offset each chunk starts at: the lengths of the chunks before it. -/
def startOffsets (contents : List Bytes) : List UInt64 :=
  (List.range contents.length).map fun i => UInt64.ofNat (totalLength (contents.take i))

def endOffsets (contents : List Bytes) : List UInt64 :=
  (List.range contents.length).map fun i => UInt64.ofNat (totalLength (contents.take (i + 1)))

@[simp] theorem startOffsets_length (contents : List Bytes) :
    (startOffsets contents).length = contents.length := by
  simp [startOffsets]

@[simp] theorem endOffsets_length (contents : List Bytes) :
    (endOffsets contents).length = contents.length := by
  simp [endOffsets]

theorem startOffsets_snoc (contents : List Bytes) (data : Bytes) :
    startOffsets (contents ++ [data]) =
      startOffsets contents ++ [UInt64.ofNat (totalLength contents)] := by
  simp only [startOffsets, length_append, length_singleton, range_succ,
    map_append, map_singleton, take_left]
  congr 1
  refine map_congr_left fun i hi => ?_
  rw [take_append_of_le_length (Nat.le_of_lt (mem_range.mp hi))]

theorem endOffsets_snoc (contents : List Bytes) (data : Bytes) :
    endOffsets (contents ++ [data]) =
      endOffsets contents ++ [UInt64.ofNat (totalLength contents + data.length)] := by
  simp only [endOffsets, length_append, length_singleton, range_succ, map_append, map_singleton]
  congr 1
  · refine map_congr_left fun i hi => ?_
    rw [take_append_of_le_length (mem_range.mp hi)]
  · rw [take_of_length_le (by simp), totalLength_append, totalLength_singleton]

/-- The entries of the index of a list of contents. -/
def indexEntries (cfg : UploadConfig) (contents : List Bytes) : List IndexEntry :=
  (endOffsets contents).zip (contents.map cfg.digest)

theorem indexEntries_snoc (cfg : UploadConfig) (contents : List Bytes) (data : Bytes) :
    indexEntries cfg (contents ++ [data]) =
      indexEntries cfg contents ++
        [(UInt64.ofNat (totalLength contents + data.length), cfg.digest data)] := by
  rw [indexEntries, endOffsets_snoc, map_append, zip_append (by simp)]
  rfl

@[simp] theorem indexEntries_length (cfg : UploadConfig) (contents : List Bytes) :
    (indexEntries cfg contents).length = contents.length := by
  simp [indexEntries]

/-- The total of entries with these end offsets is the length of the contents,
whatever the digest. -/
theorem entriesTotal_zip (digestOf : Bytes → Digest) (contents : List Bytes) :
    entriesTotal ((endOffsets contents).zip (contents.map digestOf)) =
      UInt64.ofNat (totalLength contents) := by
  induction contents using reverseRecOn with
  | nil => rfl
  | append_singleton =>
    rw [endOffsets_snoc, map_append, zip_append (by simp), entriesTotal, map_singleton,
      zip_cons_cons, zip_nil_right, getLast?_concat, totalLength_append, totalLength_singleton]

def reusedOf (cfg : UploadConfig) (known : List Digest) (contents : List Bytes) : List Bytes :=
  contents.filter fun data => decide (cfg.digest data ∈ known)

def newOf (cfg : UploadConfig) (known : List Digest) (contents : List Bytes) : List Bytes :=
  contents.filter fun data => decide (cfg.digest data ∉ known)

section Split

variable {cfg : UploadConfig} {known : List Digest} {data : Bytes}

theorem reusedOf_snoc_known (contents : List Bytes) (hknown : cfg.digest data ∈ known) :
    reusedOf cfg known (contents ++ [data]) = reusedOf cfg known contents ++ [data] := by
  simp [reusedOf, hknown]

theorem newOf_snoc_known (contents : List Bytes) (hknown : cfg.digest data ∈ known) :
    newOf cfg known (contents ++ [data]) = newOf cfg known contents := by
  simp [newOf, hknown]

theorem reusedOf_snoc_new (contents : List Bytes) (hnew : cfg.digest data ∉ known) :
    reusedOf cfg known (contents ++ [data]) = reusedOf cfg known contents := by
  simp [reusedOf, hnew]

theorem newOf_snoc_new (contents : List Bytes) (hnew : cfg.digest data ∉ known) :
    newOf cfg known (contents ++ [data]) = newOf cfg known contents ++ [data] := by
  simp [newOf, hnew]

end Split

theorem reusedOf_newOf_totals (cfg : UploadConfig) (known : List Digest) (contents : List Bytes) :
    (reusedOf cfg known contents).length + (newOf cfg known contents).length =
        contents.length ∧
      totalLength (reusedOf cfg known contents) + totalLength (newOf cfg known contents) =
        totalLength contents := by
  induction contents using reverseRecOn with
  | nil => exact ⟨rfl, rfl⟩
  | append_singleton contents data =>
    by_cases hknown : cfg.digest data ∈ known
    · rw [reusedOf_snoc_known _ hknown, newOf_snoc_known _ hknown]
      simp only [length_append, length_singleton, totalLength_append, totalLength_singleton]
      omega
    · rw [reusedOf_snoc_new _ hknown, newOf_snoc_new _ hknown]
      simp only [length_append, length_singleton, totalLength_append, totalLength_singleton]
      omega

/-- The locals of the loop after it has gone through `contents`. -/
structure LoopState.Describes (cfg : UploadConfig) (known : List Digest)
    (contents : List Bytes) (locals : LoopState) : Prop where
  entries : locals.builder.entries = indexEntries cfg contents
  allDigests : locals.allDigests = contents.map cfg.digest
  allOffsets : locals.allOffsets = startOffsets contents
  endOffset : locals.endOffset = UInt64.ofNat (totalLength contents)
  chunks : locals.chunks = UInt64.ofNat contents.length
  reused : locals.reused = UInt64.ofNat (reusedOf cfg known contents).length
  uploaded : locals.uploaded = UInt64.ofNat (newOf cfg known contents).length
  uploadedBytes : locals.uploadedBytes = UInt64.ofNat (totalLength (newOf cfg known contents))
  reusedBytes : locals.reusedBytes = UInt64.ofNat (totalLength (reusedOf cfg known contents))

namespace LoopState.Describes

variable {cfg : UploadConfig} {known : List Digest} {contents : List Bytes}
  {locals : LoopState} {data : Bytes}

theorem initial (ctime : Int64) (uuid : FixedBytes 16) :
    (LoopState.initial ctime uuid).Describes cfg known [] := by
  constructor <;> rfl

variable (h : locals.Describes cfg known contents)

include h

theorem pushReused (hknown : cfg.digest data ∈ known) :
    ((locals.countReused (UInt64.ofNat data.length)).pushEntry locals.endOffset
      (cfg.digest data)).Describes cfg known (contents ++ [data]) := by
  constructor <;>
    simp only [pushEntry, countReused, DynamicIndexBuilder.push, h.entries, h.allDigests,
      h.allOffsets, h.endOffset, h.chunks, h.reused, h.uploaded, h.uploadedBytes,
      h.reusedBytes, indexEntries_snoc, startOffsets_snoc, reusedOf_snoc_known _ hknown,
      newOf_snoc_known _ hknown, totalLength_append, totalLength_singleton, map_append,
      map_singleton, length_append, length_singleton, UInt64.ofNat_add] <;>
    rfl

theorem pushNew (hnew : cfg.digest data ∉ known) :
    ((locals.countNew (UInt64.ofNat data.length)).countSpawned.pushEntry locals.endOffset
      (cfg.digest data)).Describes cfg known (contents ++ [data]) := by
  constructor <;>
    simp only [pushEntry, countNew, countSpawned, DynamicIndexBuilder.push, h.entries, h.allDigests,
      h.allOffsets, h.endOffset, h.chunks, h.reused, h.uploaded, h.uploadedBytes, h.reusedBytes,
      indexEntries_snoc, startOffsets_snoc, reusedOf_snoc_new _ hnew, newOf_snoc_new _ hnew,
      totalLength_append, totalLength_singleton, map_append, map_singleton, length_append,
      length_singleton, UInt64.ofNat_add] <;>
    rfl

theorem batches_flatMap :
    locals.batches.flatMap Prod.fst = contents.map cfg.digest ∧
      locals.batches.flatMap Prod.snd = startOffsets contents := by
  have hlen : locals.allDigests.length = locals.allOffsets.length := by
    rw [h.allDigests, h.allOffsets, length_map, startOffsets_length]
  obtain ⟨hdigs, hoffs⟩ := zip_pieces_flatMap (by decide : 0 < appendBatch) hlen
  exact ⟨hdigs.trans h.allDigests, hoffs.trans h.allOffsets⟩

theorem close_fields :
    locals.builder.entryCount = contents.length ∧
      locals.builder.totalSize = UInt64.ofNat (totalLength contents) ∧
      locals.builder.indexCsum cfg.prims = entriesCsum cfg.prims (indexEntries cfg contents) := by
  refine ⟨?_, ?_, ?_⟩
  · rw [DynamicIndexBuilder.entryCount, h.entries, indexEntries_length]
  · rw [DynamicIndexBuilder.totalSize, h.entries]
    exact entriesTotal_zip cfg.digest contents
  · rw [DynamicIndexBuilder.indexCsum, h.entries]

theorem counters :
    locals.chunks = locals.reused + locals.uploaded ∧
      UInt64.ofNat (totalLength contents) =
        locals.uploadedBytes + UInt64.ofNat (totalLength (reusedOf cfg known contents)) := by
  obtain ⟨hcount, hbytes⟩ := reusedOf_newOf_totals cfg known contents
  constructor
  · rw [h.chunks, h.reused, h.uploaded, ← UInt64.ofNat_add, hcount]
  · rw [h.uploadedBytes, ← UInt64.ofNat_add, Nat.add_comm, hbytes]

end LoopState.Describes

end PbsGui.Client
