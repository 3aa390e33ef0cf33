import PbsGui.Core.Signed
import PbsGui.Ipc.Protocol
import PbsGui.Lib.Keyed

/-!
# The stores of jobs and connections

`jobstore.rs` and `connstore.rs` keep a list in memory and in a signed file.  Their
mutators have one shape: refuse if the file could not be loaded, change the list,
then write all of it.  The change in memory is not taken back when the write fails.
-/

namespace PbsGui.Engine

open Lib PbsGui.Core List

/-- A list kept in a file; `loadError` is set when the file could not be loaded. -/
structure ListStore (α : Type*) where
  path : StorePath
  items : List α
  loadError : Option String

/-- A store and the disk its file is on. -/
structure StoreWorld (α : Type*) where
  store : ListStore α
  disk : Disk

/-- The circumstances of a call: the signing key and the write. -/
structure PersistEnv where
  signing : Signing
  write : WriteEnv := {}

namespace ListStore

variable {α : Type*}

def withPath (format : StoreFormat (List α)) (signing : Signing) (fault : Option String)
    (disk : Disk) (path : StorePath) : ListStore α :=
  let loaded := loadList format signing fault disk path
  { path := path, items := loaded.1, loadError := loaded.2 }

def ensureWritable (store : ListStore α) : Except String Unit :=
  match store.loadError with
  | some e => .error e
  | none => .ok ()

def list (store : ListStore α) : List α := store.items

def persist (format : StoreFormat (List α)) (env : PersistEnv) (store : ListStore α) (disk : Disk) :
    Disk × Except String Unit :=
  match store.ensureWritable with
  | .error e => (disk, .error e)
  | .ok () =>
    match serialize format env.signing store.items with
    | .error e => (disk, .error e)
    | .ok data => writeAtomic env.write store.path data disk

/-- The shape of every mutator: check, change the list, persist. -/
def mutate (format : StoreFormat (List α)) (env : PersistEnv) (change : List α → List α)
    (world : StoreWorld α) : StoreWorld α × Except String Unit :=
  match world.store.ensureWritable with
  | .error e => (world, .error e)
  | .ok () =>
    let store := { world.store with items := change world.store.items }
    -- the changed list stays in memory whatever `persist` returns
    let written := store.persist format env world.disk
    ({ store := store, disk := written.1 }, written.2)

end ListStore

abbrev JobStore := ListStore Ipc.Job

namespace JobStore

def get (store : JobStore) (id : String) : Option Ipc.Job :=
  Keyed.lookup Ipc.Job.id id store.items

def saveJob (format : StoreFormat (List Ipc.Job)) (env : PersistEnv) (job : Ipc.Job) :
    StoreWorld Ipc.Job → StoreWorld Ipc.Job × Except String Unit :=
  ListStore.mutate format env (Keyed.upsert Ipc.Job.id job)

def delete (format : StoreFormat (List Ipc.Job)) (env : PersistEnv) (id : String) :
    StoreWorld Ipc.Job → StoreWorld Ipc.Job × Except String Unit :=
  ListStore.mutate format env (Keyed.remove Ipc.Job.id id)

def withRun (id : String) (time : Int) (status : String) : List Ipc.Job → List Ipc.Job :=
  Keyed.modify Ipc.Job.id id fun job =>
    { job with lastRun := some time, lastStatus := some status }

theorem map_id_withRun (id : String) (time : Int) (status : String) (jobs : List Ipc.Job) :
    (withRun id time status jobs).map Ipc.Job.id = jobs.map Ipc.Job.id :=
  Keyed.map_key_modify fun _ => rfl

theorem lookup_withRun (other id : String) (time : Int) (status : String) (jobs : List Ipc.Job) :
    Keyed.lookup Ipc.Job.id other (withRun id time status jobs) =
      if other = id then
        (Keyed.lookup Ipc.Job.id other jobs).map fun job =>
          { job with lastRun := some time, lastStatus := some status }
      else Keyed.lookup Ipc.Job.id other jobs :=
  Keyed.lookup_modify fun _ => rfl

def recordRun (format : StoreFormat (List Ipc.Job)) (env : PersistEnv) (id : String) (time : Int)
    (status : String) : StoreWorld Ipc.Job → StoreWorld Ipc.Job × Except String Unit :=
  ListStore.mutate format env (withRun id time status)

end JobStore

/-- A call that changes the job store. -/
inductive JobCall
  | saveJob (job : Ipc.Job)
  | delete (id : String)
  | recordRun (id : String) (time : Int) (status : String)
  deriving DecidableEq

namespace JobCall

def apply : JobCall → List Ipc.Job → List Ipc.Job
  | saveJob job => Keyed.upsert Ipc.Job.id job
  | delete id => Keyed.remove Ipc.Job.id id
  | recordRun id time status => JobStore.withRun id time status

def run (format : StoreFormat (List Ipc.Job)) (call : JobCall) (env : PersistEnv)
    (world : StoreWorld Ipc.Job) : StoreWorld Ipc.Job × Except String Unit :=
  match call with
  | saveJob job => JobStore.saveJob format env job world
  | delete id => JobStore.delete format env id world
  | recordRun id time status => JobStore.recordRun format env id time status world

theorem run_eq (format : StoreFormat (List Ipc.Job)) (call : JobCall) (env : PersistEnv)
    (world : StoreWorld Ipc.Job) :
    call.run format env world = ListStore.mutate format env call.apply world := by
  cases call <;> rfl

end JobCall

/-! ### The connection stores -/

/-- Anything stored by a stable id. -/
class HasId (α : Type*) where
  id : α → String

instance : HasId Ipc.SqlConnection := ⟨Ipc.SqlConnection.id⟩

instance : HasId Ipc.PbsServer := ⟨Ipc.PbsServer.id⟩

namespace JsonStore

variable {α : Type*} [HasId α]

def save (format : StoreFormat (List α)) (env : PersistEnv) (item : α) :
    StoreWorld α → StoreWorld α × Except String Unit :=
  ListStore.mutate format env (Keyed.upsert HasId.id item)

def delete (format : StoreFormat (List α)) (env : PersistEnv) (id : String) :
    StoreWorld α → StoreWorld α × Except String Unit :=
  ListStore.mutate format env (Keyed.remove HasId.id id)

end JsonStore

/-- A call that changes a connection store. -/
inductive ItemCall (α : Type*)
  | save (item : α)
  | delete (id : String)

namespace ItemCall

variable {α : Type*} [HasId α]

def apply : ItemCall α → List α → List α
  | save item => Keyed.upsert HasId.id item
  | delete id => Keyed.remove HasId.id id

def run (format : StoreFormat (List α)) (call : ItemCall α) (env : PersistEnv)
    (world : StoreWorld α) : StoreWorld α × Except String Unit :=
  match call with
  | save item => JsonStore.save format env item world
  | delete id => JsonStore.delete format env id world

theorem run_eq (format : StoreFormat (List α)) (call : ItemCall α) (env : PersistEnv)
    (world : StoreWorld α) :
    call.run format env world = ListStore.mutate format env call.apply world := by
  cases call <;> rfl

end ItemCall

def sampleFileJob : Ipc.Job :=
  { id := "a", name := "job a", source := .files ["C:\\data"] [] false,
    destination := .pbs "s" "host", schedule := .manual }

/-- A format that can write the empty list and the list of the sample job. -/
def sampleFormat : StoreFormat (List Ipc.Job) where
  toJson items :=
    if items = [] then .ok "[]" else if items = [sampleFileJob] then .ok "[a]" else .error "unknown"
  fromJson text :=
    if text = "[]" then .ok [] else if text = "[a]" then .ok [sampleFileJob] else .error "unknown"
  fromBytes _ := .error "expected value at line 1 column 1"
  envelopeToJson env :=
    if env = ⟨"B", "[]"⟩ then .ok [0] else if env = ⟨"B", "[a]"⟩ then .ok [1] else .error "unknown"
  envelopeFromJson bytes :=
    if bytes = [0] then some ⟨"B", "[]"⟩ else if bytes = [1] then some ⟨"B", "[a]"⟩
    else if bytes = [2] then some ⟨"A", "[]"⟩ else none
  hmac _ _ := [66]
  base64Encode bytes := String.ofList (bytes.map fun byte => Char.ofNat byte.toNat)
  base64Decode text := .ok (text.toList.map fun c => UInt8.ofNat c.toNat)

def samplePath : StorePath := ⟨"C:\\ProgramData\\pbsgui", "jobs.json"⟩

def sampleSigning : Signing := { key := .ok [1, 2, 3] }

theorem sampleFormat_lawful : sampleFormat.Lawful where
  json value text h := by
    simp only [sampleFormat] at h ⊢
    split at h
    · rename_i hvalue
      cases h
      simp [hvalue]
    · split at h
      · rename_i hvalue
        cases h
        simp [hvalue]
      · cases h
  envelope env bytes h := by
    simp only [sampleFormat] at h ⊢
    split at h
    · rename_i henv
      cases h
      simp [henv]
    · split at h
      · rename_i henv
        cases h
        simp [henv]
      · cases h
  base64 bytes := by
    simp only [sampleFormat, String.toList_ofList, map_map]
    congr 1
    refine (map_congr_left fun byte _ => ?_).trans (map_id bytes)
    have hsmall : byte.toNat < 256 := byte.toNat_lt
    have hvalid : byte.toNat.isValidChar := by
      left
      omega
    have hchar : (Char.ofNat byte.toNat).toNat = byte.toNat := by
      rw [Char.ofNat, dif_pos hvalid]
      rfl
    rw [Function.comp_apply, hchar]
    exact UInt8.ofNat_toNat

def sampleStore : StoreWorld Ipc.Job :=
  ⟨⟨samplePath, [], none⟩, fun path => if path = samplePath then some [0] else none⟩

namespace ListStore

variable {α : Type*} {format : StoreFormat (List α)} {env : PersistEnv} {store : ListStore α}
  {change : List α → List α} {world after : StoreWorld α} {disk : Disk} {e : String}

theorem mutate_readOnly (h : world.store.loadError = some e) :
    mutate format env change world = (world, .error e) := by
  simp only [mutate, ensureWritable, h]

theorem mutate_writable (h : world.store.loadError = none) :
    mutate format env change world =
      ({ store := { world.store with items := change world.store.items },
         disk := (persist format env
           { world.store with items := change world.store.items } world.disk).1 },
       (persist format env { world.store with items := change world.store.items } world.disk).2) := by
  simp only [mutate, ensureWritable, h]

/-- What holds of the list and of the changed list holds afterwards, whatever the store
does with the change. -/
theorem mutate_keeps {property : List α → Prop} (h : property world.store.items)
    (hchange : property (change world.store.items)) :
    property (mutate format env change world).1.store.items := by
  cases hload : world.store.loadError with
  | some =>
    rw [mutate_readOnly hload]
    exact h
  | none =>
    rw [mutate_writable hload]
    exact hchange

theorem persist_error (h : (persist format env store disk).2 = .error e) :
    (persist format env store disk).1 store.path = disk store.path := by
  unfold persist at h ⊢
  split at h
  · rfl
  · split at h
    · rfl
    · exact writeAtomic_error h

/-- After a call that failed the file is as before; the list is as before exactly if
the store was read-only or the call had nothing to change. -/
theorem mutate_error_iff (h : mutate format env change world = (after, .error e)) :
    after.disk world.store.path = world.disk world.store.path ∧
      (after.store.list = world.store.list ↔
        world.store.loadError.isSome ∨ change world.store.items = world.store.items) := by
  cases hload : world.store.loadError with
  | some =>
    rw [mutate_readOnly hload] at h
    obtain ⟨rfl, -⟩ := Prod.mk.inj h
    simp
  | none =>
    rw [mutate_writable hload] at h
    obtain ⟨rfl, hres⟩ := Prod.mk.inj h
    constructor
    · exact persist_error hres
    · simp [list]

end ListStore

def renameFails : PersistEnv :=
  { signing := sampleSigning, write := { fault := some (.rename "Access is denied." true) } }

def runCalls {α Call : Type*}
    (run : Call → PersistEnv → StoreWorld α → StoreWorld α × Except String Unit) :
    List (Call × PersistEnv) → StoreWorld α → StoreWorld α × List (Except String Unit)
  | [], world => (world, [])
  | (call, env) :: rest, world =>
    let done := run call env world
    let later := runCalls run rest done.1
    (later.1, done.2 :: later.2)

namespace ListStore

variable {α : Type*} {format : StoreFormat (List α)} {signing : Signing} {fault : Option String}
  {disk : Disk} {path : StorePath}

theorem withPath_readOnly (h : LoadFails format signing fault disk path) :
    (withPath format signing fault disk path).items = [] ∧
      ∃ e, (withPath format signing fault disk path).loadError = some e := by
  rcases loadList_cases format signing fault disk path with
    ⟨hread, -⟩ | ⟨bytes, items, hread, hdata, -⟩ | ⟨-, err, hloaded⟩
  · simp [LoadFails, hread] at h
  · simp [LoadFails, hread, hdata] at h
  · exact ⟨by rw [withPath, hloaded], err, by rw [withPath, hloaded]⟩

theorem withPath_writable (h : (withPath format signing fault disk path).ensureWritable = .ok ()) :
    readFile fault disk path = .error .notFound ∨
      ∃ bytes, readFile fault disk path = .ok bytes ∧
        deserialize format signing bytes = .ok (withPath format signing fault disk path).items := by
  rcases loadList_cases format signing fault disk path with
    ⟨hread, -⟩ | ⟨bytes, items, hread, hdata, hloaded⟩ | ⟨-, err, hloaded⟩
  · exact .inl hread
  · refine .inr ⟨bytes, hread, ?_⟩
    rw [hdata, withPath, hloaded]
  · simp [ensureWritable, withPath, hloaded] at h

theorem runCalls_readOnly {Call : Type*} {apply : Call → List α → List α} {world : StoreWorld α}
    {run : Call → PersistEnv → StoreWorld α → StoreWorld α × Except String Unit} {e : String}
    (hrun : ∀ call env world, run call env world = mutate format env (apply call) world)
    (hload : world.store.loadError = some e) (calls : List (Call × PersistEnv)) :
    (runCalls run calls world).1 = world ∧
      ∀ result ∈ (runCalls run calls world).2, result = .error e := by
  induction calls with
  | nil => simp [runCalls]
  | cons call rest ih =>
    have hcall : run call.1 call.2 world = (world, .error e) := by
      rw [hrun, mutate_readOnly hload]
    simp only [runCalls, hcall]
    refine ⟨ih.1, fun result hres => ?_⟩
    rcases mem_cons.mp hres with rfl | hlater
    · rfl
    · exact ih.2 result hlater

end ListStore

/-- What a store whose data could not be had must keep to: if its file is there, any
calls leave the disk as it is, all fail, and the list stays empty; and it is writable
only if there is no file. -/
def KeepsUnloaded {α Call : Type*} (format : StoreFormat (List α))
    (run : Call → PersistEnv → StoreWorld α → StoreWorld α × Except String Unit) : Prop :=
  ∀ (signing : Signing) (fault : Option String) (disk : Disk) (path : StorePath),
    (LoadFails format signing fault disk path →
      ∀ calls : List (Call × PersistEnv),
        let done := runCalls run calls ⟨.withPath format signing fault disk path, disk⟩
        done.1.disk = disk ∧ (∀ result ∈ done.2, ∃ e, result = .error e) ∧
          done.1.store.list = []) ∧
    ((ListStore.withPath format signing fault disk path).ensureWritable = .ok () →
      (¬ ∃ bytes items, readFile fault disk path = .ok bytes ∧
        deserialize format signing bytes = .ok items) →
      readFile fault disk path = .error .notFound)

theorem ListStore.keepsUnloaded {α Call : Type*} {format : StoreFormat (List α)}
    {apply : Call → List α → List α}
    {run : Call → PersistEnv → StoreWorld α → StoreWorld α × Except String Unit}
    (hrun : ∀ call env world, run call env world = mutate format env (apply call) world) :
    KeepsUnloaded format run := by
  intro signing fault disk path
  constructor
  · intro hfails calls
    obtain ⟨hitems, e, hload⟩ := withPath_readOnly hfails
    obtain ⟨hworld, hresults⟩ := runCalls_readOnly hrun
      (show (StoreWorld.mk (withPath format signing fault disk path) disk).store.loadError = some e
        from hload) calls
    refine ⟨by rw [hworld], fun result hres => ⟨e, hresults result hres⟩, ?_⟩
    rw [hworld]
    exact hitems
  · intro hwr hunread
    rcases withPath_writable hwr with hmissing | ⟨bytes, hread, hdata⟩
    · exact hmissing
    · exact absurd ⟨bytes, _, hread, hdata⟩ hunread

/-- Neither the job store nor a connection store ever overwrites a file it could not
load. -/
theorem unloadedStore_kept :
    (∀ format : StoreFormat (List Ipc.Job), KeepsUnloaded format (JobCall.run format)) ∧
    ∀ (α : Type) [HasId α] (format : StoreFormat (List α)),
      KeepsUnloaded format (ItemCall.run format) := by
  constructor
  · intro format
    exact ListStore.keepsUnloaded (JobCall.run_eq format)
  · intro α _ format
    exact ListStore.keepsUnloaded (ItemCall.run_eq format)

def sampleBadDisk : Disk := fun path => if path = samplePath then some [2] else none

def sampleCalls : List (JobCall × PersistEnv) :=
  [(.saveJob sampleFileJob, { signing := sampleSigning }),
   (.recordRun "a" 1 "ok", { signing := sampleSigning }),
   (.delete "a", { signing := sampleSigning })]

/-- A file with a wrong signature survives three calls. -/
theorem badSignature_kept :
    (runCalls (JobCall.run sampleFormat) sampleCalls
      ⟨.withPath sampleFormat sampleSigning none sampleBadDisk samplePath,
        sampleBadDisk⟩).1.disk = sampleBadDisk := by
  have hfails : LoadFails sampleFormat sampleSigning none sampleBadDisk samplePath :=
    ⟨"store signature mismatch: corrupt or tampered with", rfl⟩
  exact ((unloadedStore_kept.1 sampleFormat sampleSigning none sampleBadDisk samplePath).1
    hfails sampleCalls).1

end PbsGui.Engine
