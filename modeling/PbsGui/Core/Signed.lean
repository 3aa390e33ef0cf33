import Mathlib.Data.List.TakeWhile
import Mathlib.Logic.Function.Basic
import PbsGui.Lib.Bytes

/-!
# Tamper-evident store files

`signed.rs` keeps a store as an envelope: the JSON text of the data and an HMAC-SHA256 over
it.  A file is replaced by renaming a temporary file over it; a file that cannot be read or
verified is refused.

JSON, base64 and the HMAC enter as one record of functions, and what can fail is the input of
an operation.
-/

namespace PbsGui.Core

open Lib List

/-! ### Files -/

/-- A path: a directory and a file name in it. -/
structure StorePath where
  dir : String
  name : String
  deriving DecidableEq

/-- `Path::display`. -/
def StorePath.display (path : StorePath) : String :=
  path.dir ++ "\\" ++ path.name

abbrev Disk := StorePath → Option Bytes

/-- `Path::file_stem`: the name up to its last dot, unless that dot is missing or
comes first. -/
def fileStem (name : List Char) : List Char :=
  match name.reverse.dropWhile (· ≠ '.') with
  | _ :: before => if before = [] then name else before.reverse
  | [] => name

/-- `Path::with_extension`. -/
def withExtension (path : StorePath) (extension : String) : StorePath :=
  { path with name := String.ofList (fileStem path.name.toList ++ '.' :: extension.toList) }

theorem withExtension_ne {path : StorePath} {extension : String} (hdot : '.' ∈ extension.toList) :
    withExtension path extension ≠ path := by
  intro hsame
  have hname : fileStem path.name.toList ++ '.' :: extension.toList = path.name.toList := by
    have h := congrArg (fun p => p.name.toList) hsame
    simpa [withExtension] using h
  have hlonger : fileStem path.name.toList ≠ path.name.toList := by
    intro heq
    have hlen := congrArg length hname
    rw [heq] at hlen
    simp at hlen
  -- the part of the old name after its last dot holds no dot
  have hsplit := takeWhile_append_dropWhile (p := (· ≠ '.')) (l := path.name.toList.reverse)
  unfold fileStem at hname hlonger
  split at hlonger
  · rename_i dot before hdrop
    rw [hdrop] at hname hsplit
    by_cases hpre : before = []
    · exact hlonger (if_pos hpre)
    · simp only [if_neg hpre] at hname
      have htail := congrArg reverse hsplit
      simp only [reverse_append, reverse_cons, reverse_reverse,
        append_assoc, singleton_append] at htail
      rw [← htail] at hname
      have hext := (cons.inj (append_cancel_left hname)).2
      rw [hext, mem_reverse] at hdot
      simpa using mem_takeWhile_imp hdot
  · exact hlonger rfl

/-- Why a file cannot be read. -/
inductive ReadError
  | notFound
  | other (text : String)
  deriving DecidableEq

/-- `std::fs::read`; `fault` is an error other than a missing file. -/
def readFile (fault : Option String) (disk : Disk) (path : StorePath) : Except ReadError Bytes :=
  match fault, disk path with
  | some text, _ => .error (.other text)
  | none, none => .error .notFound
  | none, some bytes => .ok bytes

/-- Where an atomic write can fail. -/
inductive WriteFault
  | createDir (text : String)
  /-- The temporary file cannot be written; part of it may be left. -/
  | writeTemp (text : String) (left : Option Bytes)
  /-- The rename fails; the temporary file is removed if that works. -/
  | rename (text : String) (removed : Bool)

/-- The circumstances of a write: the process id, the counter of writes, and the fault. -/
structure WriteEnv where
  pid : Nat := 0
  seq : Nat := 0
  fault : Option WriteFault := none

def tempPath (env : WriteEnv) (path : StorePath) : StorePath :=
  withExtension path ("tmp." ++ toString env.pid ++ "." ++ toString env.seq)

/-- Write bytes to a path by a temporary file and a rename. -/
def writeAtomic (env : WriteEnv) (path : StorePath) (bytes : Bytes) (disk : Disk) :
    Disk × Except String Unit :=
  let temp := tempPath env path
  match env.fault with
  | some (.createDir text) => (disk, .error text)
  | some (.writeTemp text left) => (Function.update disk temp left, .error text)
  | some (.rename text removed) =>
    (Function.update disk temp (if removed then none else some bytes), .error text)
  | none => (Function.update (Function.update disk temp none) path (some bytes), .ok ())

section WriteAtomic

variable {env : WriteEnv} {path : StorePath} {bytes : Bytes} {disk : Disk}

theorem tempPath_ne : tempPath env path ≠ path := withExtension_ne (by simp)

theorem writeAtomic_error {text : String} (h : (writeAtomic env path bytes disk).2 = .error text) :
    (writeAtomic env path bytes disk).1 path = disk path := by
  have htemp : path ≠ tempPath env path := tempPath_ne.symm
  cases hfault : env.fault with
  | none => simp [writeAtomic, hfault] at h
  | some fault =>
    cases fault with
    | createDir => simp only [writeAtomic, hfault]
    | writeTemp | rename => simp only [writeAtomic, hfault, Function.update_of_ne htemp]

theorem writeAtomic_ok (h : (writeAtomic env path bytes disk).2 = .ok ()) :
    (writeAtomic env path bytes disk).1 path = some bytes := by
  cases hfault : env.fault with
  | none => simp [writeAtomic, hfault]
  | some fault => cases fault <;> simp [writeAtomic, hfault] at h

end WriteAtomic

/-- The exact JSON text, and the base64 of its HMAC-SHA256. -/
structure Envelope where
  mac : String
  data : String
  deriving DecidableEq

/-- The functions a store file of type `T` is written and read with. -/
structure StoreFormat (T : Type*) where
  toJson : T → Except String String
  fromJson : String → Except String T
  /-- A bare value, as written before signing existed. -/
  fromBytes : Bytes → Except String T
  envelopeToJson : Envelope → Except String Bytes
  envelopeFromJson : Bytes → Option Envelope
  hmac : Bytes → String → Bytes
  base64Encode : Bytes → String
  base64Decode : String → Except String Bytes

/-- What is written is read back. -/
structure StoreFormat.Lawful {T : Type*} (format : StoreFormat T) : Prop where
  json : ∀ value text, format.toJson value = .ok text → format.fromJson text = .ok value
  envelope : ∀ env bytes, format.envelopeToJson env = .ok bytes →
    format.envelopeFromJson bytes = some env
  base64 : ∀ bytes, format.base64Decode (format.base64Encode bytes) = .ok bytes

/-- The signing key as this process gets it, whether it had to be made, and the account. -/
structure Signing where
  key : Except String Bytes
  keyCreated : Bool := false
  account : String := "unknown"

variable {T : Type*}

def serialize (format : StoreFormat T) (signing : Signing) (value : T) : Except String Bytes :=
  match format.toJson value, signing.key with
  | .error e, _ => .error e
  | .ok _, .error e => .error e
  | .ok data, .ok key =>
    format.envelopeToJson { mac := format.base64Encode (format.hmac key data), data := data }

/-- Parse a store file: an envelope is verified, a bare value is accepted as it is. -/
def deserialize (format : StoreFormat T) (signing : Signing) (bytes : Bytes) : Except String T :=
  match format.envelopeFromJson bytes with
  | none => format.fromBytes bytes
  | some env =>
    match signing.key, format.base64Decode env.mac with
    | .error e, _ => .error e
    | .ok _, .error e => .error ("store MAC is not valid base64: " ++ e)
    | .ok key, .ok expected =>
      if format.hmac key env.data = expected then format.fromJson env.data
      else .error "store signature mismatch: corrupt or tampered with"

theorem deserialize_serialize {format : StoreFormat T} (hformat : format.Lawful)
    {signing reading : Signing} {value : T} {bytes : Bytes} (hkey : reading.key = signing.key)
    (h : serialize format signing value = .ok bytes) :
    deserialize format reading bytes = .ok value := by
  unfold serialize at h
  split at h
  · cases h
  · cases h
  · rename_i data key hdata hsigning
    have henv := hformat.envelope _ _ h
    simp only [deserialize, henv, hkey, hsigning, hformat.base64, if_true]
    exact hformat.json _ _ hdata

/-- Why a store was refused at load, and how to recover. -/
def refusedMessage (signing : Signing) (path : StorePath) (err : String) : String :=
  "could not load " ++ path.display ++ ": " ++ err ++
    ". pbsgui will not change this file until the problem is fixed." ++
    (if signing.keyCreated then
      " This Windows account (" ++ signing.account ++ ") had no pbsgui signing key, which usually " ++
        "means the pbsgui-engine service now runs as a different account from the one that saved " ++
        "the configuration. Set the service to log on as Local System again and restart it to get " ++
        "the configuration back."
    else "") ++
    " To discard the file and start empty instead, move it out of the folder and restart the service."

/-- Load a list store: the list, and the refusal if the file exists but cannot be
read or verified. -/
def loadList {α : Type*} (format : StoreFormat (List α)) (signing : Signing)
    (fault : Option String) (disk : Disk) (path : StorePath) : List α × Option String :=
  match readFile fault disk path with
  | .error .notFound => ([], none)
  | .error (.other text) => ([], some (refusedMessage signing path text))
  | .ok bytes =>
    match deserialize format signing bytes with
    | .ok items => (items, none)
    | .error e => ([], some (refusedMessage signing path e))

/-- The file is there, but its data cannot be had. -/
def LoadFails {α : Type*} (format : StoreFormat (List α)) (signing : Signing)
    (fault : Option String) (disk : Disk) (path : StorePath) : Prop :=
  match readFile fault disk path with
  | .error .notFound => False
  | .error (.other _) => True
  | .ok bytes => ∃ e, deserialize format signing bytes = .error e

theorem loadList_cases {α : Type*} (format : StoreFormat (List α)) (signing : Signing)
    (fault : Option String) (disk : Disk) (path : StorePath) :
    (readFile fault disk path = .error .notFound ∧
        loadList format signing fault disk path = ([], none)) ∨
      (∃ bytes items, readFile fault disk path = .ok bytes ∧
        deserialize format signing bytes = .ok items ∧
        loadList format signing fault disk path = (items, none)) ∨
      (LoadFails format signing fault disk path ∧
        ∃ err, loadList format signing fault disk path = ([], some err)) := by
  unfold loadList LoadFails
  cases hread : readFile fault disk path with
  | error e =>
    cases e with
    | notFound => exact .inl ⟨rfl, rfl⟩
    | other => exact .inr (.inr ⟨trivial, _, rfl⟩)
  | ok bytes =>
    cases hdata : deserialize format signing bytes with
    | ok items => exact .inr (.inl ⟨bytes, items, rfl, hdata, by simp [hdata]⟩)
    | error e => exact .inr (.inr ⟨⟨e, hdata⟩, _, by simp only [hdata]; rfl⟩)

end PbsGui.Core
