import PbsGui.Engine.Handler
import PbsGui.Lib.CheckThenAct

/-!
# Requests for a new encryption key

`enckey::generate` looks whether a job has a key in the credential store, makes a random
one and stores it, and other requests may use the store in between.  A key that a request has
shown to the user stays stored as long as no other request writes the job's key between the
look and the write of one.
-/

namespace PbsGui.Engine

open Lib Client Relation List

/-- `sha256("Proxmox Backup Encryption Key Fingerprint")` -/
def fingerprintInput : Bytes :=
  [110, 208, 239, 119, 71, 31, 255, 77, 85, 199, 168, 254, 74, 157, 182, 33, 97, 64, 127, 19, 76,
    114, 93, 223, 48, 153, 45, 37, 236, 69, 237, 38]

/-- The key fingerprint, for the user to identify which key a backup needs. -/
def keyFingerprint (prims : Primitives) (config : CryptConfig) : Digest :=
  config.computeDigest prims fingerprintInput

/-- Lowercase hex grouped in colon-separated byte pairs. -/
def colonHex (bytes : Bytes) : String :=
  ":".intercalate (bytes.map fun byte => hexEncode [byte])

/-- What the user is shown of a key. -/
structure EncryptionKeyInfo where
  key : String
  fingerprint : String
  deriving DecidableEq

/-- What the keys are written with. -/
structure KeyCodec where
  prims : Primitives
  base64Encode : Bytes → String

def KeyCodec.encode (codec : KeyCodec) (key : FixedBytes 32) : String :=
  codec.base64Encode key.toBytes

def infoFromKey (codec : KeyCodec) (key : FixedBytes 32) : EncryptionKeyInfo where
  key := codec.encode key
  fingerprint := colonHex (keyFingerprint codec.prims { encKey := key }).toBytes

/-- The circumstances of a request: whether the credential store answers, and the random
key. -/
structure GenerateEnv where
  getFault : Option String := none
  random : Except String (FixedBytes 32)
  setFault : Option String := none

/-- Generate a fresh random key for a job and store it; fails if there is one. -/
def generate (codec : KeyCodec) (env : GenerateEnv) (jobId : String) (credentials : Credentials) :
    Credentials × Except String EncryptionKeyInfo :=
  match env.getFault with
  | some e => (credentials, .error e)
  | none =>
    if (credentials (encSecretKey jobId)).isSome then
      (credentials,
        .error "this job already has an encryption key; clear it first to replace it")
    else
      match env.random with
      | .error e => (credentials, .error e)
      | .ok key =>
        match credentials.set env.setFault (encSecretKey jobId) (codec.encode key) with
        | (credentials, .error e) => (credentials, .error e)
        | (credentials, .ok ()) => (credentials, .ok (infoFromKey codec key))

/-! ### Many requests -/

/-- What requests do with the credential store. -/
inductive CredentialCall
  /-- `generate`, with the key it drew. -/
  | generate (jobId : String) (key : FixedBytes 32)
  /-- Store a secret: an imported key, or that of a connection. -/
  | set (name secret : String)
  /-- Delete a secret: a key that is cleared, or that of a connection. -/
  | delete (name : String)
  deriving DecidableEq

namespace CredentialCall

/-- The entry of the credential store that the call writes. -/
def entry : CredentialCall → String
  | generate jobId _ => encSecretKey jobId
  | set name _ | delete name => name

/-- Whether the call generates a key for the job. -/
def generates (jobId : String) : CredentialCall → Bool
  | generate other _ => other = jobId
  | set _ _ | delete _ => false

end CredentialCall

def keyProtocol (codec : KeyCodec) : CheckThenAct.Protocol Credentials CredentialCall where
  check call credentials :=
    match call with
    | .generate jobId _ => credentials (encSecretKey jobId) = none
    | .set _ _ | .delete _ => True
  act call credentials :=
    match call with
    | .generate jobId key => (credentials.set none (encSecretKey jobId) (codec.encode key)).1
    | .set name secret => (credentials.set none name secret).1
    | .delete name => (credentials.delete none name).1

/-- The job's key is neither imported nor cleared, and nothing writes it between the look
and the write of a request that generates it. -/
def WritesAlone (jobId : String) (call : CredentialCall) (since : List CredentialCall) : Prop :=
  if call.generates jobId then ∀ later ∈ since, later.entry ≠ encSecretKey jobId
  else call.entry ≠ encSecretKey jobId

section Generate

variable {codec : KeyCodec} {jobId : String} {call later : CredentialCall}
  {credentials : Credentials} {done : List CredentialCall}

theorem generates_iff :
    call.generates jobId = true ↔ ∃ key, call = .generate jobId key := by
  cases call with
  | generate | set | delete => simp [CredentialCall.generates]

theorem keyProtocol_act_of_ne {name : String} (h : call.entry ≠ name) :
    (keyProtocol codec).act call credentials name = credentials name := by
  have hne : name ≠ call.entry := Ne.symm h
  cases call <;> simp only [CredentialCall.entry] at hne <;>
    simp [keyProtocol, Credentials.set, Credentials.delete, hne]

theorem generate_ok {env : GenerateEnv} {info : EncryptionKeyInfo}
    (h : (generate codec env jobId credentials).2 = .ok info) :
    ∃ key, env.random = .ok key ∧ info = infoFromKey codec key ∧
      (keyProtocol codec).check (.generate jobId key) credentials ∧
      (generate codec env jobId credentials).1 =
        (keyProtocol codec).act (.generate jobId key) credentials := by
  unfold generate at h ⊢
  split at h
  · cases h
  · split at h
    · cases h
    · rename_i hnone
      split at h
      · cases h
      · rename_i key hrand
        cases hset : env.setFault with
        | some => simp [hset, Credentials.set] at h
        | none =>
          simp only [hset, Credentials.set] at h
          cases h
          have habs : credentials (encSecretKey jobId) = none := by simpa using hnone
          refine ⟨key, hrand, rfl, habs, ?_⟩
          simp [*, keyProtocol, Credentials.set]

/-- No key of the job has been generated, or one has been and is the stored key. -/
def GeneratedOnce (codec : KeyCodec) (jobId : String) (credentials : Credentials)
    (done : List CredentialCall) : Prop :=
  done.filter (CredentialCall.generates jobId) = [] ∨
    ∃ key, done.filter (CredentialCall.generates jobId) = [.generate jobId key] ∧
      credentials (encSecretKey jobId) = some (codec.encode key)

theorem GeneratedOnce.other (h : GeneratedOnce codec jobId credentials done)
    (hentry : call.entry ≠ encSecretKey jobId) :
    GeneratedOnce codec jobId ((keyProtocol codec).act call credentials) (call :: done) := by
  have hfilt : (call :: done).filter (CredentialCall.generates jobId) =
      done.filter (CredentialCall.generates jobId) := by
    refine filter_cons_of_neg fun hgenerates => hentry ?_
    obtain ⟨key, rfl⟩ := generates_iff.mp hgenerates
    rfl
  rw [GeneratedOnce, hfilt, keyProtocol_act_of_ne hentry]
  exact h

theorem GeneratedOnce.generate (h : GeneratedOnce codec jobId credentials done)
    {key : FixedBytes 32} (hcheck : (keyProtocol codec).check (.generate jobId key) credentials) :
    GeneratedOnce codec jobId ((keyProtocol codec).act (.generate jobId key) credentials)
      (.generate jobId key :: done) := by
  have hfilt : (CredentialCall.generate jobId key :: done).filter (CredentialCall.generates jobId) =
      .generate jobId key :: done.filter (CredentialCall.generates jobId) :=
    filter_cons_of_pos (by simp [CredentialCall.generates])
  rcases h with hnone | ⟨old, -, hstored⟩
  · refine .inr ⟨key, by rw [hfilt, hnone], ?_⟩
    simp [keyProtocol, Credentials.set]
  · have habs : credentials (encSecretKey jobId) = none := hcheck
    rw [habs] at hstored
    cases hstored

theorem GeneratedOnce.of_reaches {shared : CheckThenAct.Shared Credentials CredentialCall}
    (hreach : CheckThenAct.Reaches (keyProtocol codec) (WritesAlone jobId) (.start credentials)
      shared) :
    GeneratedOnce codec jobId shared.value shared.done := by
  refine CheckThenAct.invariant_of_reaches (.inl rfl) ?_ hreach
  intro call since value done hvalue hallow hcheck
  unfold WritesAlone at hallow
  split at hallow
  · rename_i hgenerates
    obtain ⟨key, rfl⟩ := generates_iff.mp hgenerates
    refine hvalue.generate (hcheck fun later hlater value _ _ habs => ?_)
    -- what was written since was another entry
    exact (keyProtocol_act_of_ne (hallow later hlater)).trans habs
  · exact hvalue.other hallow

/-- In every interleaving in which nothing writes the job's key between the look and the
write of a request, at most one request generates it, and the key it returned is stored
from then on. -/
theorem generate_once {shared next : CheckThenAct.Shared Credentials CredentialCall}
    (hreach : CheckThenAct.Reaches (keyProtocol codec) (WritesAlone jobId) (.start credentials)
      shared)
    (hnext : CheckThenAct.Reaches (keyProtocol codec) (WritesAlone jobId) shared next) :
    (shared.done.filter (CredentialCall.generates jobId)).length ≤ 1 ∧
      ∀ key, .generate jobId key ∈ shared.done →
        next.value (encSecretKey jobId) = some (infoFromKey codec key).key := by
  constructor
  · rcases GeneratedOnce.of_reaches hreach with hnone | ⟨key, hone, -⟩
    · simp [hnone]
    · simp [hone]
  · intro key hkey
    have hlater : .generate jobId key ∈ next.done.filter (CredentialCall.generates jobId) :=
      mem_filter.mpr ⟨hnext.done_subset hkey, by simp [CredentialCall.generates]⟩
    rcases GeneratedOnce.of_reaches (hreach.trans hnext) with hnone | ⟨stored, hone, hstored⟩
    · rw [hnone] at hlater
      cases hlater
    · rw [hone] at hlater
      cases mem_singleton.mp hlater
      exact hstored

end Generate

def sampleCodec : KeyCodec where
  prims := jobPrimitives
  base64Encode bytes := String.ofList (bytes.map fun byte => Char.ofNat (65 + byte.toNat))

def repeatedKey (byte : UInt8) : FixedBytes 32 := FixedBytes.ofBytes 32 (List.replicate 32 byte)

/-- Two requests for the job `a` that have both found no key. -/
def sampleBothLooked : CheckThenAct.Shared Credentials CredentialCall :=
  ((CheckThenAct.Shared.start fun _ => none).check (.generate "a" (repeatedKey 1))).check
    (.generate "a" (repeatedKey 2))

theorem sampleBothLooked_reached (allow : CredentialCall → List CredentialCall → Prop) :
    CheckThenAct.Reaches (keyProtocol sampleCodec) allow (.start fun _ => none) sampleBothLooked := by
  have hfirst : CheckThenAct.Step (keyProtocol sampleCodec) allow (.start fun _ => none)
      ((CheckThenAct.Shared.start fun _ => none).check (.generate "a" (repeatedKey 1))) := .check rfl
  exact .tail (.single hfirst) (.check rfl)

def sampleFirstStored : CheckThenAct.Shared Credentials CredentialCall :=
  sampleBothLooked.act (keyProtocol sampleCodec) (.generate "a" (repeatedKey 1))
    [(.generate "a" (repeatedKey 2), [])]

theorem sampleFirstStored_reached {allow : CredentialCall → List CredentialCall → Prop}
    (hallow : allow (.generate "a" (repeatedKey 1)) []) :
    CheckThenAct.Reaches (keyProtocol sampleCodec) allow (.start fun _ => none) sampleFirstStored :=
  (sampleBothLooked_reached allow).tail
    (@CheckThenAct.Step.act _ _ (keyProtocol sampleCodec) allow sampleBothLooked
      [(.generate "a" (repeatedKey 2), [])] [] (.generate "a" (repeatedKey 1)) [] rfl hallow)

/-- So far its key is the stored one. -/
theorem sampleFirstStored_key :
    sampleFirstStored.value "enc:a" = some (infoFromKey sampleCodec (repeatedKey 1)).key := by
  have halone : WritesAlone "a" (.generate "a" (repeatedKey 1)) [] := by
    simp [WritesAlone, CredentialCall.generates]
  exact (generate_once (sampleFirstStored_reached halone) .refl).2 (repeatedKey 1) mem_cons_self

/-- Both requests succeed, and the key that the first one returned is gone. -/
theorem twoGenerates_lose_key :
    ∃ shared : CheckThenAct.Shared Credentials CredentialCall,
      CheckThenAct.Reaches (keyProtocol sampleCodec) (fun _ _ => True) (.start fun _ => none) shared ∧
        shared.done = [.generate "a" (repeatedKey 2), .generate "a" (repeatedKey 1)] ∧
        shared.value "enc:a" ≠ some (infoFromKey sampleCodec (repeatedKey 1)).key := by
  have hsecond := @CheckThenAct.Step.act _ _ (keyProtocol sampleCodec) (fun _ _ => True)
    sampleFirstStored [] [] (.generate "a" (repeatedKey 2)) [.generate "a" (repeatedKey 1)] rfl trivial
  refine ⟨_, (sampleFirstStored_reached trivial).tail hsecond, rfl, ?_⟩
  have hstored : (keyProtocol sampleCodec).act (.generate "a" (repeatedKey 2)) sampleFirstStored.value
      "enc:a" = some (sampleCodec.encode (repeatedKey 2)) := rfl
  intro hsame
  have hkeys := Option.some.inj (hstored.symm.trans hsame)
  exact absurd hkeys (by decide)

end PbsGui.Engine
