import Mathlib.Data.Set.Defs
import PbsGui.Lib.Bytes

/-!
# The ground the PBS client stands on

The client's error type, and the third-party primitives it calls: SHA-256,
CRC-32, zstd, AES-256-GCM and the key derivation.  None of these is part of
the repository, so they enter as one record of functions, `Primitives`; what
the client relies on is stated separately in `Primitives.Lawful`.
-/

namespace PbsGui.Client

open Lib

abbrev Digest := FixedBytes 32

/-- The kinds of I/O error the modelled code distinguishes. -/
inductive IoErrorKind
  | unexpectedEof
  | invalidData
  | invalidInput
  | brokenPipe
  | other
  deriving DecidableEq, Repr

/-- An I/O error: its kind and its text. -/
structure IoError where
  kind : IoErrorKind
  text : String
  deriving DecidableEq, Repr

/-- Errors produced while talking to a Proxmox Backup Server. -/
inductive PbsError
  | invalidRepository (text : String)
  | auth (text : String)
  | fingerprintMismatch (expected actual : String)
  | protocol (text : String)
  | io (error : IoError)
  deriving DecidableEq, Repr

def PbsError.text : PbsError → String
  | .invalidRepository text => "invalid repository string: " ++ text
  | .auth text => "authentication failed: " ++ text
  | .fingerprintMismatch expected actual =>
    "server fingerprint mismatch: expected " ++ expected ++ ", got " ++ actual
  | .protocol text => "protocol error: " ++ text
  | .io error => error.text

/-- How a zstd frame can fail to decode: its header, or its contents. -/
inductive ZstdError
  | frame (text : String)
  | contents (text : String)
  deriving DecidableEq, Repr

/-- The third-party functions of the client.

`idKey` is the 32-byte output of PBKDF2-HMAC-SHA256 on the encryption key with
the salt `_id_key` and 10 iterations. -/
structure Primitives where
  sha256 : Bytes → Digest
  crc32 : Bytes → UInt32
  zstdEncode : Bytes → Bytes
  zstdDecode : Bytes → Except ZstdError Bytes
  idKey : FixedBytes 32 → FixedBytes 32
  aesGcmEncrypt : FixedBytes 32 → FixedBytes 16 → Bytes → Option (Bytes × FixedBytes 16)
  aesGcmDecrypt : FixedBytes 32 → FixedBytes 16 → Bytes → FixedBytes 16 → Option Bytes

/-- The documented behaviour the client relies on: zstd and AES-GCM decode what
they encode. -/
structure Primitives.Lawful (prims : Primitives) : Prop where
  zstd_roundtrip : ∀ payload, prims.zstdDecode (prims.zstdEncode payload) = .ok payload
  aesGcm_roundtrip : ∀ key iv plain cipher tag,
    prims.aesGcmEncrypt key iv plain = some (cipher, tag) →
      prims.aesGcmDecrypt key iv cipher tag = some plain

/-- The cipher writes over the buffer it is given (`encrypt_in_place_detached`), so
a ciphertext is as long as its plaintext. -/
def Primitives.InPlace (prims : Primitives) : Prop :=
  ∀ key iv plain cipher tag,
    prims.aesGcmEncrypt key iv plain = some (cipher, tag) → cipher.length = plain.length

/-- Among these keys, a ciphertext of `plain` under one is refused under another.
The tag has 16 bytes and a key 32, so no cipher does this for all keys at once. -/
def Primitives.RejectsWrongKey (prims : Primitives) (keys : Set (FixedBytes 32))
    (iv : FixedBytes 16) (plain : Bytes) : Prop :=
  ∀ key ∈ keys, ∀ other ∈ keys, other ≠ key → ∀ cipher tag,
    prims.aesGcmEncrypt key iv plain = some (cipher, tag) →
      prims.aesGcmDecrypt other iv cipher tag = none

def hexDigit (value : Nat) : Char :=
  if value < 10 then Char.ofNat (48 + value) else Char.ofNat (87 + value)

/-- The `hex` crate's `encode`: two lowercase digits a byte. -/
def hexEncode (bytes : Bytes) : String :=
  String.ofList (bytes.flatMap fun byte =>
    [hexDigit (byte.toNat / 16), hexDigit (byte.toNat % 16)])

/-- The format `#010x` of a 32-bit number: `0x` and eight lowercase digits. -/
def hexPadded (value : UInt32) : String :=
  "0x" ++ hexEncode (leBytes 4 value.toNat).reverse

/-- The debug format of a byte array, `[1, 2, 3]`. -/
def debugBytes (bytes : Bytes) : String :=
  "[" ++ ", ".intercalate (bytes.map fun byte => toString byte.toNat) ++ "]"

end PbsGui.Client
