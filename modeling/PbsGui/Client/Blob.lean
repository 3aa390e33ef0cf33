import PbsGui.Client.Primitives

/-!
# DataBlob encoding and decoding, plain and encrypted

`blob.rs` frames a payload as `magic | crc32-le | payload` (uncompressed or zstd), and
`crypt.rs` as `magic | crc32-le | iv | tag | ciphertext`.  Each of the four encodings decodes
to the payload: the plain ones with or without a key, the encrypted ones under the key they
were written with.
-/

namespace PbsGui.Client

open Lib List

/-- Magic for an unencrypted, uncompressed blob. -/
def magicUncompressed : Bytes := [66, 171, 56, 7, 190, 131, 112, 161]
def magicZstd : Bytes := [49, 185, 88, 66, 111, 182, 163, 127]
def magicEncrypted : Bytes := [123, 103, 133, 190, 34, 45, 76, 240]
/-- Magic for an encrypted and compressed blob. -/
def magicEncryptedZstd : Bytes := [230, 89, 27, 191, 11, 191, 216, 11]

/-- Size of the unencrypted blob header (magic and crc). -/
def headerSize : Nat := 12

/-- Size of the encrypted blob header (magic, crc, iv and tag). -/
def encHeaderSize : Nat := 8 + 4 + 16 + 16

/-- Encode a payload as an unencrypted, uncompressed DataBlob. -/
def encodeUncompressed (prims : Primitives) (payload : Bytes) : Bytes :=
  magicUncompressed ++ u32ToLe (prims.crc32 payload) ++ payload

/-- Compress a payload into a standalone zstd frame. -/
def zstdCompress (prims : Primitives) (payload : Bytes) : Bytes :=
  prims.zstdEncode payload

/-- Decompress a standalone zstd frame back to its plaintext. -/
def zstdDecompress (prims : Primitives) (frame : Bytes) : Except PbsError Bytes :=
  match prims.zstdDecode frame with
  | .ok payload => .ok payload
  | .error (.frame text) => .error (.protocol ("zstd frame error: " ++ text))
  | .error (.contents text) => .error (.protocol ("zstd decompression failed: " ++ text))

/-- Frame an already-compressed zstd payload as a zstd DataBlob.  The CRC is
over the compressed bytes. -/
def frameZstd (prims : Primitives) (frame : Bytes) : Bytes :=
  magicZstd ++ u32ToLe (prims.crc32 frame) ++ frame

/-- Encode a payload, compressing it only when that shrinks it. -/
def encodeAuto (prims : Primitives) (payload : Bytes) : Bytes :=
  let compressed := zstdCompress prims payload
  if compressed.length < payload.length then
    frameZstd prims compressed
  else
    encodeUncompressed prims payload

/-- Decode a DataBlob and return its plaintext payload. -/
def decode (prims : Primitives) (blob : Bytes) : Except PbsError Bytes :=
  if blob.length < headerSize then
    .error (.protocol "blob is shorter than the 12 byte header")
  else
    let magic := slice blob 0 8
    let crcStored := u32FromLe (slice blob 8 12)
    let payload := blob.drop headerSize
    let crcActual := prims.crc32 payload
    if crcActual ≠ crcStored then
      .error (.protocol ("blob crc mismatch: stored " ++ hexPadded crcStored ++
        ", computed " ++ hexPadded crcActual))
    else if magic = magicUncompressed then
      .ok payload
    else if magic = magicZstd then
      zstdDecompress prims payload
    else if magic = magicEncrypted ∨ magic = magicEncryptedZstd then
      .error (.protocol "encrypted blob: a CryptConfig is required to decode it")
    else
      .error (.protocol ("unknown blob magic " ++ debugBytes magic))

/-- An encryption key.  The id key the source stores beside it is a function of
it (see `CryptConfig.idKey`). -/
structure CryptConfig where
  encKey : FixedBytes 32
  deriving DecidableEq, Repr

namespace CryptConfig

/-- The derived key that the chunk digests are keyed with. -/
def idKey (prims : Primitives) (crypt : CryptConfig) : FixedBytes 32 :=
  prims.idKey crypt.encKey

/-- The keyed chunk digest, SHA-256 over the data and then the id key. -/
def computeDigest (prims : Primitives) (crypt : CryptConfig) (data : Bytes) : Digest :=
  prims.sha256 (data ++ (crypt.idKey prims).toBytes)

/-- Encrypt `payload` and frame it with the given magic.  `random` is what the
system's random source returns for the 16-byte IV. -/
def encryptWithMagic (prims : Primitives) (crypt : CryptConfig) (payload magic : Bytes)
    (random : Except String (FixedBytes 16)) : Except PbsError Bytes :=
  match random with
  | .error text => .error (.protocol ("failed to generate an IV: " ++ text))
  | .ok iv =>
    match prims.aesGcmEncrypt crypt.encKey iv payload with
    | none => .error (.protocol "encryption failed")
    | some (buffer, tag) =>
      .ok (magic ++ u32ToLe (prims.crc32 buffer) ++ iv.toBytes ++ tag.toBytes ++ buffer)

/-- Encrypt a payload into an AES-256-GCM DataBlob (no compression). -/
def encryptBlob (prims : Primitives) (crypt : CryptConfig) (plaintext : Bytes)
    (random : Except String (FixedBytes 16)) : Except PbsError Bytes :=
  crypt.encryptWithMagic prims plaintext magicEncrypted random

/-- Compress then encrypt a payload.  Compression is applied only when it
shrinks the data. -/
def encryptCompressedBlob (prims : Primitives) (crypt : CryptConfig) (plaintext : Bytes)
    (random : Except String (FixedBytes 16)) : Except PbsError Bytes :=
  let compressed := zstdCompress prims plaintext
  if compressed.length < plaintext.length then
    crypt.encryptWithMagic prims compressed magicEncryptedZstd random
  else
    crypt.encryptWithMagic prims plaintext magicEncrypted random

/-- Decrypt an encrypted DataBlob back to its plaintext payload, decompressing
the encrypted and compressed variant. -/
def decryptBlob (prims : Primitives) (crypt : CryptConfig) (blob : Bytes) :
    Except PbsError Bytes :=
  if blob.length < encHeaderSize then
    .error (.protocol "encrypted blob shorter than its header")
  else
    let magic := slice blob 0 8
    if magic ≠ magicEncrypted ∧ magic ≠ magicEncryptedZstd then
      .error (.protocol "blob is not an AES-256-GCM encrypted blob")
    else
      let compressed := decide (magic ≠ magicEncrypted)
      let crcStored := u32FromLe (slice blob 8 12)
      let iv := FixedBytes.ofBytes 16 (slice blob 12 28)
      let tag := FixedBytes.ofBytes 16 (slice blob 28 44)
      let ciphertext := blob.drop encHeaderSize
      let crcActual := prims.crc32 ciphertext
      if crcActual ≠ crcStored then
        .error (.protocol ("encrypted blob crc mismatch: stored " ++ hexPadded crcStored ++
          ", computed " ++ hexPadded crcActual))
      else
        match prims.aesGcmDecrypt crypt.encKey iv ciphertext tag with
        | none => .error (.protocol "decryption failed (wrong key or corrupt data)")
        | some buffer => if compressed then zstdDecompress prims buffer else .ok buffer

end CryptConfig

/-- The chunk digest: plain SHA-256, or keyed when a key is in use. -/
def chunkDigest (prims : Primitives) (crypt : Option CryptConfig) (data : Bytes) : Digest :=
  match crypt with
  | some config => config.computeDigest prims data
  | none => prims.sha256 data

/-- The encoding the backup side chooses for a chunk or an extra blob. -/
def encodeFor (prims : Primitives) (crypt : Option CryptConfig) (compress : Bool)
    (random : Except String (FixedBytes 16)) (data : Bytes) : Except PbsError Bytes :=
  match crypt, compress with
  | some config, true => config.encryptCompressedBlob prims data random
  | some config, false => config.encryptBlob prims data random
  | none, true => .ok (encodeAuto prims data)
  | none, false => .ok (encodeUncompressed prims data)

/-- Decode a downloaded blob, decrypting it when its magic says it is encrypted. -/
def decodeBlob (prims : Primitives) (raw : Bytes) (crypt : Option CryptConfig) :
    Except PbsError Bytes :=
  if 8 ≤ raw.length ∧
      (slice raw 0 8 = magicEncrypted ∨ slice raw 0 8 = magicEncryptedZstd) then
    match crypt with
    | some config => config.decryptBlob prims raw
    | none => .error (.protocol "this snapshot is encrypted but no encryption key was provided")
  else
    decode prims raw

/-- Decode a downloaded chunk and verify it against the digest it was fetched
by. -/
def decodeAndVerifyChunk (prims : Primitives) (raw : Bytes) (crypt : Option CryptConfig)
    (expected : Digest) : Except PbsError Bytes :=
  match decodeBlob prims raw crypt with
  | .error error => .error error
  | .ok data =>
    if chunkDigest prims crypt data ≠ expected then
      .error (.protocol ("chunk " ++ hexEncode expected.toBytes ++
        " failed verification: its data does not match its digest " ++
        "(corrupt or tampered datastore)"))
    else
      .ok data

/-! ### Reading back what was written -/

variable {magic : Bytes}

@[simp] theorem magicUncompressed_length : magicUncompressed.length = 8 := rfl
@[simp] theorem magicZstd_length : magicZstd.length = 8 := rfl
theorem framed_fields (hmagic : magic.length = 8) (crc : UInt32) (body : Bytes) :
    12 ≤ (magic ++ u32ToLe crc ++ body).length ∧
      slice (magic ++ u32ToLe crc ++ body) 0 8 = magic ∧
      slice (magic ++ u32ToLe crc ++ body) 8 12 = u32ToLe crc ∧
      (magic ++ u32ToLe crc ++ body).drop 12 = body := by
  have hcrc : (u32ToLe crc).length = 4 := u32ToLe_length crc
  refine ⟨by simp only [length_append, hmagic, hcrc]; omega, ?_, ?_, ?_⟩
  · have := slice_append_middle [] magic (u32ToLe crc ++ body)
    simpa [hmagic] using this
  · have := slice_append_middle magic (u32ToLe crc) body
    simpa [hmagic] using this
  · rw [drop_append, drop_of_length_le (by simp [hmagic])]
    simp [hmagic]

theorem decode_framed (prims : Primitives) (hmagic : magic.length = 8) (payload : Bytes) :
    decode prims (magic ++ u32ToLe (prims.crc32 payload) ++ payload) =
      if magic = magicUncompressed then
        .ok payload
      else if magic = magicZstd then
        zstdDecompress prims payload
      else if magic = magicEncrypted ∨ magic = magicEncryptedZstd then
        .error (.protocol "encrypted blob: a CryptConfig is required to decode it")
      else
        .error (.protocol ("unknown blob magic " ++ debugBytes magic)) := by
  obtain ⟨hlen, hfirst, hcrc, hbody⟩ := framed_fields hmagic (prims.crc32 payload) payload
  simp only [decode, headerSize, hfirst, hcrc, hbody, u32FromLe_u32ToLe,
    if_neg (Nat.not_lt.mpr hlen), ne_eq, not_true, if_false]

@[simp] theorem decode_encodeUncompressed (prims : Primitives) (payload : Bytes) :
    decode prims (encodeUncompressed prims payload) = .ok payload := by
  rw [encodeUncompressed, decode_framed prims magicUncompressed_length, if_pos rfl]

@[simp] theorem decode_frameZstd (prims : Primitives) (frame : Bytes) :
    decode prims (frameZstd prims frame) = zstdDecompress prims frame := by
  rw [frameZstd, decode_framed prims magicZstd_length, if_neg (by decide), if_pos rfl]

variable {prims : Primitives}

theorem zstdDecompress_zstdCompress (hlaw : prims.Lawful) (payload : Bytes) :
    zstdDecompress prims (zstdCompress prims payload) = .ok payload := by
  simp only [zstdDecompress, zstdCompress, hlaw.zstd_roundtrip]

theorem decode_encodeAuto (hlaw : prims.Lawful) (payload : Bytes) :
    decode prims (encodeAuto prims payload) = .ok payload := by
  simp only [encodeAuto]
  split
  · rw [decode_frameZstd, zstdDecompress_zstdCompress hlaw]
  · rw [decode_encodeUncompressed]

variable {payload magic blob : Bytes}

variable {random : Except String (FixedBytes 16)}

theorem encryptWithMagic_ok {crypt : CryptConfig}
    (h : crypt.encryptWithMagic prims payload magic random = .ok blob) :
    ∃ (iv tag : FixedBytes 16) (buffer : Bytes), random = .ok iv ∧
      prims.aesGcmEncrypt crypt.encKey iv payload = some (buffer, tag) ∧
        blob = magic ++ u32ToLe (prims.crc32 buffer) ++ (iv.toBytes ++ tag.toBytes ++ buffer) := by
  cases random with
  | error => simp [CryptConfig.encryptWithMagic] at h
  | ok iv =>
    cases hcipher : prims.aesGcmEncrypt crypt.encKey iv payload with
    | none => simp [CryptConfig.encryptWithMagic, hcipher] at h
    | some pair =>
      obtain ⟨buffer, tag⟩ := pair
      simp only [CryptConfig.encryptWithMagic, hcipher, Except.ok.injEq] at h
      exact ⟨iv, tag, buffer, rfl, hcipher, by rw [← h]; simp only [append_assoc]⟩

/-- Under any key, what is read of an encrypted blob is what was framed: the
cipher gets the IV, the ciphertext and the tag back, and the magic says whether
its output is compressed. -/
theorem decryptBlob_framed (prims : Primitives) (crypt : CryptConfig)
    (hmagic : magic = magicEncrypted ∨ magic = magicEncryptedZstd) (iv tag : FixedBytes 16)
    (buffer : Bytes) {blob : Bytes}
    (hblob : blob = magic ++ u32ToLe (prims.crc32 buffer) ++ (iv.toBytes ++ tag.toBytes ++ buffer)) :
    slice blob 0 8 = magic ∧ blob.length = encHeaderSize + buffer.length ∧
      crypt.decryptBlob prims blob =
        match prims.aesGcmDecrypt crypt.encKey iv buffer tag with
        | none => .error (.protocol "decryption failed (wrong key or corrupt data)")
        | some plain => if magic = magicEncrypted then .ok plain else zstdDecompress prims plain := by
  have hlen : magic.length = 8 := by
    rcases hmagic with rfl | rfl <;> rfl
  have hcrcLength : (u32ToLe (prims.crc32 buffer)).length = 4 := u32ToLe_length _
  obtain ⟨-, hfirst, hcrc, -⟩ :=
    framed_fields hlen (prims.crc32 buffer) (iv.toBytes ++ tag.toBytes ++ buffer)
  rw [← hblob] at hfirst hcrc
  -- Magic, checksum, IV and tag are read back from their places in the 44-byte header.
  have hiv : slice blob 12 28 = iv.toBytes := by
    have := slice_append_middle (magic ++ u32ToLe (prims.crc32 buffer)) iv.toBytes
      (tag.toBytes ++ buffer)
    simpa [hblob, hlen, hcrcLength, append_assoc] using this
  have htag : slice blob 28 44 = tag.toBytes := by
    have := slice_append_middle (magic ++ u32ToLe (prims.crc32 buffer) ++ iv.toBytes)
      tag.toBytes buffer
    simpa [hblob, hlen, hcrcLength, append_assoc] using this
  have hbody : blob.drop 44 = buffer := by
    have hwhole : blob =
        (magic ++ u32ToLe (prims.crc32 buffer) ++ iv.toBytes ++ tag.toBytes) ++ buffer := by
      rw [hblob]
      simp only [append_assoc]
    have hhead :
        (magic ++ u32ToLe (prims.crc32 buffer) ++ iv.toBytes ++ tag.toBytes).length = 44 := by
      simp [hlen]
    rw [hwhole, ← hhead, drop_left]
  have hwidth : blob.length = encHeaderSize + buffer.length := by
    rw [hblob]
    simp only [length_append, hlen, hcrcLength, FixedBytes.length_toBytes, encHeaderSize]
    omega
  have hfull : ¬ blob.length < 44 := by
    rw [hwidth, encHeaderSize]
    omega
  have hknown : ¬ (magic ≠ magicEncrypted ∧ magic ≠ magicEncryptedZstd) := by
    tauto
  refine ⟨hfirst, hwidth, ?_⟩
  simp only [CryptConfig.decryptBlob, encHeaderSize, Nat.reduceAdd, if_neg hfull, hfirst,
    if_neg hknown, hcrc, hiv, htag, FixedBytes.ofBytes_toBytes, hbody, u32FromLe_u32ToLe, ne_eq,
    not_true, if_false]
  cases prims.aesGcmDecrypt crypt.encKey iv buffer tag with
  | none => rfl
  | some => by_cases hplain : magic = magicEncrypted <;> simp [hplain]

/-- Decrypting an encrypted blob under its key undoes the encryption, and the
compression when the magic announces it. -/
theorem decryptBlob_encryptWithMagic (hlaw : prims.Lawful) {crypt : CryptConfig}
    (hmagic : magic = magicEncrypted ∨ magic = magicEncryptedZstd)
    (h : crypt.encryptWithMagic prims payload magic random = .ok blob) :
    slice blob 0 8 = magic ∧ 8 ≤ blob.length ∧
      crypt.decryptBlob prims blob =
        if magic = magicEncrypted then .ok payload else zstdDecompress prims payload := by
  obtain ⟨iv, tag, buffer, -, hcipher, hblob⟩ := encryptWithMagic_ok h
  obtain ⟨hfirst, hwidth, hdec⟩ := decryptBlob_framed prims crypt hmagic iv tag buffer hblob
  refine ⟨hfirst, by rw [hwidth, encHeaderSize]; omega, ?_⟩
  rw [hdec, hlaw.aesGcm_roundtrip _ _ _ _ _ hcipher]

theorem decodeBlob_of_plain {raw : Bytes}
    (hplain : slice raw 0 8 = magicUncompressed ∨ slice raw 0 8 = magicZstd)
    (crypt : Option CryptConfig) : decodeBlob prims raw crypt = decode prims raw := by
  unfold decodeBlob
  rw [if_neg]
  rintro ⟨-, hencrypted⟩
  rcases hplain with h | h <;> rw [h] at hencrypted <;> revert hencrypted <;> decide

theorem slice_encodeUncompressed (prims : Primitives) (payload : Bytes) :
    slice (encodeUncompressed prims payload) 0 8 = magicUncompressed :=
  (framed_fields magicUncompressed_length _ _).2.1

theorem slice_frameZstd (prims : Primitives) (frame : Bytes) :
    slice (frameZstd prims frame) 0 8 = magicZstd :=
  (framed_fields magicZstd_length _ _).2.1

theorem decodeBlob_encodeFor_none (hlaw : prims.Lawful) {compress : Bool} {data blob : Bytes}
    (h : encodeFor prims none compress random data = .ok blob) (crypt : Option CryptConfig) :
    decodeBlob prims blob crypt = .ok data := by
  cases compress with
  | false =>
    simp only [encodeFor, Except.ok.injEq] at h
    rw [← h, decodeBlob_of_plain (Or.inl (slice_encodeUncompressed prims data)),
      decode_encodeUncompressed]
  | true =>
    simp only [encodeFor, Except.ok.injEq] at h
    have hplain : slice (encodeAuto prims data) 0 8 = magicUncompressed ∨
        slice (encodeAuto prims data) 0 8 = magicZstd := by
      simp only [encodeAuto]
      split
      · exact Or.inr (slice_frameZstd prims _)
      · exact Or.inl (slice_encodeUncompressed prims data)
    rw [← h, decodeBlob_of_plain hplain, decode_encodeAuto hlaw]

/-- An encrypted encoding is the payload under one magic, or its shorter compressed
form under the other. -/
theorem encodeFor_some_ok {config : CryptConfig} {compress : Bool} {data blob : Bytes}
    (h : encodeFor prims (some config) compress random data = .ok blob) :
    config.encryptWithMagic prims data magicEncrypted random = .ok blob ∨
      compress = true ∧ (zstdCompress prims data).length < data.length ∧
        config.encryptWithMagic prims (zstdCompress prims data) magicEncryptedZstd random =
          .ok blob := by
  cases compress with
  | false =>
    simp only [encodeFor, CryptConfig.encryptBlob] at h
    exact Or.inl h
  | true =>
    simp only [encodeFor, CryptConfig.encryptCompressedBlob] at h
    split at h
    · next hshorter => exact Or.inr ⟨rfl, hshorter, h⟩
    · exact Or.inl h

theorem decodeBlob_encodeFor_some (hlaw : prims.Lawful) {config : CryptConfig} {compress : Bool} {data blob : Bytes}
    (h : encodeFor prims (some config) compress random data = .ok blob) :
    decodeBlob prims blob (some config) = .ok data := by
  rcases encodeFor_some_ok h with hplain | ⟨-, -, hcompressed⟩
  · obtain ⟨hfirst, hlong, hdec⟩ :=
      decryptBlob_encryptWithMagic hlaw (Or.inl rfl) hplain
    simp [decodeBlob, hfirst, hlong, hdec]
  · obtain ⟨hfirst, hlong, hdec⟩ :=
      decryptBlob_encryptWithMagic hlaw (Or.inr rfl) hcompressed
    have hdiffer : magicEncryptedZstd ≠ magicEncrypted := by decide
    simp [decodeBlob, hfirst, hlong, hdec, hdiffer, zstdDecompress_zstdCompress hlaw]

variable {crypt : Option CryptConfig}

/-- Every encoding the backup side can choose is decoded by the restore side
that holds the same key. -/
theorem decodeBlob_encodeFor (hlaw : prims.Lawful) {compress : Bool} {data blob : Bytes}
    (h : encodeFor prims crypt compress random data = .ok blob) :
    decodeBlob prims blob crypt = .ok data := by
  cases crypt with
  | none => exact decodeBlob_encodeFor_none hlaw h none
  | some => exact decodeBlob_encodeFor_some hlaw h

theorem decodeAndVerifyChunk_ok_iff {raw data : Bytes} {expected : Digest} :
    decodeAndVerifyChunk prims raw crypt expected = .ok data ↔
      decodeBlob prims raw crypt = .ok data ∧ chunkDigest prims crypt data = expected := by
  simp only [decodeAndVerifyChunk]
  cases hdec : decodeBlob prims raw crypt with
  | error => simp
  | ok found =>
    by_cases hdig : chunkDigest prims crypt found = expected
    · simp only [hdig, ne_eq, not_true, if_false, Except.ok.injEq]
      constructor
      · rintro rfl
        exact ⟨rfl, hdig⟩
      · exact fun h => h.1
    · simp only [ne_eq, hdig, not_false_eq_true, if_true, reduceCtorEq, false_iff,
        Except.ok.injEq]
      rintro ⟨rfl, h⟩
      exact hdig h

section Keys

variable {prims : Primitives} {config : CryptConfig} {random : Except String (FixedBytes 16)}
  {plain magic blob : Bytes}

/-- An encrypted blob is refused without a key, and under a key its cipher
refuses. -/
theorem decodeBlob_encryptWithMagic_refused
    (hmagic : magic = magicEncrypted ∨ magic = magicEncryptedZstd)
    (h : config.encryptWithMagic prims plain magic random = .ok blob) :
    decodeBlob prims blob none =
        .error (.protocol "this snapshot is encrypted but no encryption key was provided") ∧
      ∀ (keys : Set (FixedBytes 32)) (other : CryptConfig), config.encKey ∈ keys →
        other.encKey ∈ keys → other ≠ config →
        (∀ iv, random = .ok iv → prims.RejectsWrongKey keys iv plain) →
          decodeBlob prims blob (some other) =
            .error (.protocol "decryption failed (wrong key or corrupt data)") := by
  obtain ⟨iv, tag, buffer, hrand, hcipher, hblob⟩ := encryptWithMagic_ok h
  have hdispatch (crypt : CryptConfig) :
      8 ≤ blob.length ∧ (slice blob 0 8 = magicEncrypted ∨ slice blob 0 8 = magicEncryptedZstd) := by
    obtain ⟨hfirst, hwidth, -⟩ := decryptBlob_framed prims crypt hmagic iv tag buffer hblob
    refine ⟨by rw [hwidth, encHeaderSize]; omega, ?_⟩
    rw [hfirst]
    exact hmagic
  refine ⟨?_, fun keys other hconfig hother hdiffer hreject => ?_⟩
  · rw [decodeBlob, if_pos (hdispatch config)]
  · obtain ⟨-, -, hdec⟩ := decryptBlob_framed prims other hmagic iv tag buffer hblob
    have hkeys : other.encKey ≠ config.encKey := by
      intro hsame
      cases other
      cases config
      exact hdiffer (congrArg CryptConfig.mk hsame)
    have href := hreject iv hrand config.encKey hconfig other.encKey hother hkeys
      buffer tag hcipher
    rw [decodeBlob, if_pos (hdispatch config)]
    change other.decryptBlob prims blob = _
    rw [hdec, href]

theorem encryptWithMagic_length (hplace : prims.InPlace)
    (hmagic : magic = magicEncrypted ∨ magic = magicEncryptedZstd)
    (h : config.encryptWithMagic prims plain magic random = .ok blob) :
    blob.length = encHeaderSize + plain.length := by
  obtain ⟨iv, tag, buffer, -, hcipher, hblob⟩ := encryptWithMagic_ok h
  obtain ⟨-, hwidth, -⟩ := decryptBlob_framed prims config hmagic iv tag buffer hblob
  rw [hwidth, hplace _ _ _ _ _ hcipher]

end Keys

theorem encodeAuto_length_le (prims : Primitives) (payload : Bytes) :
    (encodeAuto prims payload).length ≤ (encodeUncompressed prims payload).length := by
  simp only [encodeAuto]
  split
  · next hshorter =>
      simp only [frameZstd, encodeUncompressed, length_append, magicZstd_length,
        magicUncompressed_length, u32ToLe_length]
      omega
  · exact Nat.le_refl _

theorem encryptCompressedBlob_length_le {prims : Primitives} (hplace : prims.InPlace)
    {config : CryptConfig} {payload compressed direct : Bytes}
    {random random' : Except String (FixedBytes 16)}
    (hcompressed : config.encryptCompressedBlob prims payload random = .ok compressed)
    (hdirect : config.encryptBlob prims payload random' = .ok direct) :
    compressed.length ≤ direct.length := by
  rw [encryptWithMagic_length hplace (Or.inl rfl) hdirect]
  rcases @encodeFor_some_ok prims random config true payload compressed hcompressed with
    hplain | ⟨-, hshorter, hzstd⟩
  · rw [encryptWithMagic_length hplace (Or.inl rfl) hplain]
  · rw [encryptWithMagic_length hplace (Or.inr rfl) hzstd]
    omega

/-- **The encodings of a payload.**  Whatever the backup side chooses, the restore
side decodes to the payload with the key that choice needs:

* the plain encodings decode with any key and with none;
* the encrypted encodings decode under their own key, are refused without one,
  and are refused under any other key the cipher tells apart from it;
* the compressing encodings are never longer than the direct ones. -/
theorem decodeBlob_encodings {prims : Primitives} (hlaw : prims.Lawful) (hplace : prims.InPlace)
    {keys : Set (FixedBytes 32)} {config : CryptConfig} (hconfig : config.encKey ∈ keys)
    {payload : Bytes} {random : Except String (FixedBytes 16)}
    (hreject : ∀ iv, random = .ok iv → ∀ plain ∈ [payload, zstdCompress prims payload],
      prims.RejectsWrongKey keys iv plain) :
    (∀ compress blob, encodeFor prims none compress random payload = .ok blob →
      ∀ crypt, decodeBlob prims blob crypt = .ok payload) ∧
    (∀ compress blob, encodeFor prims (some config) compress random payload = .ok blob →
      decodeBlob prims blob (some config) = .ok payload ∧
      decodeBlob prims blob none =
        .error (.protocol "this snapshot is encrypted but no encryption key was provided") ∧
      ∀ other : CryptConfig, other.encKey ∈ keys → other ≠ config →
        decodeBlob prims blob (some other) =
          .error (.protocol "decryption failed (wrong key or corrupt data)")) ∧
    (encodeAuto prims payload).length ≤ (encodeUncompressed prims payload).length ∧
    ∀ random' compressed direct,
      config.encryptCompressedBlob prims payload random = .ok compressed →
      config.encryptBlob prims payload random' = .ok direct →
        compressed.length ≤ direct.length := by
  refine ⟨fun compress blob h => decodeBlob_encodeFor_none hlaw h, fun compress blob h => ?_,
    encodeAuto_length_le prims payload,
    fun random' compressed direct => encryptCompressedBlob_length_le hplace⟩
  refine ⟨decodeBlob_encodeFor_some hlaw h, ?_⟩
  rcases encodeFor_some_ok h with hplain | ⟨-, -, hcompressed⟩
  · obtain ⟨hnone, hother⟩ := decodeBlob_encryptWithMagic_refused (Or.inl rfl) hplain
    exact ⟨hnone, fun other hmem hdiffer => hother keys other hconfig hmem hdiffer
      fun iv hiv => hreject iv hiv payload mem_cons_self⟩
  · obtain ⟨hnone, hother⟩ := decodeBlob_encryptWithMagic_refused (Or.inr rfl) hcompressed
    exact ⟨hnone, fun other hmem hdiffer => hother keys other hconfig hmem hdiffer
      fun iv hiv => hreject iv hiv _ (mem_cons_of_mem _ mem_cons_self)⟩

/-- Primitives whose tag is the first half of the key, and whose zstd shortens
`aaa` to one byte. -/
def taggedPrimitives : Primitives where
  sha256 _ := FixedBytes.ofBytes 32 []
  crc32 _ := 0
  zstdEncode payload :=
    if payload = [97, 97, 97] then [0] else if payload = [0] then [97, 97, 97] else payload
  zstdDecode frame :=
    .ok (if frame = [97, 97, 97] then [0] else if frame = [0] then [97, 97, 97] else frame)
  idKey key := key
  aesGcmEncrypt key _ plain := some (plain, FixedBytes.ofBytes 16 key.toBytes)
  aesGcmDecrypt key _ cipher tag :=
    if tag = FixedBytes.ofBytes 16 key.toBytes then some cipher else none

theorem taggedPrimitives_lawful : taggedPrimitives.Lawful where
  zstd_roundtrip payload := by
    simp only [taggedPrimitives, Except.ok.injEq]
    by_cases hlong : payload = [97, 97, 97]
    · simp [hlong]
    · by_cases hshort : payload = [0]
      · simp [hshort]
      · simp [hlong, hshort]
  aesGcm_roundtrip key iv plain cipher tag h := by
    cases h
    simp [taggedPrimitives]

theorem taggedPrimitives_inPlace : taggedPrimitives.InPlace := by
  intro key iv plain cipher tag h
  obtain ⟨rfl, -⟩ := Prod.mk.inj (Option.some.inj h)
  rfl

/-- A key told apart from others by its first byte. -/
def taggedConfig (first : UInt8) : CryptConfig := { encKey := FixedBytes.ofBytes 32 [first] }

/-- `aaa` is compressed and encrypted to 45 bytes, read under its own key, and
refused without a key and under the other one. -/
theorem taggedPrimitives_encodings :
    ∃ blob, encodeFor taggedPrimitives (some (taggedConfig 1)) true (.ok (FixedBytes.ofBytes 16 []))
        [97, 97, 97] = .ok blob ∧ blob.length = 45 ∧
      decodeBlob taggedPrimitives blob (some (taggedConfig 1)) = .ok [97, 97, 97] ∧
      decodeBlob taggedPrimitives blob none =
        .error (.protocol "this snapshot is encrypted but no encryption key was provided") ∧
      decodeBlob taggedPrimitives blob (some (taggedConfig 2)) =
        .error (.protocol "decryption failed (wrong key or corrupt data)") := by
  have hreject : ∀ iv plain, taggedPrimitives.RejectsWrongKey
      {(taggedConfig 1).encKey, (taggedConfig 2).encKey} iv plain := by
    rintro iv plain key (rfl | rfl) other (rfl | rfl) hdiffer cipher tag h
    · exact absurd rfl hdiffer
    · obtain ⟨-, rfl⟩ := Prod.mk.inj (Option.some.inj h)
      simp only [taggedPrimitives]
      rw [if_neg (by decide)]
    · obtain ⟨-, rfl⟩ := Prod.mk.inj (Option.some.inj h)
      simp only [taggedPrimitives]
      rw [if_neg (by decide)]
    · exact absurd rfl hdiffer
  obtain ⟨-, hencrypted, -, -⟩ := @decodeBlob_encodings taggedPrimitives taggedPrimitives_lawful
    taggedPrimitives_inPlace {(taggedConfig 1).encKey, (taggedConfig 2).encKey} (taggedConfig 1)
    (Or.inl rfl) [97, 97, 97] (.ok (FixedBytes.ofBytes 16 [])) (fun iv _ plain _ => hreject iv plain)
  obtain ⟨hown, hnone, hother⟩ := hencrypted true _ rfl
  exact ⟨_, rfl, by decide, hown, hnone, hother (taggedConfig 2) (Or.inr rfl) (by decide)⟩

end PbsGui.Client
