import Mathlib.Data.Bool.AllAny
import PbsGui.Client.Http

/-!
# Chunked responses

A chunked body is a list of chunks, each with a line that gives its size in hexadecimal,
a last line with the size zero and a trailer.  However the sizes are spelled and whatever the
data looks like, it decodes to the data of its chunks.
-/

namespace PbsGui.Client

open Lib List

/-- The first line of a chunk: a size in hexadecimal, with digits of either case, and
possibly an extension after a semicolon. -/
structure SizeLine where
  digits : Bytes
  extension : Option Bytes
  digits_ne_nil : digits ≠ []
  digits_hex : ∀ digit ∈ digits, (digitValue 16 (byteChar digit)).isSome = true
  extension_line : ∀ text, extension = some text → ¬ crlf <:+: text

namespace SizeLine

def text (line : SizeLine) : List Char := line.digits.map byteChar

def value (line : SizeLine) : Nat := numeralValue 16 line.text 0

def bytes (line : SizeLine) : Bytes :=
  line.digits ++ line.extension.elim [] (59 :: ·)

end SizeLine

/-- A chunk with data, whose length is that of a slice in memory. -/
structure Chunk where
  line : SizeLine
  data : Bytes
  data_ne_nil : data ≠ []
  line_value : line.value = data.length
  data_fits : data.length < usizeLimit

def Chunk.bytes (chunk : Chunk) : Bytes :=
  chunk.line.bytes ++ crlf ++ (chunk.data ++ crlf)

/-- The chunked encoding of some chunks, with the line of the last chunk and a trailer. -/
def chunkedBody (chunks : List Chunk) (last : SizeLine) (trailer : Bytes) : Bytes :=
  chunks.flatMap Chunk.bytes ++ (last.bytes ++ crlf ++ trailer)

section Lines

variable {byte : UInt8} {rest : Bytes}

theorem hexDigit_plain (h : (digitValue 16 (byteChar byte)).isSome = true) :
    byte.toNat < 0x80 ∧ byteChar byte ≠ ';' ∧ byte ≠ 13 := by
  have hrange := digitValue_range h
  rw [byteChar_toNat] at hrange
  refine ⟨by omega, fun heq => ?_, fun heq => ?_⟩
  · have hsemicolon : byte.toNat = 59 := by rw [← byteChar_toNat, heq]; rfl
    omega
  · rw [heq] at hrange
    exact absurd hrange (by decide)

theorem crlf_infix_cons (hbyte : byte ≠ 13) (h : crlf <:+: byte :: rest) : crlf <:+: rest := by
  rcases infix_cons_iff.mp h with hhere | hlater
  · obtain ⟨more, hmore⟩ := hhere
    exact absurd (head_eq_of_cons_eq hmore).symm hbyte
  · exact hlater

theorem crlf_infix_append {left : Bytes} (hleft : ∀ byte ∈ left, byte ≠ 13)
    (h : crlf <:+: left ++ rest) : crlf <:+: rest := by
  induction left with
  | nil => exact h
  | cons first left ih =>
    exact ih (forall_mem_cons.mp hleft).2
      (crlf_infix_cons (hleft first mem_cons_self) h)

namespace SizeLine

theorem not_crlf (line : SizeLine) : ¬ crlf <:+: line.bytes := by
  intro h
  have hextension := crlf_infix_append
    (fun digit hdigit => (hexDigit_plain (line.digits_hex digit hdigit)).2.2) h
  cases hext : line.extension with
  | none =>
    rw [hext] at hextension
    exact absurd hextension (by decide)
  | some text =>
    rw [hext] at hextension
    exact line.extension_line text hext (crlf_infix_cons (by decide) hextension)

theorem isSome_of_mem_text {line : SizeLine} {c : Char} (h : c ∈ line.text) :
    (digitValue 16 c).isSome = true ∧ c ≠ ';' := by
  obtain ⟨digit, hdigit, rfl⟩ := mem_map.mp h
  have hhex := line.digits_hex digit hdigit
  exact ⟨hhex, (hexDigit_plain hhex).2.1⟩

theorem text_ne_nil (line : SizeLine) : line.text ≠ [] := by
  simpa [text] using line.digits_ne_nil

theorem trim_text (line : SizeLine) : trim line.text = line.text := by
  refine trim_eq_self (fun c hc => ?_) (fun c hc => ?_)
  · exact isWhiteSpace_digit (isSome_of_mem_text (mem_of_mem_head? hc)).1
  · exact isWhiteSpace_digit (isSome_of_mem_text (mem_of_getLast? hc)).1

theorem takeWhile_line (line : SizeLine) :
    (trim (fromUtf8Lossy line.bytes)).takeWhile (· ≠ ';') = line.text := by
  have hfront : fromUtf8Lossy line.bytes =
      line.text ++ fromUtf8Lossy (line.extension.elim [] (59 :: ·)) :=
    fromUtf8Lossy_front
      (fun digit hdigit => (hexDigit_plain (line.digits_hex digit hdigit)).1) _
  have hplain : ∀ c ∈ line.text, decide (c ≠ ';') = true :=
    fun c hc => decide_eq_true (isSome_of_mem_text hc).2
  rw [hfront]
  cases line.extension with
  | none =>
    rw [Option.elim_none, fromUtf8Lossy_nil, append_nil, trim_text,
      ← append_nil line.text, takeWhile_append_of_pos hplain, takeWhile_nil]
  | some text =>
    -- trimming stops at the semicolon at the latest
    have hsemicolon : fromUtf8Lossy (59 :: text) = ';' :: fromUtf8Lossy text :=
      fromUtf8Lossy_append (by decide) [] text
    have hstart : trimStart (line.text ++ ';' :: fromUtf8Lossy text) =
        line.text ++ ';' :: fromUtf8Lossy text := by
      obtain ⟨first, rest, hfirst⟩ := exists_cons_of_ne_nil line.text_ne_nil
      have hmem : first ∈ line.text := by
        rw [hfirst]
        exact mem_cons_self
      rw [hfirst, cons_append]
      exact trimStart_cons (isWhiteSpace_digit (isSome_of_mem_text hmem).1) _
    rw [Option.elim_some, hsemicolon, trim, hstart, trimEnd_append (by decide),
      takeWhile_append_of_pos hplain, takeWhile_cons_of_neg (by simp), append_nil]

theorem chunkSize_bytes (line : SizeLine) (h : line.value < usizeLimit) :
    chunkSize line.bytes = some line.value := by
  rw [chunkSize, takeWhile_line, trim_text]
  exact fromStrRadix_digits (by decide) line.text_ne_nil
    (fun c hc => (isSome_of_mem_text hc).1) h

end SizeLine

end Lines

theorem dechunkFrom_chunkedBody (out : Bytes) (chunks : List Chunk) {last : SizeLine}
    (hlast : last.value = 0) (trailer : Bytes) :
    dechunkFrom out (chunkedBody chunks last trailer) =
      some (.ok (out ++ chunks.flatMap Chunk.data)) := by
  induction chunks generalizing out with
  | nil =>
    have hsize : chunkSize last.bytes = some 0 := by
      rw [← hlast]
      exact last.chunkSize_bytes (by rw [hlast]; decide)
    have hround : dechunkRound (last.bytes ++ crlf ++ trailer) = some (.ok none) := by
      rw [dechunkRound_line last.not_crlf, hsize]
      rfl
    rw [chunkedBody, flatMap_nil, nil_append, dechunkFrom_eq, hround, flatMap_nil, append_nil]
  | cons chunk chunks ih =>
    have hsize : chunkSize chunk.line.bytes = some chunk.data.length := by
      rw [← chunk.line_value]
      exact chunk.line.chunkSize_bytes (by rw [chunk.line_value]; exact chunk.data_fits)
    have hround : dechunkRound (chunkedBody (chunk :: chunks) last trailer) =
        some (.ok (some (chunk.data, chunkedBody chunks last trailer))) := by
      refine dechunkRound_eq_chunk_iff.mpr
        ⟨chunk.line.bytes, crlf, ?_, chunk.line.not_crlf, hsize, chunk.data_ne_nil, rfl⟩
      simp only [chunkedBody, flatMap_cons, Chunk.bytes, append_assoc]
    rw [dechunkFrom_eq, hround]
    simp only [ih, flatMap_cons, append_assoc]

/-- The head of a response: the status line and the header fields, one a line. -/
structure ResponseHead where
  version : Bytes
  code : Nat
  reason : Option Bytes
  fields : List Bytes
  version_ne_nil : version ≠ []
  version_plain : ∀ byte ∈ version, 0x21 ≤ byte.toNat ∧ byte.toNat ≤ 0x7E
  code_lt : code < 1000
  reason_line : ∀ text, reason = some text → 10 ∉ text
  fields_line : ∀ field ∈ fields, field ≠ [] ∧ 10 ∉ field

namespace ResponseHead

def codeBytes (head : ResponseHead) : Bytes :=
  (Nat.toDigits 10 head.code).map fun c => UInt8.ofNat c.toNat

def statusStart (head : ResponseHead) : Bytes := head.version ++ 32 :: head.codeBytes

def statusLine (head : ResponseHead) : Bytes :=
  head.statusStart ++ head.reason.elim [] (32 :: ·)

def bytes (head : ResponseHead) : Bytes :=
  head.statusLine ++ head.fields.flatMap (crlf ++ ·)

def IsSuccess (head : ResponseHead) : Prop := 200 ≤ head.code ∧ head.code < 300

/-- A field says, in letters of either case, that the body is chunked. -/
def SaysChunked (head : ResponseHead) : Prop :=
  ∃ field ∈ head.fields,
    (field.map byteChar).map Char.toLower = "transfer-encoding: chunked".toList

end ResponseHead

section HeaderEnd

variable {line field rest : Bytes}

theorem not_startsWith_headerEnd {first : UInt8} (h : rest.head? ≠ some 10) :
    ¬ headerEnd <+: first :: rest := by
  rintro ⟨more, hmore⟩
  apply h
  rw [← tail_eq_of_cons_eq hmore]
  rfl

theorem head?_line (hline : 10 ∉ line) (hrest : rest.head? = some 13) :
    (line ++ rest).head? ≠ some 10 := by
  cases line with
  | nil =>
    rw [nil_append, hrest]
    decide
  | cons =>
    rintro ⟨⟩
    exact hline mem_cons_self

theorem findSubsequence_line (hline : 10 ∉ line) (hrest : rest.head? = some 13) :
    findSubsequence headerEnd (line ++ rest) =
      (findSubsequence headerEnd rest).map (· + line.length) := by
  induction line with
  | nil => simp
  | cons first line ih =>
    have hmore : 10 ∉ line := fun h => hline (mem_cons_of_mem _ h)
    rw [cons_append, findSubsequence,
      if_neg (not_startsWith_headerEnd (head?_line hmore hrest)), ih hmore, Option.map_map]
    rfl

theorem findSubsequence_lineBreak (hsome : field ≠ []) (hfield : 10 ∉ field)
    (hrest : rest.head? = some 13) :
    findSubsequence headerEnd (crlf ++ (field ++ rest)) =
      (findSubsequence headerEnd (field ++ rest)).map (· + 2) := by
  have hret : ¬ headerEnd <+: 13 :: 10 :: (field ++ rest) := by
    cases field with
    | nil => exact absurd rfl hsome
    | cons first field =>
      have hmore : 10 ∉ field := fun h => hfield (mem_cons_of_mem _ h)
      rintro ⟨more, heq⟩
      have htail : 10 :: more = field ++ rest :=
        tail_eq_of_cons_eq (tail_eq_of_cons_eq (tail_eq_of_cons_eq heq))
      exact head?_line hmore hrest (by rw [← htail]; rfl)
  have hfeed : ¬ headerEnd <+: 10 :: (field ++ rest) := by
    rintro ⟨more, heq⟩
    exact absurd (head_eq_of_cons_eq heq) (by decide)
  rw [crlf, cons_append, cons_append, nil_append, findSubsequence, if_neg hret,
    findSubsequence, if_neg hfeed, Option.map_map]
  rfl

theorem findSubsequence_fields {fields : List Bytes}
    (hfields : ∀ field ∈ fields, field ≠ [] ∧ 10 ∉ field) (body : Bytes) :
    findSubsequence headerEnd (fields.flatMap (crlf ++ ·) ++ (headerEnd ++ body)) =
      some (fields.flatMap (crlf ++ ·)).length := by
  induction fields with
  | nil =>
    exact findSubsequence_eq_some_iff.mpr
      ⟨Nat.succ_pos _, prefix_append _ _, fun _ h => absurd h (Nat.not_lt_zero _)⟩
  | cons field fields ih =>
    obtain ⟨hsome, hfield⟩ := hfields field mem_cons_self
    have hrest : (fields.flatMap (crlf ++ ·) ++ (headerEnd ++ body)).head? = some 13 := by
      cases fields <;> rfl
    rw [flatMap_cons, append_assoc, append_assoc, findSubsequence_lineBreak hsome hfield hrest,
      findSubsequence_line hfield hrest, ih (forall_mem_cons.mp hfields).2]
    simp only [Option.map_some, length_append, crlf, length_cons, length_nil, Option.some.injEq]
    omega

theorem ResponseHead.digit_range {head : ResponseHead} {c : Char}
    (h : c ∈ Nat.toDigits 10 head.code) : 48 ≤ c.toNat ∧ c.toNat ≤ 57 := by
  have hdigit := Nat.isDigit_of_mem_toDigits (by decide) (by decide) h
  simp only [Char.isDigit, Bool.and_eq_true, decide_eq_true_eq] at hdigit
  exact hdigit

theorem ResponseHead.statusStart_plain (head : ResponseHead) :
    ∀ byte ∈ head.statusStart, 0x20 ≤ byte.toNat ∧ byte.toNat < 0x80 := by
  intro byte hbyte
  rcases mem_append.mp hbyte with hver | hcode
  · have := head.version_plain byte hver
    omega
  · rcases mem_cons.mp hcode with rfl | hcode
    · decide
    · obtain ⟨c, hc, rfl⟩ := mem_map.mp hcode
      have hrange := digit_range hc
      have htoNat : (UInt8.ofNat c.toNat).toNat = c.toNat :=
        UInt8.toNat_ofNat_of_lt' (Nat.lt_of_le_of_lt hrange.2 (by decide))
      omega

theorem ResponseHead.findSubsequence_bytes (head : ResponseHead) (body : Bytes) :
    findSubsequence headerEnd (head.bytes ++ (headerEnd ++ body)) = some head.bytes.length := by
  have hstat : 10 ∉ head.statusLine := by
    intro hmem
    rcases mem_append.mp hmem with hstart | hreason
    · exact absurd (head.statusStart_plain 10 hstart).1 (by decide)
    · cases hphrase : head.reason with
      | none =>
        rw [hphrase] at hreason
        exact absurd hreason not_mem_nil
      | some text =>
        rw [hphrase] at hreason
        rcases mem_cons.mp hreason with heq | htext
        · exact absurd heq (by decide)
        · exact head.reason_line text hphrase htext
  have hrest : (head.fields.flatMap (crlf ++ ·) ++ (headerEnd ++ body)).head? = some 13 := by
    cases head.fields <;> rfl
  rw [ResponseHead.bytes, append_assoc, findSubsequence_line hstat hrest,
    findSubsequence_fields head.fields_line, length_append, Option.map_some, Nat.add_comm]

end HeaderEnd

/-! ### The status line -/

section StatusLine

variable {start later : List Char}

theorem firstLine_append (hline : '\n' ∉ start)
    (hlast : start.getLast? ≠ some '\r') (later : List Char) :
    ∃ more, firstLine (start ++ later) = start ++ more := by
  unfold firstLine
  split
  · exact ⟨later, rfl⟩
  · rename_i line rest hsplit
    obtain ⟨hfirst, heq⟩ := splitOnce_eq_some_iff.mp hsplit
    obtain ⟨more, rfl⟩ : ∃ more, line = start ++ more := by
      rcases append_eq_append_iff.mp heq with ⟨more, hmore, -⟩ | ⟨more, hmore, hlater⟩
      · exact ⟨more, hmore⟩
      · cases more with
        | nil => exact ⟨[], by rw [hmore, append_nil, append_nil]⟩
        | cons =>
          cases hlater
          exact absurd (hmore ▸ mem_append_right line mem_cons_self) hline
    split
    · rename_i hret
      have hmore : more ≠ [] := by
        rintro rfl
        rw [append_nil] at hret
        exact hlast hret
      exact ⟨more.dropLast, dropLast_append_of_ne_nil hmore⟩
    · exact ⟨more, rfl⟩

theorem firstLine_crlf (hline : '\n' ∉ start) (later : List Char) :
    firstLine (start ++ '\r' :: '\n' :: later) = start := by
  have hsplit : splitOnce '\n' (start ++ '\r' :: '\n' :: later) = some (start ++ ['\r'], later) := by
    refine splitOnce_eq_some_iff.mpr ⟨?_, by simp⟩
    rw [mem_append, mem_singleton]
    exact not_or.mpr ⟨hline, by decide⟩
  rw [firstLine, hsplit]
  simp

/-- The second word of a status line is what stands between its first two blanks. -/
theorem words_second {version code rest : List Char} (hver : version ≠ [])
    (hversionWord : ∀ c ∈ version, isWhiteSpace c = false) (hcode : code ≠ [])
    (hcodeWord : ∀ c ∈ code, isWhiteSpace c = false)
    (hrest : rest = [] ∨ ∃ more, rest = ' ' :: more) :
    (words (version ++ ' ' :: (code ++ rest)))[1]? = some code := by
  have hfirst : (version ++ ' ' :: (code ++ rest)).splitOnP isWhiteSpace =
      version :: (code ++ rest).splitOnP isWhiteSpace :=
    splitOnP_append_cons_of_forall_mem hversionWord ' ' (by decide) _
  rw [words, hfirst]
  rcases hrest with rfl | ⟨more, rfl⟩
  · rw [append_nil, splitOnP_eq_singleton hcodeWord]
    simp [hver, hcode]
  · rw [splitOnP_append_cons_of_forall_mem hcodeWord ' ' (by decide)]
    simp [hver, hcode]

namespace ResponseHead

variable (head : ResponseHead)

theorem codeBytes_text : head.codeBytes.map byteChar = Nat.toDigits 10 head.code := by
  rw [codeBytes, map_map]
  refine (map_congr_left fun c hc => ?_).trans (map_id _)
  have hrange := digit_range hc
  have htoNat : (UInt8.ofNat c.toNat).toNat = c.toNat :=
    UInt8.toNat_ofNat_of_lt' (Nat.lt_of_le_of_lt hrange.2 (by decide))
  rw [Function.comp_apply, byteChar, htoNat, Char.ofNat_toNat, id]

theorem version_word : ∀ c ∈ head.version.map byteChar, isWhiteSpace c = false := by
  intro c hc
  obtain ⟨byte, hbyte, rfl⟩ := mem_map.mp hc
  have hplain := head.version_plain byte hbyte
  simp only [isWhiteSpace, byteChar_toNat, Bool.or_eq_false_iff, Bool.and_eq_false_iff,
    decide_eq_false_iff_not, mem_cons, not_mem_nil, or_false]
  omega

theorem code_word : ∀ c ∈ Nat.toDigits 10 head.code, isWhiteSpace c = false := by
  intro c hc
  have hdigit := Nat.isDigit_of_mem_toDigits (by decide) (by decide) hc
  apply isWhiteSpace_digit
  rw [digitValue_of_isDigit hdigit]
  rfl

theorem statusStart_printable : ∀ c ∈ head.statusStart.map byteChar, 0x20 ≤ c.toNat := by
  intro c hc
  obtain ⟨byte, hbyte, rfl⟩ := mem_map.mp hc
  rw [byteChar_toNat]
  exact (head.statusStart_plain byte hbyte).1

/-- The first line of a header: the status line up to the code, and nothing or a blank
behind it. -/
theorem firstLine_bytes :
    ∃ more, firstLine (fromUtf8Lossy head.bytes) = head.statusStart.map byteChar ++ more ∧
      (more = [] ∨ ∃ reason, more = ' ' :: reason) := by
  have hstart : ∀ rest, fromUtf8Lossy (head.statusStart ++ rest) =
      head.statusStart.map byteChar ++ fromUtf8Lossy rest :=
    fromUtf8Lossy_front fun byte hbyte => (head.statusStart_plain byte hbyte).2
  have hline : '\n' ∉ head.statusStart.map byteChar :=
    fun hmem => absurd (head.statusStart_printable '\n' hmem) (by decide)
  rw [bytes, statusLine]
  cases head.reason with
  | some text =>
    have hblank : fromUtf8Lossy (32 :: (text ++ head.fields.flatMap (crlf ++ ·))) =
        ' ' :: fromUtf8Lossy (text ++ head.fields.flatMap (crlf ++ ·)) :=
      fromUtf8Lossy_append (by decide) [] _
    have hblankLine : '\n' ∉ head.statusStart.map byteChar ++ [' '] := by
      rw [mem_append, mem_singleton]
      exact not_or.mpr ⟨hline, by decide⟩
    obtain ⟨more, hmore⟩ := firstLine_append hblankLine (by simp)
      (fromUtf8Lossy (text ++ head.fields.flatMap (crlf ++ ·)))
    refine ⟨' ' :: more, ?_, .inr ⟨more, rfl⟩⟩
    rw [Option.elim_some, append_assoc, cons_append, hstart, hblank]
    simpa only [append_assoc, singleton_append] using hmore
  | none =>
    refine ⟨[], ?_, .inl rfl⟩
    rw [Option.elim_none, append_nil, hstart, append_nil]
    cases head.fields with
    | nil =>
      rw [flatMap_nil, fromUtf8Lossy_nil, append_nil, firstLine, splitOnce_eq_none_iff.mpr hline]
    | cons field fields =>
      have hbreak : fromUtf8Lossy ((field :: fields).flatMap (crlf ++ ·)) =
          '\r' :: '\n' :: fromUtf8Lossy (field ++ fields.flatMap (crlf ++ ·)) := by
        rw [flatMap_cons, append_assoc]
        exact fromUtf8Lossy_front (by simp [crlf]) _
      rw [hbreak, firstLine_crlf hline]

theorem statusCode_bytes : statusCode (firstLine (fromUtf8Lossy head.bytes)) = head.code := by
  obtain ⟨more, hline, hmore⟩ := head.firstLine_bytes
  have hver : head.version.map byteChar ≠ [] := by simpa using head.version_ne_nil
  have hlimit : head.code < 2 ^ 16 := Nat.lt_trans head.code_lt (by decide)
  rw [hline, statusStart, map_append, map_cons, codeBytes_text, append_assoc, cons_append,
    show byteChar 32 = ' ' from rfl, statusCode,
    words_second hver head.version_word Nat.toDigits_ne_nil head.code_word hmore,
    Option.bind_some, fromStrRadix_toDigits hlimit, Option.getD_some]

theorem chunked_field_plain {field : Bytes}
    (h : (field.map byteChar).map Char.toLower = "transfer-encoding: chunked".toList) :
    ∀ byte ∈ field, byte.toNat < 0x80 := by
  intro byte hbyte
  have hmem : (byteChar byte).toLower ∈ "transfer-encoding: chunked".toList := by
    rw [← h]
    exact mem_map_of_mem (mem_map_of_mem hbyte)
  have hsmall : ∀ c ∈ "transfer-encoding: chunked".toList, c.toNat < 0x80 :=
    all_iff_forall_prop.mp (by decide)
  by_contra hlarge
  have hlower : (byteChar byte).toLower = byteChar byte := by
    refine dif_neg fun hupper => hlarge ?_
    have hle : (byteChar byte).toNat ≤ 'Z'.toNat := hupper.2
    rw [byteChar_toNat] at hle
    exact Nat.lt_of_le_of_lt hle (by decide)
  have := hsmall _ hmem
  rw [hlower, byteChar_toNat] at this
  exact hlarge this

theorem isChunked_bytes (h : head.SaysChunked) :
    isChunked (fromUtf8Lossy head.bytes) = true := by
  obtain ⟨field, hmem, hfield⟩ := h
  obtain ⟨before, after, hsplit⟩ := append_of_mem hmem
  have hsome : field ≠ [] := (head.fields_line field hmem).1
  have hbytes : head.bytes = head.statusLine ++ before.flatMap (crlf ++ ·) ++ crlf ++ field ++
      after.flatMap (crlf ++ ·) := by
    rw [bytes, hsplit, flatMap_append, flatMap_cons]
    simp only [append_assoc]
  rw [isChunked, hbytes, fromUtf8Lossy_block (chunked_field_plain hfield) hsome]
  refine findSubsequence_isSome (by decide) ?_
  rw [map_append, map_append, hfield]
  exact infix_append _ _ _

end ResponseHead

end StatusLine

/-- A chunked body decodes to the data of its chunks, whatever the data, the spelling of
the sizes, the extensions and the trailer are; a response with it and a successful status
returns the data, and one with another status is an error. -/
theorem chunked_response_decoded (chunks : List Chunk) {last : SizeLine} (hlast : last.value = 0)
    (trailer : Bytes) :
    dechunk (chunkedBody chunks last trailer) = some (.ok (chunks.flatMap Chunk.data)) ∧
      ∀ head : ResponseHead, head.SaysChunked →
        (head.IsSuccess →
          parseHttpResponse (head.bytes ++ (headerEnd ++ chunkedBody chunks last trailer)) =
            some (.ok (chunks.flatMap Chunk.data))) ∧
        (¬ head.IsSuccess →
          ∃ error, parseHttpResponse
            (head.bytes ++ (headerEnd ++ chunkedBody chunks last trailer)) =
              some (.error error)) := by
  have hdechunk : dechunk (chunkedBody chunks last trailer) =
      some (.ok (chunks.flatMap Chunk.data)) :=
    dechunkFrom_chunkedBody [] chunks hlast trailer
  refine ⟨hdechunk, fun head hchunked => ?_⟩
  have hbody : (head.bytes ++ (headerEnd ++ chunkedBody chunks last trailer)).drop
      (head.bytes.length + 4) = chunkedBody chunks last trailer := by
    rw [← append_assoc]
    exact drop_left' (by simp [headerEnd])
  have hparse := parseHttpResponse_header
    (head.findSubsequence_bytes (chunkedBody chunks last trailer))
  rw [take_left, hbody, if_pos (head.isChunked_bytes hchunked), hdechunk, Option.map_some,
    head.statusCode_bytes] at hparse
  constructor
  · intro hsuccess
    rw [hparse]
    exact congrArg some (if_pos hsuccess)
  · intro hfailure
    rw [hparse]
    exact ⟨_, congrArg some (if_neg hfailure)⟩

/-- A chunk whose data has a line break in it, with its size spelled `0A;q`. -/
def sampleChunk : Chunk where
  line :=
    { digits := asciiBytes "0A"
      extension := some (asciiBytes "q")
      digits_ne_nil := by decide
      digits_hex := List.all_iff_forall_prop.mp (by decide)
      extension_line := by
        rintro _ ⟨⟩
        decide }
  data := asciiBytes "data\r\n10\r\n"
  data_ne_nil := by decide
  line_value := by decide
  data_fits := by decide

def sampleLast : SizeLine where
  digits := asciiBytes "00"
  extension := none
  digits_ne_nil := by decide
  digits_hex := List.all_iff_forall_prop.mp (by decide)
  extension_line := by
    rintro _ ⟨⟩

def sampleHead (code : Nat) (hcode : code < 1000) : ResponseHead where
  version := asciiBytes "HTTP/1.1"
  code := code
  reason := none
  fields := [asciiBytes "Transfer-Encoding: Chunked"]
  version_ne_nil := by decide
  version_plain := List.all_iff_forall_prop.mp (by decide)
  code_lt := hcode
  reason_line := by
    rintro _ ⟨⟩
  fields_line := List.all_iff_forall_prop.mp (by decide)

/-- The data is returned with the status 200 and not with the status 403. -/
theorem sampleChunk_decoded :
    parseHttpResponse ((sampleHead 200 (by decide)).bytes ++
        (headerEnd ++ chunkedBody [sampleChunk] sampleLast (asciiBytes "\r\n"))) =
        some (.ok (asciiBytes "data\r\n10\r\n")) ∧
      ∃ error, parseHttpResponse ((sampleHead 403 (by decide)).bytes ++
        (headerEnd ++ chunkedBody [sampleChunk] sampleLast (asciiBytes "\r\n"))) =
        some (.error error) := by
  obtain ⟨-, hresponse⟩ :=
    @chunked_response_decoded [sampleChunk] sampleLast (by decide) (asciiBytes "\r\n")
  have hfield : ∀ code hcode, (sampleHead code hcode).SaysChunked :=
    fun code hcode => ⟨_, mem_cons_self, by decide⟩
  exact ⟨(hresponse _ (hfield 200 (by decide))).1 ⟨by decide, by decide⟩,
    (hresponse _ (hfield 403 (by decide))).2 fun h => absurd h.2 (by decide)⟩

end PbsGui.Client
