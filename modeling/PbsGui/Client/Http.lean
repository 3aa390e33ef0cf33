import PbsGui.Client.Primitives
import PbsGui.Lib.Text
import PbsGui.Lib.Utf8

/-!
# Responses of the management API

`api.rs` speaks HTTP/1.1 by hand: it cuts a response at the first empty line, takes the status
and the transfer encoding from the header and decodes a chunked body.  A slice beyond the end
of its input panics in the source; `none` is that panic here.

`dechunk` checks that the data of a chunk is there but not the line break after it.
`ChunkCut` says which bodies make it slice beyond the end.
-/

namespace PbsGui.Client

open Lib List

/-- A computation that may panic, which is `none`. -/
abbrev MayPanic (α : Type) := Option α

def crlf : Bytes := [13, 10]

def headerEnd : Bytes := [13, 10, 13, 10]

/-- `&bytes[..stop]`. -/
def sliceTo (bytes : Bytes) (stop : Nat) : MayPanic Bytes :=
  if stop ≤ bytes.length then some (bytes.take stop) else none

/-- `&bytes[start..]`. -/
def sliceFrom (bytes : Bytes) (start : Nat) : MayPanic Bytes :=
  if start ≤ bytes.length then some (bytes.drop start) else none

/-- The numbers a `usize` holds are below this. -/
def usizeLimit : Nat := 2 ^ 64

/-- The size in the first line of a chunk: a hexadecimal number, up to a semicolon. -/
def chunkSize (line : Bytes) : Option Nat :=
  let sizeStr := trim (fromUtf8Lossy line)
  fromStrRadix 16 usizeLimit (trim (sizeStr.takeWhile (· ≠ ';')))

/-- One round of the loop in `dechunk`: the data of the next chunk and what follows it, or
nothing if the chunk is the last one. -/
def dechunkRound (body : Bytes) : MayPanic (Except PbsError (Option (Bytes × Bytes))) :=
  match findSubsequence crlf body with
  | none => some (.error (.protocol "malformed chunked body"))
  | some lineEnd => do
    let line ← sliceTo body lineEnd
    match chunkSize line with
    | none => some (.error (.protocol "invalid chunk size"))
    | some size =>
      let body ← sliceFrom body (lineEnd + 2)
      if size = 0 then some (.ok none)
      else if body.length < size then some (.error (.protocol "truncated chunk"))
      else
        let chunk ← sliceTo body size
        -- skip the data and the line break after it
        let rest ← sliceFrom body (size + 2)
        some (.ok (some (chunk, rest)))

/-! ### One round -/

section Round

variable {body line rest : Bytes}

/-- Where a text before a line break has none itself, its line break is the first one. -/
theorem findSubsequence_crlf_append (hline : ¬ crlf <:+: line) (rest : Bytes) :
    findSubsequence crlf (line ++ crlf ++ rest) = some line.length := by
  refine findSubsequence_eq_some_iff.mpr ⟨?_, ?_, ?_⟩
  · simp only [length_append, crlf, length_cons]
    omega
  · rw [append_assoc, drop_left]
    exact prefix_append _ _
  · intro earlier hearlier hfound
    rw [append_assoc, drop_append_of_le_length (Nat.le_of_lt hearlier)] at hfound
    have hinside : crlf <:+: line.drop earlier → False :=
      fun h => hline (h.trans (drop_suffix _ _).isInfix)
    cases hdrop : line.drop earlier with
    | nil =>
      rw [drop_eq_nil_iff] at hdrop
      omega
    | cons first more =>
      rw [hdrop] at hfound hinside
      obtain ⟨later, hlater⟩ := hfound
      cases more with
      | nil => simp [crlf] at hlater
      | cons second more =>
        simp only [crlf, cons_append, nil_append, cons.injEq] at hlater
        obtain ⟨rfl, rfl, -⟩ := hlater
        exact hinside (prefix_append [13, 10] more).isInfix

theorem findSubsequence_crlf_some {lineEnd : Nat} (h : findSubsequence crlf body = some lineEnd) :
    ∃ line rest, body = line ++ crlf ++ rest ∧ line.length = lineEnd ∧ ¬ crlf <:+: line := by
  obtain ⟨hlen, ⟨rest, hrest⟩, hfirst⟩ := findSubsequence_eq_some_iff.mp h
  have htake : (body.take lineEnd).length = lineEnd := length_take_of_le (Nat.le_of_lt hlen)
  refine ⟨body.take lineEnd, rest, ?_, htake, ?_⟩
  · rw [append_assoc, hrest, take_append_drop]
  · rintro ⟨left, right, hinside⟩
    have hpre : left.length < lineEnd := by
      have := congrArg length hinside
      simp only [length_append, crlf, length_cons, length_nil, htake] at this
      omega
    have hbody : left ++ (crlf ++ (right ++ body.drop lineEnd)) = body := by
      rw [← append_assoc, ← append_assoc, hinside, take_append_drop]
    have hdrop := congrArg (drop left.length) hbody
    rw [drop_left] at hdrop
    exact hfirst left.length hpre ⟨right ++ body.drop lineEnd, hdrop⟩

theorem dechunkRound_line (hline : ¬ crlf <:+: line) (rest : Bytes) :
    dechunkRound (line ++ crlf ++ rest) =
      match chunkSize line with
      | none => some (.error (.protocol "invalid chunk size"))
      | some size =>
        if size = 0 then some (.ok none)
        else if rest.length < size then some (.error (.protocol "truncated chunk"))
        else if rest.length < size + 2 then none
        else some (.ok (some (rest.take size, rest.drop (size + 2)))) := by
  have hto : sliceTo (line ++ crlf ++ rest) line.length = some line := by
    rw [sliceTo, if_pos (by simp only [length_append]; omega), append_assoc, take_left]
  have hfrom : sliceFrom (line ++ crlf ++ rest) (line.length + 2) = some rest := by
    have hdrop : (line ++ crlf ++ rest).drop (line.length + 2) = rest := drop_left' (by simp [crlf])
    rw [sliceFrom, if_pos (by simp [crlf]), hdrop]
  simp only [dechunkRound, findSubsequence_crlf_append hline, hto, hfrom, Option.bind_eq_bind,
    Option.bind_some]
  cases chunkSize line with
  | none => rfl
  | some size =>
    dsimp only
    split
    · rfl
    · split
      · rfl
      · rename_i hdata
        rw [sliceTo, if_pos (Nat.not_lt.mp hdata), Option.bind_some, sliceFrom]
        by_cases hbreak : rest.length < size + 2
        · rw [if_pos hbreak, if_neg (by omega)]
          rfl
        · rw [if_neg hbreak, if_pos (by omega)]
          rfl

variable {data : Bytes}

/-- What a round makes of a body that begins with a size line and the data of a chunk. -/
theorem dechunkRound_chunk (hline : ¬ crlf <:+: line) (hsize : chunkSize line = some data.length)
    (hdata : data ≠ []) (rest : Bytes) :
    dechunkRound (line ++ crlf ++ (data ++ rest)) =
      if rest.length < 2 then none else some (.ok (some (data, rest.drop 2))) := by
  have hlen := length_pos_iff.mpr hdata
  rw [dechunkRound_line hline, hsize]
  simp only [length_append]
  rw [if_neg (by omega), if_neg (by omega), take_left, ← drop_drop, drop_left]
  simp only [Nat.add_lt_add_iff_left]

theorem dechunkRound_cases (body : Bytes) :
    (∃ error, dechunkRound body = some (.error error)) ∨ dechunkRound body = some (.ok none) ∨
      ∃ line data rest, body = line ++ crlf ++ (data ++ rest) ∧ ¬ crlf <:+: line ∧
        chunkSize line = some data.length ∧ data ≠ [] := by
  cases hfind : findSubsequence crlf body with
  | none => exact .inl ⟨.protocol "malformed chunked body", by simp only [dechunkRound, hfind]⟩
  | some =>
    obtain ⟨line, rest, rfl, -, hline⟩ := findSubsequence_crlf_some hfind
    rw [dechunkRound_line hline]
    cases hsize : chunkSize line with
    | none => exact .inl ⟨_, rfl⟩
    | some size =>
      by_cases hzero : size = 0
      · exact .inr (.inl (if_pos hzero))
      by_cases hshort : rest.length < size
      · exact .inl ⟨_, (if_neg hzero).trans (if_pos hshort)⟩
      have hlen : (rest.take size).length = size := length_take_of_le (Nat.not_lt.mp hshort)
      refine .inr (.inr ⟨line, rest.take size, rest.drop size, ?_, hline, ?_, ?_⟩)
      · rw [take_append_drop]
      · rw [hsize, hlen]
      · rw [ne_eq, ← length_eq_zero_iff, hlen]
        exact hzero

/-- A round panics if the data of a chunk is there and the line break after it is not. -/
theorem dechunkRound_eq_none_iff :
    dechunkRound body = none ↔
      ∃ line data rest, body = line ++ crlf ++ (data ++ rest) ∧ ¬ crlf <:+: line ∧
        chunkSize line = some data.length ∧ data ≠ [] ∧ rest.length < 2 := by
  constructor
  · intro h
    rcases dechunkRound_cases body with
      ⟨error, herror⟩ | hlast | ⟨line, data, rest, rfl, hline, hsize, hdata⟩
    · rw [h] at herror
      cases herror
    · rw [h] at hlast
      cases hlast
    · rw [dechunkRound_chunk hline hsize hdata] at h
      split at h
      case isTrue hrest => exact ⟨line, data, rest, rfl, hline, hsize, hdata, hrest⟩
      case isFalse => cases h
  · rintro ⟨line, data, rest, rfl, hline, hsize, hdata, hrest⟩
    rw [dechunkRound_chunk hline hsize hdata, if_pos hrest]

theorem dechunkRound_eq_chunk_iff :
    dechunkRound body = some (.ok (some (data, rest))) ↔
      ∃ line lineBreak, body = line ++ crlf ++ (data ++ (lineBreak ++ rest)) ∧
        ¬ crlf <:+: line ∧ chunkSize line = some data.length ∧ data ≠ [] ∧
        lineBreak.length = 2 := by
  constructor
  · intro h
    rcases dechunkRound_cases body with
      ⟨error, herror⟩ | hlast | ⟨line, found, behind, rfl, hline, hsize, hfound⟩
    · rw [h] at herror
      cases herror
    · rw [h] at hlast
      cases hlast
    · rw [dechunkRound_chunk hline hsize hfound] at h
      split at h
      case isTrue => cases h
      case isFalse hbreak =>
        cases h
        refine ⟨line, behind.take 2, ?_, hline, hsize, hfound,
          length_take_of_le (Nat.not_lt.mp hbreak)⟩
        rw [take_append_drop]
  · rintro ⟨line, lineBreak, rfl, hline, hsize, hdata, hbreak⟩
    rw [dechunkRound_chunk hline hsize hdata, length_append, hbreak, if_neg (by omega),
      ← hbreak, drop_left]

theorem dechunkRound_shorter (h : dechunkRound body = some (.ok (some (data, rest)))) :
    rest.length < body.length := by
  obtain ⟨line, lineBreak, rfl, -, -, -, hbreak⟩ := dechunkRound_eq_chunk_iff.mp h
  simp only [length_append]
  omega

end Round

/-- The loop of `dechunk`, with the data of the chunks so far. -/
def dechunkFrom (out body : Bytes) : MayPanic (Except PbsError Bytes) :=
  match h : dechunkRound body with
  | none => none
  | some (.error error) => some (.error error)
  | some (.ok none) => some (.ok out)
  | some (.ok (some (chunk, rest))) =>
    have : rest.length < body.length := dechunkRound_shorter h
    dechunkFrom (out ++ chunk) rest
  termination_by body.length

def dechunk (body : Bytes) : MayPanic (Except PbsError Bytes) := dechunkFrom [] body

theorem dechunkFrom_eq (out body : Bytes) :
    dechunkFrom out body =
      match dechunkRound body with
      | none => none
      | some (.error error) => some (.error error)
      | some (.ok none) => some (.ok out)
      | some (.ok (some (chunk, rest))) => dechunkFrom (out ++ chunk) rest := by
  rw [dechunkFrom]
  split <;> rename_i h <;> simp only [h]

/-- A body that is cut in the line break after the data of a chunk: the chunks before it
are whole, and fewer than two bytes follow its data. -/
inductive ChunkCut : Bytes → Prop
  | here {line data rest : Bytes} (hline : ¬ crlf <:+: line)
      (hsize : chunkSize line = some data.length) (hdata : data ≠ []) (hrest : rest.length < 2) :
      ChunkCut (line ++ crlf ++ (data ++ rest))
  | later {line data lineBreak body : Bytes} (hline : ¬ crlf <:+: line)
      (hsize : chunkSize line = some data.length) (hdata : data ≠ [])
      (hbreak : lineBreak.length = 2) (hcut : ChunkCut body) :
      ChunkCut (line ++ crlf ++ (data ++ (lineBreak ++ body)))

theorem dechunkFrom_eq_none_iff {out body : Bytes} :
    dechunkFrom out body = none ↔ ChunkCut body := by
  constructor
  · intro h
    induction hbound : body.length using Nat.strongRecOn generalizing out body with
    | ind bound ih =>
      rw [dechunkFrom_eq] at h
      split at h
      case h_1 hround =>
        obtain ⟨line, data, rest, rfl, hline, hsize, hdata, hrest⟩ :=
          dechunkRound_eq_none_iff.mp hround
        exact .here hline hsize hdata hrest
      case h_2 | h_3 => cases h
      case h_4 chunk rest hround =>
        have hcut := ih _ (hbound ▸ dechunkRound_shorter hround) h rfl
        obtain ⟨line, lineBreak, rfl, hline, hsize, hdata, hbreak⟩ :=
          dechunkRound_eq_chunk_iff.mp hround
        exact .later hline hsize hdata hbreak hcut
  · intro h
    induction h generalizing out with
    | here hline hsize hdata hrest =>
      rw [dechunkFrom_eq, dechunkRound_eq_none_iff.mpr ⟨_, _, _, rfl, hline, hsize, hdata, hrest⟩]
    | later hline hsize hdata hbreak hcut ih =>
      rw [dechunkFrom_eq, dechunkRound_eq_chunk_iff.mpr ⟨_, _, rfl, hline, hsize, hdata, hbreak⟩]
      exact ih

/-- The first line of a text (`lines().next()`), without its line break. -/
def firstLine (text : List Char) : List Char :=
  match splitOnce '\n' text with
  | none => text
  | some (line, _) => if line.getLast? = some '\r' then line.dropLast else line

def statusCode (statusLine : List Char) : Nat :=
  (((words statusLine)[1]?).bind (fromStrRadix 10 (2 ^ 16))).getD 0

/-- Whether a header says that the body is chunked. -/
def isChunked (header : List Char) : Bool :=
  (findSubsequence "transfer-encoding: chunked".toList (header.map Char.toLower)).isSome

/-- Parse an HTTP/1.1 response: split the header from the body, check the status and
decode a chunked body. -/
def parseHttpResponse (raw : Bytes) : MayPanic (Except PbsError Bytes) :=
  match findSubsequence headerEnd raw with
  | none => some (.error (.protocol "malformed HTTP response (no header end)"))
  | some sep => do
    let header := fromUtf8Lossy (← sliceTo raw sep)
    let body ← sliceFrom raw (sep + 4)
    let statusLine := firstLine header
    let code := statusCode statusLine
    match ← (if isChunked header then dechunk body else some (.ok body)) with
    | .error error => some (.error error)
    | .ok body =>
      if 200 ≤ code ∧ code < 300 then some (.ok body)
      else
        some (.error (.protocol ("server returned " ++ String.ofList (trim statusLine) ++
          ": " ++ String.ofList (fromUtf8Lossy body))))

section Responses

variable {raw : Bytes}

theorem parseHttpResponse_header {sep : Nat} (h : findSubsequence headerEnd raw = some sep) :
    parseHttpResponse raw =
      ((if isChunked (fromUtf8Lossy (raw.take sep)) then dechunk (raw.drop (sep + 4))
        else some (.ok (raw.drop (sep + 4)))).map fun result =>
          match result with
          | .error error => .error error
          | .ok body =>
            if 200 ≤ statusCode (firstLine (fromUtf8Lossy (raw.take sep))) ∧
                statusCode (firstLine (fromUtf8Lossy (raw.take sep))) < 300 then .ok body
            else
              .error (.protocol ("server returned " ++
                String.ofList (trim (firstLine (fromUtf8Lossy (raw.take sep)))) ++ ": " ++
                String.ofList (fromUtf8Lossy body)))) := by
  obtain ⟨hlen, hfound, -⟩ := findSubsequence_eq_some_iff.mp h
  have hfour : sep + 4 ≤ raw.length := by
    have := hfound.length_le
    rw [length_drop, headerEnd] at this
    simp only [length_cons, length_nil] at this
    omega
  simp only [parseHttpResponse, h, sliceTo, sliceFrom, if_pos (Nat.le_of_lt hlen), if_pos hfour,
    Option.bind_eq_bind, Option.bind_some]
  cases (if isChunked (fromUtf8Lossy (raw.take sep)) = true then dechunk (raw.drop (sep + 4))
    else some (.ok (raw.drop (sep + 4)))) with
  | none => rfl
  | some result =>
    cases result with
    | error => rfl
    | ok =>
      simp only [Option.bind_some, Option.map_some]
      split <;> rfl

/-- A response makes the client panic exactly if its header says that the body is chunked
and the body is cut in the line break after a chunk. -/
theorem parseHttpResponse_eq_none_iff :
    parseHttpResponse raw = none ↔
      ∃ sep, findSubsequence headerEnd raw = some sep ∧
        isChunked (fromUtf8Lossy (raw.take sep)) = true ∧ ChunkCut (raw.drop (sep + 4)) := by
  constructor
  · intro h
    cases hfind : findSubsequence headerEnd raw with
    | none => simp only [parseHttpResponse, hfind, reduceCtorEq] at h
    | some sep =>
      rw [parseHttpResponse_header hfind, Option.map_eq_none_iff] at h
      split at h
      case isTrue hchunked => exact ⟨sep, rfl, hchunked, dechunkFrom_eq_none_iff.mp h⟩
      case isFalse => cases h
  · rintro ⟨sep, hfind, hchunked, hcut⟩
    rw [parseHttpResponse_header hfind, if_pos hchunked, dechunk, dechunkFrom_eq_none_iff.mpr hcut]
    rfl

end Responses

/-- `dechunk` returns a body or an error on every input that is not cut in the line break
after the data of a chunk, and on no other. -/
theorem dechunk_returns_iff (body : Bytes) :
    (∃ result, dechunk body = some result) ↔ ¬ ChunkCut body := by
  rw [← Option.isSome_iff_exists, Option.isSome_iff_ne_none, dechunk]
  exact not_congr dechunkFrom_eq_none_iff

def asciiBytes (text : String) : Bytes := text.toList.map fun c => UInt8.ofNat c.toNat

/-- The body of a response that ends after the carriage return behind its first chunk. -/
def sampleCutBody : Bytes := asciiBytes "1\r\nA\r"

theorem sampleCutBody_cut : ChunkCut sampleCutBody :=
  @ChunkCut.here [49] [65] [13] (by decide) (by decide) (by decide) (by decide)

/-- The body makes `dechunk` panic, and so does a response with it. -/
theorem sampleCutBody_panics :
    dechunk sampleCutBody = none ∧
      parseHttpResponse (asciiBytes "HTTP/1.1 200 OK\r\nTransfer-Encoding: chunked\r\n\r\n" ++
        sampleCutBody) = none := by
  refine ⟨dechunkFrom_eq_none_iff.mpr sampleCutBody_cut,
    parseHttpResponse_eq_none_iff.mpr ⟨43, by decide, by decide, ?_⟩⟩
  exact sampleCutBody_cut

end PbsGui.Client
