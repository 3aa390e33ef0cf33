import PbsGui.Lib.Quoted

/-!
# The tokens of a T-SQL text

A scanner for T-SQL with the unfinished token in its state, so that scanning a text is
scanning its front and then its rest.  Identifiers stand in brackets or double quotes and
literals in single quotes; comments run to the end of the line or, nested, between `/*` and
`*/`.

A value that is put between the marks with its closing marks doubled is scanned as one
token with that value.
-/

namespace PbsGui.Lib

open List

/-- A token of T-SQL. -/
inductive SqlToken
  /-- A keyword, an identifier without marks or a number. -/
  | word (text : List Char)
  /-- An identifier in brackets or double quotes. -/
  | name (text : List Char)
  /-- A string literal. -/
  | literal (text : List Char)
  /-- A string literal with `N` in front of it. -/
  | national (text : List Char)
  | symbol (c : Char)
  deriving DecidableEq

/-- The marks that a token stands between. -/
inductive SqlMarks
  | brackets
  | doubleQuotes
  | quotes
  | nationalQuotes
  deriving DecidableEq

namespace SqlMarks

def close : SqlMarks → Char
  | brackets => ']'
  | doubleQuotes => Char.ofNat 0x22
  | quotes | nationalQuotes => Char.ofNat 0x27

def token : SqlMarks → List Char → SqlToken
  | brackets | doubleQuotes => .name
  | quotes => .literal
  | nationalQuotes => .national

end SqlMarks

/-! ### The scanner -/

/-- What the scanner is in the middle of. -/
inductive ScanMode
  | start
  | word (sofar : List Char)
  | inside (marks : SqlMarks) (sofar : List Char)
  /-- Behind a closing mark, which the next character may double. -/
  | closing (marks : SqlMarks) (sofar : List Char)
  | dash
  | slash
  | lineComment
  /-- A comment, how deep it is nested, and its last character. -/
  | comment (depth : Nat) (last : Char)
  deriving DecidableEq

structure Scan where
  tokens : List SqlToken
  mode : ScanMode
  deriving DecidableEq

def isSqlBlank (c : Char) : Bool := c = ' ' || c = '\t' || c = '\r' || c = '\n'

def isWordChar (c : Char) : Bool :=
  c.isAlphanum || c = '_' || c = '@' || c = '#' || c = '$' || 0x80 ≤ c.toNat

def Scan.begin (tokens : List SqlToken) (c : Char) : Scan :=
  if isSqlBlank c then ⟨tokens, .start⟩
  else if isWordChar c then ⟨tokens, .word [c]⟩
  else if c = '[' then ⟨tokens, .inside .brackets []⟩
  else if c = SqlMarks.doubleQuotes.close then ⟨tokens, .inside .doubleQuotes []⟩
  else if c = SqlMarks.quotes.close then ⟨tokens, .inside .quotes []⟩
  else if c = '-' then ⟨tokens, .dash⟩
  else if c = '/' then ⟨tokens, .slash⟩
  else ⟨tokens ++ [.symbol c], .start⟩

def Scan.step (scan : Scan) (c : Char) : Scan :=
  match scan.mode with
  | .start => begin scan.tokens c
  | .word sofar =>
    if isWordChar c then ⟨scan.tokens, .word (sofar ++ [c])⟩
    else if c = SqlMarks.nationalQuotes.close ∧ (sofar = ['N'] ∨ sofar = ['n']) then
      ⟨scan.tokens, .inside .nationalQuotes []⟩
    else begin (scan.tokens ++ [.word sofar]) c
  | .inside marks sofar =>
    if c = marks.close then ⟨scan.tokens, .closing marks sofar⟩
    else ⟨scan.tokens, .inside marks (sofar ++ [c])⟩
  | .closing marks sofar =>
    if c = marks.close then ⟨scan.tokens, .inside marks (sofar ++ [c])⟩
    else begin (scan.tokens ++ [marks.token sofar]) c
  | .dash => if c = '-' then ⟨scan.tokens, .lineComment⟩ else begin (scan.tokens ++ [.symbol '-']) c
  | .slash =>
    if c = '*' then ⟨scan.tokens, .comment 1 ' '⟩ else begin (scan.tokens ++ [.symbol '/']) c
  | .lineComment => ⟨scan.tokens, if c = '\n' then .start else .lineComment⟩
  | .comment depth last =>
    if last = '*' ∧ c = '/' then
      ⟨scan.tokens, if depth = 1 then .start else .comment (depth - 1) ' '⟩
    else if last = '/' ∧ c = '*' then ⟨scan.tokens, .comment (depth + 1) ' '⟩
    else ⟨scan.tokens, .comment depth c⟩

/-- The tokens at the end of a text, unless it ends inside of one or of a comment. -/
def Scan.finish (scan : Scan) : Option (List SqlToken) :=
  match scan.mode with
  | .start | .lineComment => some scan.tokens
  | .word sofar => some (scan.tokens ++ [.word sofar])
  | .closing marks sofar => some (scan.tokens ++ [marks.token sofar])
  | .dash => some (scan.tokens ++ [.symbol '-'])
  | .slash => some (scan.tokens ++ [.symbol '/'])
  | .inside _ _ | .comment _ _ => none

def scanText (text : List Char) : Scan := text.foldl Scan.step ⟨[], .start⟩

def sqlTokens (text : List Char) : Option (List SqlToken) := (scanText text).finish

variable {chars : List Char}

theorem toList_ofList_cons {c : Char} :
    (String.ofList (c :: chars)).toList = c :: (String.ofList chars).toList := by
  rw [String.toList_ofList, String.toList_ofList]

theorem scanText_ofList {scan : Scan} (h : scanText chars = scan) :
    scanText (String.ofList chars).toList = scan := by
  rw [String.toList_ofList, h]

theorem head?_ofList {c : Char} (h : chars.head? ≠ some c) :
    (String.ofList chars).toList.head? ≠ some c := by
  rwa [String.toList_ofList]

theorem sqlTokens_ofList {tokens : List SqlToken} (h : sqlTokens chars = some tokens) :
    sqlTokens (String.ofList chars).toList = some tokens := by
  rw [String.toList_ofList, h]

namespace Scan

def after (before : List SqlToken) (scan : Scan) : Scan := ⟨before ++ scan.tokens, scan.mode⟩

theorem begin_after (before tokens : List SqlToken) (c : Char) :
    begin (before ++ tokens) c = (begin tokens c).after before := by
  unfold begin
  repeat' split
  all_goals simp [after]

theorem step_after (before : List SqlToken) (scan : Scan) (c : Char) :
    (scan.after before).step c = (scan.step c).after before := by
  obtain ⟨tokens, mode⟩ := scan
  cases mode with
  | start => exact begin_after before tokens c
  | word =>
    simp only [after, step, append_assoc, begin_after]
    repeat' split
    all_goals rfl
  | inside =>
    simp only [after, step]
    split <;> rfl
  | closing | dash | slash =>
    simp only [after, step, append_assoc, begin_after]
    split <;> rfl
  | lineComment => rfl
  | comment =>
    simp only [after, step]
    repeat' split
    all_goals rfl

theorem foldl_after (before : List SqlToken) (scan : Scan) (text : List Char) :
    text.foldl step (scan.after before) = (text.foldl step scan).after before := by
  induction text generalizing scan with
  | nil => rfl
  | cons c text ih => rw [foldl_cons, foldl_cons, step_after, ih]

theorem finish_after (before : List SqlToken) (scan : Scan) :
    (scan.after before).finish = scan.finish.map (before ++ ·) := by
  obtain ⟨tokens, mode⟩ := scan
  cases mode <;> simp [after, finish]

theorem foldl_inside (tokens : List SqlToken) (marks : SqlMarks) (sofar value : List Char) :
    (doubleMarks marks.close value).foldl step ⟨tokens, .inside marks sofar⟩ =
      ⟨tokens, .inside marks (sofar ++ value)⟩ := by
  induction value generalizing sofar with
  | nil => simp [doubleMarks]
  | cons c value ih =>
    rw [doubleMarks, flatMap_cons, ← doubleMarks, foldl_append]
    by_cases hc : c = marks.close
    · rw [if_pos hc]
      simp only [foldl_cons, foldl_nil, step, if_true]
      rw [ih, hc, append_assoc]
      rfl
    · rw [if_neg hc]
      simp only [foldl_cons, foldl_nil, step, if_neg hc]
      rw [ih, append_assoc]
      rfl

theorem foldl_closing (tokens : List SqlToken) (marks : SqlMarks) (value : List Char)
    {later : List Char} (hlater : later.head? ≠ some marks.close) :
    ((later.foldl step ⟨tokens, .closing marks value⟩).finish) =
      (later.foldl step ⟨tokens ++ [marks.token value], .start⟩).finish := by
  cases later with
  | nil => rfl
  | cons c =>
    have hc : c ≠ marks.close := fun heq => hlater (by rw [heq]; rfl)
    rw [foldl_cons, foldl_cons]
    simp only [step, if_neg hc]

theorem foldl_word (tokens : List SqlToken) (text : List Char) {later : List Char}
    (hlater : ∀ c, later.head? = some c →
      isWordChar c = false ∧ c ≠ SqlMarks.nationalQuotes.close) :
    (later.foldl step ⟨tokens, .word text⟩).finish =
      (later.foldl step ⟨tokens ++ [.word text], .start⟩).finish := by
  cases later with
  | nil => rfl
  | cons c =>
    obtain ⟨hword, hquote⟩ := hlater c rfl
    rw [foldl_cons, foldl_cons]
    simp only [step, hword, hquote, false_and, if_false, Bool.false_eq_true]

theorem finish_foldl_start (tokens : List SqlToken) (text : List Char) :
    (text.foldl step ⟨tokens, .start⟩).finish = (sqlTokens text).map (tokens ++ ·) := by
  have hstart : (⟨tokens, .start⟩ : Scan) = after tokens ⟨[], .start⟩ := by simp [after]
  rw [hstart, foldl_after, finish_after, ← scanText, ← sqlTokens]

end Scan

theorem isSqlBlank_of_isWordChar {c : Char} (h : isWordChar c = true) : isSqlBlank c = false := by
  refine Bool.eq_false_iff.mpr fun hblank => ?_
  simp only [isSqlBlank, Bool.or_eq_true, decide_eq_true_eq] at hblank
  rcases hblank with ((rfl | rfl) | rfl) | rfl <;> exact absurd h (by decide)

theorem scanText_word {text : List Char} (hsome : text ≠ [])
    (hword : ∀ c ∈ text, isWordChar c = true) : scanText text = ⟨[], .word text⟩ := by
  have hmore : ∀ (rest sofar : List Char), (∀ c ∈ rest, isWordChar c = true) →
      rest.foldl Scan.step ⟨[], .word sofar⟩ = ⟨[], .word (sofar ++ rest)⟩ := by
    intro rest
    induction rest with
    | nil => simp
    | cons c rest ih =>
      intro sofar hrest
      rw [foldl_cons, Scan.step]
      simp only [hrest c mem_cons_self, if_true]
      rw [ih _ (forall_mem_cons.mp hrest).2, append_assoc]
      rfl
  cases text with
  | nil => exact absurd rfl hsome
  | cons c text =>
    have hc := hword c mem_cons_self
    have hfirst : Scan.step ⟨[], .start⟩ c = ⟨[], .word [c]⟩ := by
      simp [Scan.step, Scan.begin, isSqlBlank_of_isWordChar hc, hc]
    rw [scanText, foldl_cons, hfirst, hmore text [c] (forall_mem_cons.mp hword).2]
    rfl

variable {front later : List Char} {tokens rest : List SqlToken}

theorem sqlTokens_append (hfront : scanText front = ⟨tokens, .start⟩)
    (hrest : sqlTokens later = some rest) : sqlTokens (front ++ later) = some (tokens ++ rest) := by
  rw [sqlTokens, scanText, foldl_append, ← scanText, hfront, Scan.finish_foldl_start, hrest,
    Option.map_some]

theorem sqlTokens_append_word {text : List Char} (hfront : scanText front = ⟨tokens, .word text⟩)
    (hlater : ∀ c, later.head? = some c → isWordChar c = false ∧ c ≠ SqlMarks.nationalQuotes.close)
    (hrest : sqlTokens later = some rest) :
    sqlTokens (front ++ later) = some (tokens ++ .word text :: rest) := by
  rw [sqlTokens, scanText, foldl_append, ← scanText, hfront, Scan.foldl_word tokens text hlater,
    Scan.finish_foldl_start, hrest, Option.map_some, append_assoc, singleton_append]

/-- A value between marks is one token, and what is behind it is scanned for itself. -/
theorem sqlTokens_marked (marks : SqlMarks) (hfront : scanText front = ⟨tokens, .inside marks []⟩)
    (value : List Char) {tail : List Char} (htail : tail = marks.close :: later)
    (hlater : later.head? ≠ some marks.close) (hrest : sqlTokens later = some rest) :
    sqlTokens (front ++ (doubleMarks marks.close value ++ tail)) =
      some (tokens ++ marks.token value :: rest) := by
  rw [sqlTokens, scanText, foldl_append, ← scanText, hfront, foldl_append,
    Scan.foldl_inside, htail, foldl_cons]
  simp only [Scan.step, if_true, nil_append]
  rw [Scan.foldl_closing tokens marks value hlater, Scan.finish_foldl_start, hrest,
    Option.map_some, append_assoc, singleton_append]

theorem sqlTokens_plain (marks : SqlMarks) (hfront : scanText front = ⟨tokens, .inside marks []⟩)
    {value : List Char} (hvalue : marks.close ∉ value) {tail : List Char}
    (htail : tail = marks.close :: later) (hlater : later.head? ≠ some marks.close)
    (hrest : sqlTokens later = some rest) :
    sqlTokens (front ++ (value ++ tail)) = some (tokens ++ marks.token value :: rest) := by
  have hscan := sqlTokens_marked marks hfront value htail hlater hrest
  rwa [doubleMarks_eq_self hvalue] at hscan

end PbsGui.Lib
