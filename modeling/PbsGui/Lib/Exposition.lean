import PbsGui.Lib.DecimalText

/-!
# The Prometheus text format

A text is a sequence of lines, each ended by a newline.  A line that begins with `#` is a
comment; any other is a sample: a metric name, labels in braces, a value and possibly a
timestamp.  A label value stands between quotes; a backslash, a quote and a newline in it are
written with a backslash.

A sample that is written with its label values escaped is read back with these values.
-/

namespace PbsGui.Lib.Exposition

open List

def isBlank (c : Char) : Bool := c == ' ' || c == '\t'

def isLabelStart (c : Char) : Bool := c.isAlpha || c == '_'

def isLabelChar (c : Char) : Bool := c.isAlphanum || c == '_'

def isMetricStart (c : Char) : Bool := isLabelStart c || c == ':'

def isMetricChar (c : Char) : Bool := isLabelChar c || c == ':'

/-- A name by what it may begin with and how it may go on. -/
def isNameOf (start more : Char → Bool) : List Char → Bool
  | [] => false
  | c :: rest => start c && rest.all more

def isMetricName (name : List Char) : Bool := isNameOf isMetricStart isMetricChar name

def isLabelName (name : List Char) : Bool := isNameOf isLabelStart isLabelChar name

/-- Digits, possibly with a point and further digits. -/
def isDecimal (text : List Char) : Bool :=
  let whole := text.takeWhile Char.isDigit
  match text.dropWhile Char.isDigit with
  | [] => !whole.isEmpty
  | point :: fraction =>
    !whole.isEmpty && point == '.' && !fraction.isEmpty && fraction.all Char.isDigit

def unsigned (text : List Char) : List Char :=
  match text with
  | '-' :: rest => rest
  | '+' :: rest => rest
  | _ => text

/-- A value: a decimal number, an infinity or not a number; exponents are left out. -/
def isFloatText (text : List Char) : Bool :=
  isDecimal (unsigned text) || [['N', 'a', 'N'], ['I', 'n', 'f'], ['i', 'n', 'f']].contains
    (unsigned text)

def isTimestamp (text : List Char) : Bool :=
  !(unsigned text).isEmpty && (unsigned text).all Char.isDigit

/-! ### Reading a text -/

/-- A line that is not blank. -/
inductive ExpositionLine
  | comment (text : List Char)
  | sample (name : List Char) (labels : List (List Char × List Char)) (value : List Char)
      (timestamp : Option (List Char))
  deriving DecidableEq

/-- A label value up to the first quote that is not escaped, and the text behind that. -/
def readLabelValue : List Char → Option (List Char × List Char)
  | [] => none
  | '\"' :: rest => some ([], rest)
  | '\\' :: '\\' :: rest => (readLabelValue rest).map fun (value, later) => ('\\' :: value, later)
  | '\\' :: '\"' :: rest => (readLabelValue rest).map fun (value, later) => ('\"' :: value, later)
  | '\\' :: 'n' :: rest => (readLabelValue rest).map fun (value, later) => ('\n' :: value, later)
  -- no other character is escaped
  | '\\' :: _ => none
  | c :: rest => (readLabelValue rest).map fun (value, later) => (c :: value, later)

/-- Labels up to the closing brace, and the text behind that. -/
def readLabels : Nat → List Char → Option (List (List Char × List Char) × List Char)
  | 0, _ => none
  | fuel + 1, text =>
    match text.dropWhile isBlank with
    | '}' :: rest => some ([], rest)
    | text =>
      let name := text.takeWhile isLabelChar
      if isLabelName name then
        match (text.dropWhile isLabelChar).dropWhile isBlank with
        | '=' :: rest =>
          match rest.dropWhile isBlank with
          | '\"' :: rest =>
            match readLabelValue rest with
            | none => none
            | some (value, rest) =>
              match rest.dropWhile isBlank with
              | ',' :: rest =>
                (readLabels fuel rest).map fun (labels, later) =>
                  ((name, value) :: labels, later)
              | '}' :: rest => some ([(name, value)], rest)
              | _ => none
          | _ => none
        | _ => none
      else none

/-- The value and the timestamp at the end of a sample. -/
def readValue (text : List Char) : Option (List Char × Option (List Char)) :=
  let text := text.dropWhile isBlank
  let value := text.takeWhile (!isBlank ·)
  let timestamp := ((text.dropWhile (!isBlank ·)).dropWhile isBlank).rdropWhile isBlank
  if isFloatText value then
    if timestamp.isEmpty then some (value, none)
    else if isTimestamp timestamp then some (value, some timestamp)
    else none
  else none

def parseSample (line : List Char) : Option ExpositionLine :=
  let name := line.takeWhile isMetricChar
  let rest := line.dropWhile isMetricChar
  if isMetricName name then
    match rest.dropWhile isBlank with
    | '{' :: labels =>
      (readLabels labels.length labels).bind fun (labels, later) =>
        (readValue later).map fun (value, timestamp) => .sample name labels value timestamp
    | _ =>
      -- without labels a blank ends the name
      if rest.head?.any isBlank then
        (readValue rest).map fun (value, timestamp) => .sample name [] value timestamp
      else none
  else none

def parseLine (line : List Char) : Option ExpositionLine :=
  match line.dropWhile isBlank with
  | '#' :: text => some (.comment text)
  | line => parseSample line

/-- The comments and samples of a text, whose last line is ended as well; blank lines are
ignored. -/
def parseExposition (text : List Char) : Option (List ExpositionLine) :=
  let lines := text.splitOn '\n'
  if lines.getLast? = some [] then
    (lines.dropLast.filter fun line => !line.all isBlank).mapM parseLine
  else none

def escapeChar (c : Char) : List Char :=
  if c = '\\' then ['\\', '\\'] else if c = '\"' then ['\\', '\"']
  else if c = '\n' then ['\\', 'n'] else [c]

def escapeValue (value : List Char) : List Char := value.flatMap escapeChar

/-- A label with its value as it is written between the quotes. -/
def labelText (name written : List Char) : List Char := name ++ '=' :: '\"' :: written ++ ['\"']

/-- A sample of labels that are already written. -/
def sampleText (name : List Char) (labels : List (List Char)) (value : List Char) : List Char :=
  name ++ '{' :: [','].intercalate labels ++ '}' :: ' ' :: value

theorem readLabelValue_cons {c : Char} (hslash : c ≠ '\\') (hquote : c ≠ '\"') (rest : List Char) :
    readLabelValue (c :: rest) =
      (readLabelValue rest).map fun (value, later) => (c :: value, later) := by
  rw [readLabelValue]
  · exact hquote
  all_goals intros; exact absurd ‹_› hslash

theorem readLabelValue_escapeValue (value rest : List Char) :
    readLabelValue (escapeValue value ++ '\"' :: rest) = some (value, rest) := by
  induction value with
  | nil => rfl
  | cons c value ih =>
    rw [escapeValue, flatMap_cons, ← escapeValue, append_assoc, escapeChar]
    by_cases hslash : c = '\\'
    · rw [if_pos hslash, hslash]
      simp [readLabelValue, ih]
    by_cases hquote : c = '\"'
    · rw [if_neg hslash, if_pos hquote, hquote]
      simp [readLabelValue, ih]
    by_cases hline : c = '\n'
    · rw [if_neg hslash, if_neg hquote, if_pos hline, hline]
      simp [readLabelValue, ih]
    · rw [if_neg hslash, if_neg hquote, if_neg hline, singleton_append,
        readLabelValue_cons hslash hquote, ih]
      rfl

section Stop

variable {more : Char → Bool} {text rest : List Char} {stop : Char}

theorem takeWhile_stop (hall : ∀ c ∈ text, more c = true) (hstop : more stop = false) :
    (text ++ stop :: rest).takeWhile more = text := by
  rw [takeWhile_append_of_pos hall, takeWhile_cons_of_neg (by simp [hstop]), append_nil]

theorem dropWhile_stop (hall : ∀ c ∈ text, more c = true) (hstop : more stop = false) :
    (text ++ stop :: rest).dropWhile more = stop :: rest := by
  rw [dropWhile_append_of_pos hall, dropWhile_cons_of_neg (by simp [hstop])]

end Stop

theorem isNameOf_spec {start more : Char → Bool} (hmore : ∀ c, start c = true → more c = true)
    {name : List Char} (h : isNameOf start more name = true) :
    (∃ c rest, name = c :: rest ∧ start c = true) ∧ ∀ c ∈ name, more c = true := by
  cases name with
  | nil => cases h
  | cons c rest =>
    obtain ⟨hstart, hrest⟩ := Bool.and_eq_true_iff.mp h
    refine ⟨⟨c, rest, rfl, hstart⟩, fun other hother => ?_⟩
    rcases mem_cons.mp hother with rfl | hlater
    · exact hmore _ hstart
    · exact all_eq_true.mp hrest other hlater

theorem isLabelChar_of_isLabelStart (c : Char) (h : isLabelStart c = true) :
    isLabelChar c = true := by
  simp only [isLabelStart, isLabelChar, Char.isAlphanum, Bool.or_eq_true] at h ⊢
  exact h.imp_left .inl

theorem isMetricChar_of_isMetricStart (c : Char) (h : isMetricStart c = true) :
    isMetricChar c = true := by
  simp only [isMetricStart, isMetricChar, Bool.or_eq_true] at h ⊢
  exact h.imp_left (isLabelChar_of_isLabelStart c)

variable {c : Char}

theorem eq_of_isBlank (h : isBlank c = true) : c = ' ' ∨ c = '\t' := by
  simpa [isBlank] using h

theorem not_isBlank_of_isMetricChar (h : isMetricChar c = true) : isBlank c = false := by
  refine Bool.eq_false_iff.mpr fun hblank => ?_
  rcases eq_of_isBlank hblank with rfl | rfl <;> cases h

theorem ne_of_apply {more : Char → Bool} {c other : Char} (h : more c = true)
    (hother : more other = false) : c ≠ other := by
  rintro rfl
  rw [h] at hother
  cases hother

theorem readLabels_labelText {name : List Char} (hname : isLabelName name = true)
    (value rest : List Char) (fuel : Nat) :
    readLabels (fuel + 1) (labelText name (escapeValue value) ++ rest) =
      match rest.dropWhile isBlank with
      | ',' :: rest =>
        (readLabels fuel rest).map fun (labels, later) => ((name, value) :: labels, later)
      | '}' :: rest => some ([(name, value)], rest)
      | _ => none := by
  obtain ⟨⟨c, tail, hcons, hstart⟩, hall⟩ := isNameOf_spec isLabelChar_of_isLabelStart hname
  have htext : labelText name (escapeValue value) ++ rest =
      name ++ '=' :: '\"' :: (escapeValue value ++ '\"' :: rest) := by
    simp [labelText]
  have hblank : (name ++ '=' :: '\"' :: (escapeValue value ++ '\"' :: rest)).dropWhile isBlank =
      name ++ '=' :: '\"' :: (escapeValue value ++ '\"' :: rest) := by
    have hc : isBlank c = false :=
      not_isBlank_of_isMetricChar (by simp [isMetricChar, isLabelChar_of_isLabelStart c hstart])
    rw [hcons, cons_append, dropWhile_cons_of_neg (by simp [hc])]
  have hbrace : c ≠ '}' := ne_of_apply hstart (by decide)
  have hequals : isLabelChar '=' = false := by decide
  rw [htext, readLabels, hblank]
  split
  case h_1 rest' heq =>
    rw [hcons] at heq
    exact absurd (cons.inj heq).1 hbrace
  case h_2 =>
    simp only [takeWhile_stop hall hequals, dropWhile_stop hall hequals, hname, if_true]
    simp [isBlank, readLabelValue_escapeValue]

/-- Labels as they are written, with their values escaped. -/
def labelTexts (labels : List (List Char × List Char)) : List (List Char) :=
  labels.map fun label => labelText label.1 (escapeValue label.2)

/-- Labels that are written are read back, whatever follows their closing brace. -/
theorem readLabels_labelTexts {labels : List (List Char × List Char)} (hsome : labels ≠ [])
    (hnames : ∀ label ∈ labels, isLabelName label.1 = true) {fuel : Nat}
    (hfuel : labels.length ≤ fuel) (rest : List Char) :
    readLabels fuel ([','].intercalate (labelTexts labels) ++ '}' :: rest) =
      some (labels, rest) := by
  induction labels generalizing fuel with
  | nil => exact absurd rfl hsome
  | cons label later ih =>
    obtain ⟨fuel, rfl⟩ : ∃ less, fuel = less + 1 :=
      Nat.exists_eq_succ_of_ne_zero (Nat.ne_zero_of_lt hfuel)
    have hname := hnames label mem_cons_self
    cases later with
    | nil =>
      rw [labelTexts, map_singleton, intercalate_singleton, readLabels_labelText hname]
      rfl
    | cons next later =>
      have hlater := ih (cons_ne_nil _ _)
        (forall_mem_cons.mp hnames).2
        (Nat.le_of_succ_le_succ hfuel)
      rw [labelTexts, map_cons, map_cons, intercalate_cons_cons,
        append_assoc, append_assoc, readLabels_labelText hname]
      change (readLabels fuel ([','].intercalate (labelTexts (next :: later)) ++
        '}' :: rest)).map _ = _
      rw [hlater]
      rfl

/-! ### Reading back a line -/

def isFloatChar (c : Char) : Bool := c.isAlphanum || c == '.' || c == '-' || c == '+'

theorem isFloatChar_of_isDigit (h : c.isDigit = true) : isFloatChar c = true := by
  simp [isFloatChar, Char.isAlphanum, h]

theorem isFloatChar_of_isDecimal {text : List Char} (h : isDecimal text = true) :
    text ≠ [] ∧ ∀ c ∈ text, isFloatChar c = true := by
  have hwhole : ∀ c ∈ text.takeWhile Char.isDigit, isFloatChar c = true := fun c hc =>
    isFloatChar_of_isDigit (mem_takeWhile_imp hc)
  have happ := takeWhile_append_dropWhile (p := Char.isDigit) (l := text)
  rw [isDecimal] at h
  cases hrest : text.dropWhile Char.isDigit with
  | nil =>
    rw [hrest] at h happ
    rw [append_nil] at happ
    rw [happ] at h hwhole
    exact ⟨by simpa using h, hwhole⟩
  | cons =>
    rw [hrest] at h happ
    simp only [Bool.and_eq_true, beq_iff_eq, all_eq_true] at h
    obtain ⟨⟨⟨hsome, rfl⟩, -⟩, hfraction⟩ := h
    rw [← happ]
    refine ⟨by simp, fun c hc => ?_⟩
    rcases mem_append.mp hc with hleft | hright
    · exact hwhole c hleft
    rcases mem_cons.mp hright with rfl | hdigit
    · decide
    · exact isFloatChar_of_isDigit (hfraction c hdigit)

theorem isFloatText_spec {text : List Char} (h : isFloatText text = true) :
    text ≠ [] ∧ ∀ c ∈ text, isFloatChar c = true := by
  have hunsigned : unsigned text ≠ [] ∧ ∀ c ∈ unsigned text, isFloatChar c = true := by
    rcases Bool.or_eq_true_iff.mp h with hdecimal | hword
    · exact isFloatChar_of_isDecimal hdecimal
    · have hmem := contains_iff_mem.mp hword
      simp only [mem_cons, not_mem_nil, or_false] at hmem
      rcases hmem with hword | hword | hword <;> rw [hword] <;>
        exact ⟨by decide, all_eq_true.mp (by decide)⟩
  have hsign : ∀ sign ∈ ['-', '+'], isFloatChar sign = true := by simp [isFloatChar]
  unfold unsigned at hunsigned
  split at hunsigned
  case h_1 rest =>
    exact ⟨cons_ne_nil _ _, forall_mem_cons.mpr ⟨hsign '-' (by simp), hunsigned.2⟩⟩
  case h_2 rest =>
    exact ⟨cons_ne_nil _ _, forall_mem_cons.mpr ⟨hsign '+' (by simp), hunsigned.2⟩⟩
  case h_3 => exact hunsigned

theorem not_isBlank_of_isFloatChar (h : isFloatChar c = true) : isBlank c = false := by
  refine Bool.eq_false_iff.mpr fun hblank => ?_
  rcases eq_of_isBlank hblank with rfl | rfl <;> cases h

theorem readValue_blank {value : List Char} (hvalue : isFloatText value = true) :
    readValue (' ' :: value) = some (value, none) := by
  obtain ⟨hsome, hchars⟩ := isFloatText_spec hvalue
  have hmore : ∀ c ∈ value, (!isBlank c) = true := fun c hc => by
    rw [not_isBlank_of_isFloatChar (hchars c hc)]
    rfl
  have hstart : (' ' :: value).dropWhile isBlank = value := by
    obtain ⟨c, rest, rfl⟩ := exists_cons_of_ne_nil hsome
    have hc := not_isBlank_of_isFloatChar (hchars c mem_cons_self)
    rw [dropWhile_cons_of_pos (by decide), dropWhile_cons_of_neg (by simp [hc])]
  have htake : value.takeWhile (!isBlank ·) = value := takeWhile_eq_self_iff.mpr hmore
  have hdrop : value.dropWhile (!isBlank ·) = [] := dropWhile_eq_nil_iff.mpr hmore
  rw [readValue]
  simp only [hstart, htake, hdrop, hvalue, if_true]
  rfl

section Sample

variable {name value : List Char}

variable {labels : List (List Char × List Char)}

variable (hname : isMetricName name = true)

include hname

theorem parseSample_sampleText (hsome : labels ≠ [])
    (hnames : ∀ label ∈ labels, isLabelName label.1 = true) (hvalue : isFloatText value = true) :
    parseSample (sampleText name (labelTexts labels) value) =
      some (.sample name labels value none) := by
  obtain ⟨-, hall⟩ := isNameOf_spec isMetricChar_of_isMetricStart hname
  have hbrace : isMetricChar '{' = false := by decide
  have htext : sampleText name (labelTexts labels) value =
      name ++ '{' :: ([','].intercalate (labelTexts labels) ++ '}' :: ' ' :: value) := by
    simp [sampleText]
  have hfuel : labels.length ≤
      ([','].intercalate (labelTexts labels) ++ '}' :: ' ' :: value).length := by
    have hparts := length_le_intercalate ',' (labelTexts labels)
    rw [labelTexts, length_map] at hparts
    rw [length_append, length_cons]
    exact Nat.le_trans hparts (Nat.add_le_add_left (Nat.succ_le_succ (Nat.zero_le _)) _)
  rw [htext, parseSample]
  simp only [takeWhile_stop hall hbrace, dropWhile_stop hall hbrace, hname, if_true]
  change Option.bind (readLabels _ _) _ = _
  rw [readLabels_labelTexts hsome hnames hfuel]
  change Option.map _ (readValue (' ' :: value)) = _
  rw [readValue_blank hvalue]
  rfl

theorem parseSample_plain (hvalue : isFloatText value = true) :
    parseSample (name ++ ' ' :: value) = some (.sample name [] value none) := by
  obtain ⟨-, hall⟩ := isNameOf_spec isMetricChar_of_isMetricStart hname
  have hblank : isMetricChar ' ' = false := by decide
  rw [parseSample]
  simp only [takeWhile_stop hall hblank, dropWhile_stop hall hblank, hname, if_true]
  obtain ⟨hsome, hchars⟩ := isFloatText_spec hvalue
  obtain ⟨c, rest, rfl⟩ := exists_cons_of_ne_nil hsome
  have hc := hchars c mem_cons_self
  have hstart : (' ' :: c :: rest).dropWhile isBlank = c :: rest := by
    rw [dropWhile_cons_of_pos (by decide),
      dropWhile_cons_of_neg (by simp [not_isBlank_of_isFloatChar hc])]
  rw [hstart]
  split
  case h_1 heq => exact absurd (cons.inj heq).1 (ne_of_apply hc (by decide))
  case h_2 =>
    rw [readValue_blank hvalue]
    rfl

theorem parseLine_eq_parseSample (rest : List Char) :
    parseLine (name ++ rest) = parseSample (name ++ rest) := by
  obtain ⟨⟨c, tail, rfl, hstart⟩, hall⟩ := isNameOf_spec isMetricChar_of_isMetricStart hname
  have hc := hall c mem_cons_self
  have hblank : (c :: tail ++ rest).dropWhile isBlank = c :: tail ++ rest := by
    rw [cons_append, dropWhile_cons_of_neg (by simp [not_isBlank_of_isMetricChar hc])]
  rw [parseLine, hblank]
  split
  case h_1 heq => exact absurd (cons.inj heq).1 (ne_of_apply hc (by decide))
  case h_2 => rfl

theorem parseLine_sampleText (hsome : labels ≠ [])
    (hnames : ∀ label ∈ labels, isLabelName label.1 = true) (hvalue : isFloatText value = true) :
    parseLine (sampleText name (labelTexts labels) value) =
      some (.sample name labels value none) := by
  rw [← parseSample_sampleText hname hsome hnames hvalue, sampleText, append_assoc,
    parseLine_eq_parseSample hname]

theorem parseLine_plain (hvalue : isFloatText value = true) :
    parseLine (name ++ ' ' :: value) = some (.sample name [] value none) := by
  rw [parseLine_eq_parseSample hname, parseSample_plain hname hvalue]

end Sample

theorem newline_notMem_escapeValue (value : List Char) : '\n' ∉ escapeValue value := by
  intro hmem
  obtain ⟨c, -, hc⟩ := mem_flatMap.mp hmem
  rw [escapeChar] at hc
  split at hc
  · exact absurd hc (by decide)
  split at hc
  · exact absurd hc (by decide)
  split at hc
  case isTrue => exact absurd hc (by decide)
  case isFalse hline => exact hline (mem_singleton.mp hc).symm

theorem newline_notMem {more : Char → Bool} {text : List Char} (hall : ∀ c ∈ text, more c = true)
    (hmore : more '\n' = false) : '\n' ∉ text :=
  fun hmem => ne_of_apply (hall '\n' hmem) hmore rfl

theorem newline_notMem_name {name : List Char} (hname : isMetricName name = true) :
    '\n' ∉ name :=
  newline_notMem (isNameOf_spec isMetricChar_of_isMetricStart hname).2 (by decide)

theorem newline_notMem_value {value : List Char} (hvalue : isFloatText value = true) :
    '\n' ∉ value :=
  newline_notMem (isFloatText_spec hvalue).2 (by decide)

theorem newline_notMem_sampleText {name value : List Char} {labels : List (List Char × List Char)}
    (hname : isMetricName name = true) (hnames : ∀ label ∈ labels, isLabelName label.1 = true)
    (hvalue : isFloatText value = true) : '\n' ∉ sampleText name (labelTexts labels) value := by
  have hlabels : '\n' ∉ [','].intercalate (labelTexts labels) := by
    intro hmem
    rcases mem_of_mem_intercalate hmem with hsep | ⟨text, htext, hmem⟩
    · exact absurd hsep (by decide)
    obtain ⟨label, hlabel, rfl⟩ := mem_map.mp htext
    have hlabelName := newline_notMem
      (isNameOf_spec isLabelChar_of_isLabelStart (hnames label hlabel)).2 (by decide)
    simp [labelText, hlabelName, newline_notMem_escapeValue] at hmem
  simp [sampleText, newline_notMem_name hname, newline_notMem_value hvalue, hlabels]

theorem isDecimal_of_isDigit {digits : List Char} (hsome : digits ≠ [])
    (hdigit : ∀ c ∈ digits, c.isDigit = true) : isDecimal digits = true := by
  have htake : digits.takeWhile Char.isDigit = digits := takeWhile_eq_self_iff.mpr hdigit
  have hdrop : digits.dropWhile Char.isDigit = [] := dropWhile_eq_nil_iff.mpr hdigit
  rw [isDecimal, htake, hdrop]
  simpa using hsome

theorem isFloatText_toDigits (value : Nat) : isFloatText (Nat.toDigits 10 value) = true := by
  have hdigit : ∀ c ∈ Nat.toDigits 10 value, c.isDigit = true := fun c hc =>
    Nat.isDigit_of_mem_toDigits (by decide) (by decide) hc
  have hunsigned : unsigned (Nat.toDigits 10 value) = Nat.toDigits 10 value := by
    unfold unsigned
    split
    case h_1 heq => exact absurd (hdigit '-' (heq ▸ mem_cons_self)) (by decide)
    case h_2 heq => exact absurd (hdigit '+' (heq ▸ mem_cons_self)) (by decide)
    case h_3 => rfl
  rw [isFloatText, hunsigned, isDecimal_of_isDigit Nat.toDigits_ne_nil hdigit, Bool.true_or]

theorem isFloatText_signedText (value : Int) : isFloatText (signedText value) = true := by
  rw [signedText]
  split
  · have hdigit : ∀ c ∈ Nat.toDigits 10 value.natAbs, c.isDigit = true := fun c hc =>
      Nat.isDigit_of_mem_toDigits (by decide) (by decide) hc
    rw [isFloatText, unsigned, isDecimal_of_isDigit Nat.toDigits_ne_nil hdigit, Bool.true_or]
  · exact isFloatText_toDigits _

/-- Lines as they are written, each with its end. -/
def linesText (lines : List (List Char)) : List Char := lines.flatMap fun line => line ++ ['\n']

theorem splitOn_linesText {lines : List (List Char)} (h : ∀ line ∈ lines, '\n' ∉ line) :
    (linesText lines).splitOn '\n' = lines ++ [[]] := by
  induction lines with
  | nil => rfl
  | cons line later ih =>
    rw [linesText, flatMap_cons, ← linesText, append_assoc, singleton_append,
      splitOn_append_cons_self_of_not_mem (h line mem_cons_self),
      ih (forall_mem_cons.mp h).2, cons_append]

theorem not_all_isBlank {line : List Char} (h : parseLine line ≠ none) :
    line.all isBlank = false := by
  refine Bool.eq_false_iff.mpr fun hall => h ?_
  have hdrop : line.dropWhile isBlank = [] := dropWhile_eq_nil_iff.mpr (all_eq_true.mp hall)
  rw [parseLine, hdrop]
  rfl

theorem parseExposition_linesText {ι : Type*} {writes : List ι} {text : ι → List Char}
    {meaning : ι → ExpositionLine} (hline : ∀ write ∈ writes, '\n' ∉ text write)
    (hparse : ∀ write ∈ writes, parseLine (text write) = some (meaning write)) :
    parseExposition (linesText (writes.map text)) = some (writes.map meaning) := by
  have hsplit : (linesText (writes.map text)).splitOn '\n' = writes.map text ++ [[]] := by
    refine splitOn_linesText fun line hmem => ?_
    obtain ⟨write, hwrite, rfl⟩ := mem_map.mp hmem
    exact hline write hwrite
  have hfilt : (writes.map text).filter (fun line => !line.all isBlank) = writes.map text := by
    refine filter_eq_self.mpr fun line hmem => ?_
    obtain ⟨write, hwrite, rfl⟩ := mem_map.mp hmem
    rw [not_all_isBlank (by rw [hparse write hwrite]; exact Option.some_ne_none _)]
    rfl
  rw [parseExposition]
  simp only [hsplit, getLast?_concat, dropLast_concat, if_true]
  rw [hfilt]
  clear hsplit hfilt hline
  induction writes with
  | nil => rfl
  | cons write later ih =>
    rw [map_cons, mapM_cons, hparse write mem_cons_self, ih (forall_mem_cons.mp hparse).2]
    rfl

end PbsGui.Lib.Exposition
