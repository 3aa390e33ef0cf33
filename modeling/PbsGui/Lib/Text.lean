import Mathlib.Data.List.Basic
import Mathlib.Data.List.DropRight
import Mathlib.Data.List.Infix
import Mathlib.Data.List.SplitBy

/-!
# Searching, splitting and trimming

What text formats are read with: the first place where a pattern occurs, a text cut in
two at the first or at the last separator, white space taken off both ends, the words of
a line, and numbers in any base with a limit.  Searching and splitting are about lists
over any type.
-/

namespace PbsGui.Lib

open List

section Search

variable {α : Type*} [DecidableEq α]

/-- The first position at which a pattern occurs. -/
def findSubsequence (needle : List α) : List α → Option Nat
  | [] => none
  | item :: rest =>
    if needle <+: item :: rest then some 0
    else (findSubsequence needle rest).map (· + 1)

variable {needle text : List α} {position : Nat}

theorem findSubsequence_eq_some_iff :
    findSubsequence needle text = some position ↔
      position < text.length ∧ needle <+: text.drop position ∧
        ∀ earlier < position, ¬ needle <+: text.drop earlier := by
  induction text generalizing position with
  | nil => simp [findSubsequence]
  | cons item rest ih =>
    unfold findSubsequence
    split
    case isTrue hhere =>
      constructor
      · rintro ⟨⟩
        exact ⟨Nat.succ_pos _, hhere, fun earlier hearlier => absurd hearlier (Nat.not_lt_zero _)⟩
      · rintro ⟨-, -, hfirst⟩
        cases position with
        | zero => rfl
        | succ => exact absurd hhere (hfirst 0 (Nat.succ_pos _))
    case isFalse hhere =>
      cases position with
      | zero => simp [hhere]
      | succ =>
        simp only [Option.map_eq_some_iff, Nat.add_right_cancel_iff, exists_eq_right, ih,
          length_cons, Nat.add_lt_add_iff_right, drop_succ_cons]
        refine and_congr_right fun _ => and_congr_right fun _ => ?_
        constructor
        · intro h earlier hearlier
          cases earlier with
          | zero => exact hhere
          | succ earlier => exact h earlier (Nat.lt_of_succ_lt_succ hearlier)
        · exact fun h earlier hearlier => h (earlier + 1) (Nat.succ_lt_succ hearlier)

theorem findSubsequence_isSome (hneedle : needle ≠ []) (h : needle <:+: text) :
    (findSubsequence needle text).isSome = true := by
  obtain ⟨left, right, rfl⟩ := h
  induction left with
  | nil =>
    cases needle with
    | nil => exact absurd rfl hneedle
    | cons => simp [findSubsequence]
  | cons item left ih =>
    simp only [cons_append, findSubsequence]
    split
    · rfl
    · rw [Option.isSome_map]
      exact ih

end Search

/-! ### Separators -/

section Separator

variable {α : Type*} [DecidableEq α] {separator : α} {text left right : List α}

def splitOnce (separator : α) : List α → Option (List α × List α)
  | [] => none
  | item :: rest =>
    if item = separator then some ([], rest)
    else (splitOnce separator rest).map fun pair => (item :: pair.1, pair.2)

def rsplitOnce (separator : α) (text : List α) : Option (List α × List α) :=
  (splitOnce separator text.reverse).map fun pair => (pair.2.reverse, pair.1.reverse)

theorem splitOnce_eq_none_iff : splitOnce separator text = none ↔ separator ∉ text := by
  induction text with
  | nil => simp [splitOnce]
  | cons item rest ih =>
    unfold splitOnce
    by_cases hitem : item = separator
    · simp [hitem]
    · simp [hitem, ih, Ne.symm hitem]

theorem splitOnce_eq_some_iff :
    splitOnce separator text = some (left, right) ↔
      separator ∉ left ∧ text = left ++ separator :: right := by
  induction text generalizing left with
  | nil => simp [splitOnce]
  | cons item rest ih =>
    unfold splitOnce
    split
    case isTrue hitem =>
      subst hitem
      constructor
      · rintro ⟨⟩
        exact ⟨not_mem_nil, rfl⟩
      · rintro ⟨hleft, heq⟩
        cases left with
        | nil =>
          cases heq
          rfl
        | cons =>
          cases heq
          exact absurd mem_cons_self hleft
    case isFalse hitem =>
      cases left with
      | nil =>
        simp only [Option.map_eq_some_iff, Prod.mk.injEq, reduceCtorEq, false_and, and_false,
          exists_false, nil_append, cons.injEq, hitem]
      | cons first left =>
        simp only [Option.map_eq_some_iff, Prod.mk.injEq, cons.injEq, Prod.exists,
          cons_append, mem_cons, not_or]
        constructor
        · rintro ⟨_, _, hsplit, ⟨rfl, rfl⟩, rfl⟩
          obtain ⟨hleft, hrest⟩ := ih.mp hsplit
          exact ⟨⟨Ne.symm hitem, hleft⟩, rfl, hrest⟩
        · rintro ⟨⟨-, hleft⟩, rfl, hrest⟩
          exact ⟨left, right, ih.mpr ⟨hleft, hrest⟩, ⟨rfl, rfl⟩, rfl⟩

theorem rsplitOnce_eq_none_iff : rsplitOnce separator text = none ↔ separator ∉ text := by
  rw [rsplitOnce, Option.map_eq_none_iff, splitOnce_eq_none_iff, mem_reverse]

theorem rsplitOnce_eq_some_iff :
    rsplitOnce separator text = some (left, right) ↔
      separator ∉ right ∧ text = left ++ separator :: right := by
  simp only [rsplitOnce, Option.map_eq_some_iff, Prod.mk.injEq, Prod.exists]
  constructor
  · rintro ⟨last, first, hsplit, rfl, rfl⟩
    obtain ⟨hlast, htext⟩ := splitOnce_eq_some_iff.mp hsplit
    refine ⟨mt mem_reverse.mp hlast, ?_⟩
    rw [← reverse_reverse text, htext]
    simp
  · rintro ⟨hright, rfl⟩
    refine ⟨right.reverse, left.reverse, splitOnce_eq_some_iff.mpr ⟨mt mem_reverse.mp hright, ?_⟩,
      reverse_reverse _, reverse_reverse _⟩
    simp

theorem not_mem_of_mem_splitOn {part : List α} (h : part ∈ text.splitOn separator) :
    separator ∉ part := by
  induction text generalizing part with
  | nil =>
    rw [splitOn_nil, mem_singleton] at h
    rw [h]
    exact not_mem_nil
  | cons item rest ih =>
    rw [splitOn_cons_eq_if_modifyHead] at h
    split at h
    case isTrue =>
      rcases mem_cons.mp h with rfl | hlater
      · exact not_mem_nil
      · exact ih hlater
    case isFalse hitem =>
      obtain ⟨first, later, hparts⟩ := exists_cons_of_ne_nil (splitOn_ne_nil separator rest)
      rw [hparts] at h ih
      rcases mem_cons.mp h with rfl | hlater
      · rw [mem_cons, not_or]
        exact ⟨fun heq => hitem (beq_iff_eq.mpr heq.symm), ih mem_cons_self⟩
      · exact ih (mem_cons_of_mem _ hlater)

def nonemptyParts (separator : α) (text : List α) : List (List α) :=
  (text.splitOn separator).filter (· ≠ [])

theorem nonemptyParts_append (left right : List α) :
    nonemptyParts separator (left ++ separator :: right) =
      nonemptyParts separator left ++ nonemptyParts separator right := by
  have hsplit := @splitOnP_append_cons _ (· == separator) left right separator
    (beq_self_eq_true separator)
  rw [nonemptyParts, splitOn_eq_splitOnP, hsplit, filter_append]
  rfl

@[simp] theorem nonemptyParts_nil : nonemptyParts separator ([] : List α) = [] := by
  simp [nonemptyParts]

@[simp] theorem nonemptyParts_cons_self (text : List α) :
    nonemptyParts separator (separator :: text) = nonemptyParts separator text := by
  have happ := @nonemptyParts_append _ _ separator [] text
  rwa [nonemptyParts_nil, nil_append, nil_append] at happ

theorem nonemptyParts_dropWhile (text : List α) :
    nonemptyParts separator (text.dropWhile (· = separator)) = nonemptyParts separator text := by
  induction text with
  | nil => rfl
  | cons item rest ih =>
    by_cases hitem : item = separator
    · rw [dropWhile_cons_of_pos (by simp [hitem]), ih, hitem, nonemptyParts_cons_self]
    · rw [dropWhile_cons_of_neg (by simp [hitem])]

theorem nonemptyParts_rdropWhile (text : List α) :
    nonemptyParts separator (text.rdropWhile (· = separator)) = nonemptyParts separator text := by
  induction text using reverseRecOn with
  | nil => rfl
  | append_singleton rest item ih =>
    rw [rdropWhile_concat]
    split
    case isTrue hitem =>
      rw [ih, of_decide_eq_true hitem, nonemptyParts_append, nonemptyParts_nil, append_nil]
    case isFalse => rfl

theorem nonemptyParts_eq_splitOn (h : [] ∉ text.splitOn separator) :
    nonemptyParts separator text = text.splitOn separator :=
  filter_eq_self.mpr fun _ hpart => decide_eq_true fun heq => h (heq ▸ hpart)

theorem nonemptyParts_of_not_mem (hsome : text ≠ []) (h : separator ∉ text) :
    nonemptyParts separator text = [text] := by
  rw [nonemptyParts, splitOn_eq_singleton h]
  simp [hsome]

theorem nonemptyParts_append_flatMap {parts : List (List α)}
    (hparts : ∀ part ∈ parts, part ≠ [] ∧ separator ∉ part) (text : List α) :
    nonemptyParts separator (text ++ parts.flatMap (separator :: ·)) =
      nonemptyParts separator text ++ parts := by
  induction parts using reverseRecOn with
  | nil => rw [flatMap_nil, append_nil, append_nil]
  | append_singleton earlier part ih =>
    obtain ⟨hsome, hfree⟩ := hparts part (mem_append_right _ mem_cons_self)
    rw [flatMap_append, flatMap_singleton, ← append_assoc, nonemptyParts_append,
      ih (forall_mem_append.mp hparts).1, nonemptyParts_of_not_mem hsome hfree, append_assoc]

end Separator

section SplitText

variable [DecidableEq α]

/-- The parts between the occurrences of a text, where `skip` elements still belong to
the occurrence found last. -/
def splitTextAfter (needle : List α) : Nat → List α → List (List α)
  | _, [] => [[]]
  | skip + 1, _ :: rest => splitTextAfter needle skip rest
  | 0, item :: rest =>
    if needle <+: item :: rest then [] :: splitTextAfter needle (needle.length - 1) rest
    else (splitTextAfter needle 0 rest).modifyHead (item :: ·)

/-- The parts between the occurrences of a text, found from the left, as `str::split`
with a text that is not empty. -/
def splitText (needle text : List α) : List (List α) := splitTextAfter needle 0 text

variable {needle rest : List α} {item : α}

@[simp] theorem splitText_nil : splitText needle ([] : List α) = [[]] := rfl

theorem splitText_cons_of_not_prefix (h : ¬ needle <+: item :: rest) :
    splitText needle (item :: rest) = (splitText needle rest).modifyHead (item :: ·) := by
  rw [splitText, splitTextAfter, if_neg h, splitText]

theorem splitTextAfter_append (found rest : List α) :
    splitTextAfter needle found.length (found ++ rest) = splitText needle rest := by
  induction found with
  | nil => rfl
  | cons item found ih => exact ih

theorem splitText_needle_append (hneedle : needle ≠ []) (rest : List α) :
    splitText needle (needle ++ rest) = [] :: splitText needle rest := by
  obtain ⟨item, found, rfl⟩ := exists_cons_of_ne_nil hneedle
  rw [splitText, cons_append, splitTextAfter, if_pos ⟨rest, rfl⟩]
  exact congrArg _ (splitTextAfter_append found rest)

/-- Elements that the text does not begin with go to the part that follows them. -/
theorem splitText_append_of_not_mem {first : α} {found part : List α} (hpart : first ∉ part)
    (rest : List α) :
    splitText (first :: found) (part ++ rest) =
      (splitText (first :: found) rest).modifyHead (part ++ ·) := by
  induction part with
  | nil => exact (congrFun modifyHead_id _).symm
  | cons item part ih =>
    have hitem : ¬ first :: found <+: item :: (part ++ rest) := fun h =>
      hpart (mem_cons.mpr (.inl (cons_prefix_cons.mp h).1))
    rw [cons_append, splitText_cons_of_not_prefix hitem,
      ih fun h => hpart (mem_cons_of_mem _ h), modifyHead_modifyHead]
    rfl

end SplitText

section Intercalate

variable {sep : List α}

theorem prefix_intercalate (sep first : List α) (later : List (List α)) :
    first <+: sep.intercalate (first :: later) := by
  cases later with
  | nil => rw [intercalate_singleton]
  | cons =>
    rw [intercalate_cons_cons, append_assoc]
    exact prefix_append _ _

theorem mem_of_mem_intercalate {parts : List (List α)} {item : α}
    (h : item ∈ sep.intercalate parts) : item ∈ sep ∨ ∃ part ∈ parts, item ∈ part := by
  induction parts with
  | nil => exact absurd h not_mem_nil
  | cons first later ih =>
    cases later with
    | nil =>
      rw [intercalate_singleton] at h
      exact .inr ⟨first, mem_cons_self, h⟩
    | cons =>
      rw [intercalate_cons_cons, mem_append, mem_append] at h
      rcases h with (hfirst | hsep) | hlater
      · exact .inr ⟨first, mem_cons_self, hfirst⟩
      · exact .inl hsep
      · exact (ih hlater).imp_right fun ⟨part, hpart, hitem⟩ =>
          ⟨part, mem_cons_of_mem _ hpart, hitem⟩

theorem length_le_intercalate (separator : α) (parts : List (List α)) :
    parts.length ≤ ([separator].intercalate parts).length + 1 := by
  induction parts with
  | nil => exact Nat.zero_le _
  | cons first later =>
    cases later with
    | nil => exact Nat.succ_le_succ (Nat.zero_le _)
    | cons =>
      rw [intercalate_cons_cons, length_append, length_append, length_singleton, length_cons]
      omega

end Intercalate

/-- The Unicode `White_Space` characters. -/
def isWhiteSpace (c : Char) : Bool :=
  (0x09 ≤ c.toNat && c.toNat ≤ 0x0d) || (0x2000 ≤ c.toNat && c.toNat ≤ 0x200a) ||
    c.toNat ∈ [0x20, 0x85, 0xa0, 0x1680, 0x2028, 0x2029, 0x202f, 0x205f, 0x3000]

/-- A text without the white space it begins with. -/
def trimStart (text : List Char) : List Char := text.dropWhile isWhiteSpace

/-- A text without the white space it ends with. -/
def trimEnd (text : List Char) : List Char := text.rdropWhile isWhiteSpace

def trim (text : List Char) : List Char := trimEnd (trimStart text)

/-- The words of a text (`split_whitespace`). -/
def words (text : List Char) : List (List Char) :=
  (text.splitOnP isWhiteSpace).filter (· ≠ [])

theorem rdropWhile_append_cons {drops : α → Bool} {item : α} (hitem : drops item = false)
    (left right : List α) :
    (left ++ item :: right).rdropWhile drops = left ++ item :: right.rdropWhile drops := by
  have hrest : (item :: left.reverse).dropWhile drops = item :: left.reverse :=
    dropWhile_cons_of_neg (by simp [hitem])
  rw [rdropWhile, rdropWhile, reverse_append, reverse_cons, append_assoc,
    singleton_append, dropWhile_append, hrest]
  split
  · rename_i hempty
    rw [isEmpty_iff.mp hempty]
    simp
  · simp

section White

variable {text left right : List Char} {c : Char}

theorem trimStart_cons (hc : isWhiteSpace c = false) (right : List Char) :
    trimStart (c :: right) = c :: right := by
  rw [trimStart, dropWhile_cons_of_neg (by simp [hc])]

theorem trimEnd_append (hc : isWhiteSpace c = false) (left right : List Char) :
    trimEnd (left ++ c :: right) = left ++ c :: trimEnd right :=
  rdropWhile_append_cons hc left right

theorem trim_head (h : (trim text).head? = some c) : isWhiteSpace c = false := by
  obtain ⟨rest, hrest⟩ := rdropWhile_prefix isWhiteSpace (trimStart text)
  have hstart : (trimStart text).head? = some c := by
    rw [← hrest, head?_append, ← trimEnd, ← trim, h, Option.some_or]
  have hnot := head?_dropWhile_not isWhiteSpace text
  rw [trimStart] at hstart
  rw [hstart] at hnot
  exact hnot

theorem trim_last (h : (trim text).getLast? = some c) : isWhiteSpace c = false := by
  have hnot := head?_dropWhile_not isWhiteSpace (trimStart text).reverse
  rw [trim, trimEnd, rdropWhile, getLast?_reverse] at h
  rw [h] at hnot
  exact hnot

theorem trim_eq_self (hhead : ∀ c, text.head? = some c → isWhiteSpace c = false)
    (hlast : ∀ c, text.getLast? = some c → isWhiteSpace c = false) : trim text = text := by
  have hstart : trimStart text = text := by
    cases text with
    | nil => rfl
    | cons c text => exact trimStart_cons (hhead c rfl) text
  rcases eq_nil_or_concat text with rfl | ⟨init, last, rfl⟩
  · rfl
  · rw [concat_eq_append] at hstart hlast ⊢
    rw [trim, hstart, trimEnd_append (hlast last (by simp))]
    rfl

end White

/-! ### Numbers -/

def digitValue (radix : Nat) (c : Char) : Option Nat :=
  let value :=
    if '0' ≤ c ∧ c ≤ '9' then some (c.toNat - '0'.toNat)
    else if 'a' ≤ c ∧ c ≤ 'z' then some (c.toNat - 'a'.toNat + 10)
    else if 'A' ≤ c ∧ c ≤ 'Z' then some (c.toNat - 'A'.toNat + 10)
    else none
  value.filter (· < radix)

def pushDigit (radix limit value : Nat) (c : Char) : Option Nat :=
  (digitValue radix c).bind fun digit =>
    if value * radix + digit < limit then some (value * radix + digit) else none

/-- An unsigned number in a base: an optional plus sign and at least one digit, below a
limit (`from_str_radix`). -/
def fromStrRadix (radix limit : Nat) : List Char → Option Nat
  | [] | ['+'] => none
  | '+' :: digits => digits.foldlM (pushDigit radix limit) 0
  | digits => digits.foldlM (pushDigit radix limit) 0

def numeralValue (radix : Nat) (digits : List Char) (value : Nat) : Nat :=
  digits.foldl (fun value c => value * radix + (digitValue radix c).getD 0) value

section Numbers

variable {radix limit : Nat} {digits : List Char}

variable {c : Char}

theorem digitValue_range (h : (digitValue radix c).isSome = true) :
    (48 ≤ c.toNat ∧ c.toNat ≤ 57) ∨ (97 ≤ c.toNat ∧ c.toNat ≤ 122) ∨
      (65 ≤ c.toNat ∧ c.toNat ≤ 90) := by
  unfold digitValue at h
  dsimp only at h
  split at h
  case isTrue hdigit => exact .inl hdigit
  case isFalse =>
    split at h
    case isTrue hlower => exact .inr (.inl hlower)
    case isFalse =>
      split at h
      case isTrue hupper => exact .inr (.inr hupper)
      case isFalse => cases h

theorem isWhiteSpace_digit (h : (digitValue radix c).isSome = true) : isWhiteSpace c = false := by
  have hrange := digitValue_range h
  simp only [isWhiteSpace, Bool.or_eq_false_iff, Bool.and_eq_false_iff, decide_eq_false_iff_not,
    mem_cons, not_mem_nil, or_false]
  omega

theorem le_numeralValue (hradix : 0 < radix) (digits : List Char) (value : Nat) :
    value ≤ numeralValue radix digits value := by
  induction digits generalizing value with
  | nil => exact Nat.le_refl _
  | cons c digits ih =>
    have hmul := Nat.le_mul_of_pos_right value hradix
    exact (by omega : value ≤ value * radix + (digitValue radix c).getD 0).trans (ih _)

variable {value : Nat}

theorem foldlM_pushDigit (hradix : 0 < radix)
    (hdigits : ∀ c ∈ digits, (digitValue radix c).isSome = true)
    (hlimit : numeralValue radix digits value < limit) :
    digits.foldlM (pushDigit radix limit) value = some (numeralValue radix digits value) := by
  induction digits generalizing value with
  | nil => rfl
  | cons c digits ih =>
    obtain ⟨digit, hdigit⟩ := Option.isSome_iff_exists.mp (hdigits c mem_cons_self)
    have hstep : numeralValue radix (c :: digits) value =
        numeralValue radix digits (value * radix + digit) := by
      simp only [numeralValue, foldl_cons, hdigit, Option.getD_some]
    rw [hstep] at hlimit ⊢
    have hbelow := Nat.lt_of_le_of_lt (le_numeralValue hradix digits _) hlimit
    rw [foldlM_cons, pushDigit, hdigit, Option.bind_some, if_pos hbelow]
    exact ih (forall_mem_cons.mp hdigits).2 hlimit

theorem fromStrRadix_digits (hradix : 0 < radix) (hsome : digits ≠ [])
    (hdigits : ∀ c ∈ digits, (digitValue radix c).isSome = true)
    (hlimit : numeralValue radix digits 0 < limit) :
    fromStrRadix radix limit digits = some (numeralValue radix digits 0) := by
  have hsign : ∀ rest, digits ≠ '+' :: rest := by
    rintro rest rfl
    exact absurd (hdigits '+' mem_cons_self) (by simp [digitValue])
  unfold fromStrRadix
  split
  · exact absurd rfl hsome
  · exact absurd rfl (hsign [])
  · exact absurd rfl (hsign _)
  · exact foldlM_pushDigit hradix hdigits hlimit

theorem foldlM_pushDigit_lt {value result : Nat} (hsome : digits ≠ [])
    (h : digits.foldlM (pushDigit radix limit) value = some result) : result < limit := by
  induction digits generalizing value with
  | nil => exact absurd rfl hsome
  | cons c digits ih =>
    rw [foldlM_cons] at h
    obtain ⟨next, hnext, hrest⟩ := Option.bind_eq_some_iff.mp h
    obtain ⟨digit, -, hpush⟩ := Option.bind_eq_some_iff.mp hnext
    split at hpush
    case isTrue hbelow =>
      cases hpush
      cases digits with
      | nil =>
        cases hrest
        exact hbelow
      | cons => exact ih (cons_ne_nil _ _) hrest
    case isFalse => cases hpush

theorem fromStrRadix_lt {text : List Char} (h : fromStrRadix radix limit text = some value) :
    value < limit := by
  unfold fromStrRadix at h
  split at h
  · cases h
  · cases h
  · rename_i digits hsign
    exact foldlM_pushDigit_lt (fun hnil => hsign (by rw [hnil])) h
  · rename_i hnil _ _
    exact foldlM_pushDigit_lt hnil h

theorem digitValue_of_isDigit (h : c.isDigit = true) :
    digitValue 10 c = some (c.toNat - '0'.toNat) := by
  simp only [Char.isDigit, Bool.and_eq_true, decide_eq_true_eq, ge_iff_le] at h
  have hrange : '0' ≤ c ∧ c ≤ '9' := h
  have hsmall : c.toNat - '0'.toNat < 10 := by
    have hle : c.toNat ≤ '9'.toNat := h.2
    have hnine : '9'.toNat = 57 := rfl
    have hzero : '0'.toNat = 48 := rfl
    omega
  rw [digitValue, if_pos hrange, Option.filter_some, if_pos (decide_eq_true hsmall)]

theorem digitValue_of_mem_toDigits (hc : c ∈ Nat.toDigits 10 value) :
    digitValue 10 c = some (c.toNat - '0'.toNat) :=
  digitValue_of_isDigit (Nat.isDigit_of_mem_toDigits (by decide) (by decide) hc)

theorem numeralValue_toDigits (value : Nat) : numeralValue 10 (Nat.toDigits 10 value) 0 = value := by
  refine Eq.trans (foldl_ext _ _ _ fun sofar c hc => ?_)
    (Nat.ofDigitChars_toDigits (by decide) (Nat.le_refl 10))
  rw [digitValue_of_mem_toDigits hc, Option.getD_some, Nat.mul_comm]

theorem fromStrRadix_toDigits (hlimit : value < limit) :
    fromStrRadix 10 limit (Nat.toDigits 10 value) = some value := by
  have hread := @fromStrRadix_digits 10 limit _ (by decide) Nat.toDigits_ne_nil
    (fun c hc => by rw [digitValue_of_mem_toDigits hc]; rfl) (by rwa [numeralValue_toDigits])
  rwa [numeralValue_toDigits] at hread

end Numbers

end PbsGui.Lib
