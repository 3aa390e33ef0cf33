import Mathlib.Data.List.Basic

/-!
# Cutting a list into pieces of one size

`pieces size items` lists the consecutive runs of `size` elements of `items`,
the last of which may be shorter.  Batched protocols send such pieces, and
tables of fixed-width records are read back by them.
-/

namespace PbsGui.Lib

open List

variable {α β : Type*}

/-- `pieces` with an explicit bound on the number of pieces. -/
def piecesWithin (size : Nat) : Nat → List α → List (List α)
  | 0, _ => []
  | _ + 1, [] => []
  | fuel + 1, item :: rest =>
    (item :: rest).take size :: piecesWithin size fuel ((item :: rest).drop size)

/-- The consecutive pieces of `size` elements, the last possibly shorter. -/
def pieces (size : Nat) (items : List α) : List (List α) :=
  piecesWithin size items.length items

@[simp] theorem pieces_nil (size : Nat) : pieces size ([] : List α) = [] := rfl

variable {size : Nat}

variable (hsize : 0 < size)

include hsize

theorem piecesWithin_eq (items : List α) {fuel fuel' : Nat} (h : items.length ≤ fuel)
    (h' : items.length ≤ fuel') : piecesWithin size fuel items = piecesWithin size fuel' items := by
  induction fuel generalizing items fuel' with
  | zero =>
    have hnil : items = [] := eq_nil_of_length_eq_zero (by omega)
    subst hnil
    cases fuel' <;> rfl
  | succ fuel ih =>
    cases items with
    | nil => cases fuel' <;> rfl
    | cons item rest =>
      cases fuel' with
      | zero => simp at h'
      | succ =>
        have hdrop : ((item :: rest).drop size).length ≤ rest.length := by
          simp only [length_drop, length_cons]
          omega
        simp only [length_cons] at h h'
        simp only [piecesWithin]
        exact congrArg _ (ih _ (by omega) (by omega))

theorem pieces_cons (item : α) (rest : List α) :
    pieces size (item :: rest) =
      (item :: rest).take size :: pieces size ((item :: rest).drop size) := by
  have hdrop : ((item :: rest).drop size).length ≤ rest.length := by
    simp only [length_drop, length_cons]
    omega
  simp only [pieces, length_cons, piecesWithin]
  rw [piecesWithin_eq hsize _ hdrop (Nat.le_refl _)]

theorem pieces_append {block : List α} (hblock : block.length = size) (rest : List α) :
    pieces size (block ++ rest) = block :: pieces size rest := by
  cases block with
  | nil => simp at hblock; omega
  | cons =>
    rw [cons_append, pieces_cons hsize, ← cons_append,
      take_append_of_le_length (Nat.le_of_eq hblock.symm),
      drop_append_of_le_length (Nat.le_of_eq hblock.symm)]
    simp [← hblock]

theorem map_pieces_flatMap {record : β → List α} {read : List α → β}
    (hrec : ∀ item, (record item).length = size) (hread : ∀ item, read (record item) = item)
    (items : List β) : (pieces size (items.flatMap record)).map read = items := by
  induction items with
  | nil => rfl
  | cons item rest ih =>
    rw [flatMap_cons, pieces_append hsize (hrec item), map_cons, ih, hread]

/-- Induction on a list from which `size` elements are taken at a time. -/
theorem dropInduction {motive : List α → Prop} (nil : motive [])
    (cons : ∀ item rest, motive ((item :: rest).drop size) → motive (item :: rest))
    (items : List α) : motive items := by
  induction hbound : items.length using Nat.strongRecOn generalizing items with
  | ind bound ih =>
    cases items with
    | nil => exact nil
    | cons item rest =>
      refine cons item rest (ih _ ?_ _ rfl)
      rw [length_drop, ← hbound]
      exact Nat.sub_lt (Nat.succ_pos _) hsize

theorem pieces_flatten (items : List α) : (pieces size items).flatten = items := by
  induction items using dropInduction hsize with
  | nil => rfl
  | cons item rest ih => rw [pieces_cons hsize, flatten_cons, ih, take_append_drop]

theorem pieces_take_flatten (count : Nat) (items : List α) :
    ((pieces size items).take count).flatten = items.take (count * size) := by
  induction count generalizing items with
  | zero => simp
  | succ count ih =>
    cases items with
    | nil => simp
    | cons =>
      rw [pieces_cons hsize, take_succ_cons, flatten_cons, ih, Nat.succ_mul, Nat.add_comm, take_add]

theorem pieces_length (items : List α) :
    (pieces size items).length = (items.length + (size - 1)) / size := by
  induction items using dropInduction hsize with
  | nil =>
    rw [pieces_nil, length_nil, length_nil, Nat.zero_add,
      Nat.div_eq_of_lt (Nat.sub_lt hsize Nat.one_pos)]
  | cons item rest ih =>
    have hpositive : 0 < (item :: rest).length := Nat.succ_pos _
    rw [pieces_cons hsize, length_cons, ih, length_drop, ← Nat.add_div_right _ hsize]
    by_cases hlong : size ≤ (item :: rest).length
    · congr 1
      omega
    · -- A short list is one piece.
      rw [Nat.sub_eq_zero_of_le (by omega), Nat.zero_add,
        Nat.div_eq_of_lt_le (m := size - 1 + size) (k := 1) (by omega) (by omega),
        Nat.div_eq_of_lt_le (m := (item :: rest).length + (size - 1)) (k := 1) (by omega) (by omega)]

/-- Two lists of one length are cut at the same places, so the paired pieces
join to the two lists. -/
theorem zip_pieces_flatMap {left : List α} {right : List β} (hlen : left.length = right.length) :
    ((pieces size left).zip (pieces size right)).flatMap Prod.fst = left ∧
      ((pieces size left).zip (pieces size right)).flatMap Prod.snd = right := by
  have hcount : (pieces size left).length = (pieces size right).length := by
    rw [pieces_length hsize, pieces_length hsize, hlen]
  constructor
  · rw [flatMap_def, map_fst_zip (Nat.le_of_eq hcount), pieces_flatten hsize]
  · rw [flatMap_def, map_snd_zip (Nat.le_of_eq hcount.symm), pieces_flatten hsize]

theorem length_of_mem_pieces {items : List α} (h : items.length % size = 0) :
    ∀ piece ∈ pieces size items, piece.length = size := by
  induction items using dropInduction hsize with
  | nil => simp
  | cons item rest ih =>
    have hlong : size ≤ (item :: rest).length := Nat.le_of_dvd (by simp) (Nat.dvd_of_mod_eq_zero h)
    have hrest : ((item :: rest).drop size).length % size = 0 := by
      rw [length_drop, ← Nat.mod_eq_sub_mod hlong]
      exact h
    rw [pieces_cons hsize, forall_mem_cons]
    exact ⟨by rw [length_take, Nat.min_eq_left hlong], ih hrest⟩

theorem flatMap_map_pieces {record : β → List α} {read : List α → β}
    (hread : ∀ piece, piece.length = size → record (read piece) = piece) {items : List α}
    (h : items.length % size = 0) : ((pieces size items).map read).flatMap record = items := by
  have hpieces : (pieces size items).map (fun piece => record (read piece)) =
      pieces size items := by
    conv_rhs => rw [← map_id (pieces size items)]
    exact map_congr_left fun piece hpiece =>
      hread piece (length_of_mem_pieces hsize h piece hpiece)
  rw [flatMap_map, flatMap_def, hpieces, pieces_flatten hsize]

end PbsGui.Lib
