import Mathlib.Data.List.Basic
import Mathlib.Data.List.Pairwise

/-!
# File trees and walks

A tree of files and folders, the entries of a folder in the order of a walk, and the walk
itself, which goes into every folder it can list and does not follow links.

Paths are lists of names.  Two files of a tree are never at one path, nor is one below
the other; this is stated for any function of the names that tells the entries of each
folder apart.
-/

namespace PbsGui.Lib

open List

/-! ### Trees -/

mutual

/-- What is found at a path. -/
inductive Node (N F : Type)
  | file (file : F)
  | folder (entries : Entries N F)
  /-- A link or a device. -/
  | other

/-- The entries of a folder. -/
inductive Entries (N F : Type)
  | nil
  | cons (name : N) (node : Node N F) (rest : Entries N F)

end

/-- What a walk yields. -/
inductive WalkItem (N F : Type)
  | file (path : List N) (file : F)
  /-- A folder, a link or a device. -/
  | nonFile (path : List N)
  | error (path : List N) (reason : String)

namespace WalkItem

variable {N F : Type}

def under (name : N) : WalkItem N F → WalkItem N F
  | file path f => file (name :: path) f
  | nonFile path => nonFile (name :: path)
  | error path reason => error (name :: path) reason

def file? : WalkItem N F → Option (List N × F)
  | file path f => some (path, f)
  | nonFile _ | error _ _ => none

theorem file?_under (name : N) (item : WalkItem N F) :
    (item.under name).file? = item.file?.map fun found => (name :: found.1, found.2) := by
  cases item <;> rfl

end WalkItem

variable {N F : Type}

mutual

/-- Walk a tree; `listing` says which folders cannot be listed. -/
def Node.walk (listing : List N → Option String) : Node N F → List (WalkItem N F)
  | .file f => [.file [] f]
  | .other => [.nonFile []]
  | .folder entries =>
    match listing [] with
    | some reason => [.nonFile [], .error [] reason]
    | none => .nonFile [] :: entries.walk listing

def Entries.walk (listing : List N → Option String) : Entries N F → List (WalkItem N F)
  | .nil => []
  | .cons name node rest =>
    (node.walk fun path => listing (name :: path)).map (WalkItem.under name) ++ rest.walk listing

end

def walkedFiles (items : List (WalkItem N F)) : List (List N × F) :=
  items.filterMap WalkItem.file?

def Node.files (node : Node N F) : List (List N × F) :=
  walkedFiles (node.walk fun _ => none)

theorem walkedFiles_append (items more : List (WalkItem N F)) :
    walkedFiles (items ++ more) = walkedFiles items ++ walkedFiles more :=
  filterMap_append

theorem walkedFiles_under (name : N) (items : List (WalkItem N F)) :
    walkedFiles (items.map (WalkItem.under name)) =
      (walkedFiles items).map fun found => (name :: found.1, found.2) := by
  simp only [walkedFiles, filterMap_map, map_filterMap]
  exact filterMap_congr fun item _ => WalkItem.file?_under name item

variable {items : List (WalkItem N F)}

theorem mem_walkedFiles {found : List N × F} :
    found ∈ walkedFiles items ↔ WalkItem.file found.1 found.2 ∈ items := by
  rw [walkedFiles, mem_filterMap]
  constructor
  · rintro ⟨item, hitem, hfile⟩
    cases item with
    | file path f =>
      cases hfile
      exact hitem
    | nonFile | error => cases hfile
  · exact fun hitem => ⟨_, hitem, rfl⟩

mutual

theorem Node.walk_eq_of_no_error {listing : List N → Option String} :
    ∀ {node : Node N F}, (∀ path reason, WalkItem.error path reason ∉ node.walk listing) →
      node.walk listing = node.walk fun _ => none
  | .file _, _ => rfl
  | .other, _ => rfl
  | .folder entries, h => by
    rw [Node.walk] at h ⊢
    split at h
    · exact absurd (mem_cons_of_mem _ mem_cons_self) (h _ _)
    · rw [Node.walk, Entries.walk_eq_of_no_error fun path reason hmem =>
        h path reason (mem_cons_of_mem _ hmem)]

theorem Entries.walk_eq_of_no_error {listing : List N → Option String} :
    ∀ {entries : Entries N F}, (∀ path reason, WalkItem.error path reason ∉ entries.walk listing) →
      entries.walk listing = entries.walk fun _ => none
  | .nil, _ => rfl
  | .cons name node rest, h => by
    rw [Entries.walk] at h ⊢
    rw [Entries.walk,
      Node.walk_eq_of_no_error fun path reason hmem =>
        h (name :: path) reason (mem_append_left _ (mem_map.mpr ⟨_, hmem, rfl⟩)),
      Entries.walk_eq_of_no_error fun path reason hmem =>
        h path reason (mem_append_right _ hmem)]

end

mutual

/-- A file of a tree, at a path on which every folder can be listed. -/
inductive Node.Reaches : (List N → Option String) → Node N F → List N → F → Prop
  | file (listing : List N → Option String) (file : F) : Node.Reaches listing (.file file) [] file
  | folder {listing : List N → Option String} {entries : Entries N F} {below : List N} {file : F}
      (hlisted : listing [] = none) (h : Entries.Reaches listing entries below file) :
      Node.Reaches listing (.folder entries) below file

inductive Entries.Reaches : (List N → Option String) → Entries N F → List N → F → Prop
  | here {listing : List N → Option String} {name : N} {node : Node N F} {below : List N} {file : F}
      (rest : Entries N F) (h : Node.Reaches (fun path => listing (name :: path)) node below file) :
      Entries.Reaches listing (.cons name node rest) (name :: below) file
  | later {listing : List N → Option String} {rest : Entries N F} {below : List N} {file : F}
      (name : N) (node : Node N F) (h : Entries.Reaches listing rest below file) :
      Entries.Reaches listing (.cons name node rest) below file

end

theorem WalkItem.file_mem_map_under {name : N} {path : List N} {file : F}
    {items : List (WalkItem N F)} :
    WalkItem.file path file ∈ items.map (WalkItem.under name) ↔
      ∃ below, path = name :: below ∧ WalkItem.file below file ∈ items := by
  rw [mem_map]
  constructor
  · rintro ⟨item, hitem, hunder⟩
    cases item with
    | file below f =>
      cases hunder
      exact ⟨below, rfl, hitem⟩
    | nonFile | error => cases hunder
  · rintro ⟨below, rfl, hitem⟩
    exact ⟨_, hitem, rfl⟩

mutual

theorem Node.file_mem_walk_iff {listing : List N → Option String} {below : List N} {file : F} :
    ∀ {node : Node N F}, WalkItem.file below file ∈ node.walk listing ↔
      node.Reaches listing below file
  | .file f => by
    rw [Node.walk, mem_singleton]
    constructor
    · rintro ⟨⟩
      exact .file listing _
    · rintro ⟨⟩
      rfl
  | .other => by
    rw [Node.walk, mem_singleton]
    constructor <;> rintro ⟨⟩
  | .folder entries => by
    rw [Node.walk]
    split
    · rename_i reason hreason
      constructor
      · intro h
        simp at h
      · rintro (_ | ⟨hlist, -⟩)
        rw [hlist] at hreason
        cases hreason
    · rename_i hlist
      rw [mem_cons, Entries.file_mem_walk_iff]
      constructor
      · rintro (⟨⟨⟩⟩ | h)
        exact .folder hlist h
      · rintro (_ | ⟨-, h⟩)
        exact .inr h

theorem Entries.file_mem_walk_iff {listing : List N → Option String} {below : List N} {file : F} :
    ∀ {entries : Entries N F}, WalkItem.file below file ∈ entries.walk listing ↔
      entries.Reaches listing below file
  | .nil => by
    rw [Entries.walk]
    constructor
    · intro h
      cases h
    · rintro ⟨⟩
  | .cons name node rest => by
    rw [Entries.walk, mem_append, WalkItem.file_mem_map_under, Entries.file_mem_walk_iff]
    simp only [Node.file_mem_walk_iff]
    constructor
    · rintro (⟨path, rfl, h⟩ | h)
      · exact .here rest h
      · exact .later name node h
    · intro h
      cases h with
      | here _ h => exact .inl ⟨_, rfl, h⟩
      | later _ _ h => exact .inr h

end

def WalkItem.unexplained : WalkItem N F → WalkItem N F
  | file path f => file path f
  | nonFile path => nonFile path
  | error path _ => error path ""

theorem WalkItem.map_unexplained_under (name : N) (items : List (WalkItem N F)) :
    (items.map (WalkItem.under name)).map WalkItem.unexplained =
      (items.map WalkItem.unexplained).map (WalkItem.under name) := by
  rw [map_map, map_map]
  refine map_congr_left fun item _ => ?_
  cases item <;> rfl

mutual

/-- Where the same folders cannot be listed, the walks differ in the reasons only. -/
theorem Node.walk_unexplained :
    ∀ {listing other : List N → Option String} (node : Node N F),
      (∀ path, listing path = none ↔ other path = none) →
      (node.walk listing).map WalkItem.unexplained = (node.walk other).map WalkItem.unexplained
  | _, _, .file _, _ => rfl
  | _, _, .other, _ => rfl
  | listing, other, .folder entries, h => by
    rw [Node.walk, Node.walk]
    have hlist := h []
    cases hhere : listing [] with
    | none =>
      rw [hlist.mp hhere]
      simp only [map_cons, Entries.walk_unexplained entries h]
    | some reason =>
      cases hthere : other [] with
      | none => exact absurd (hlist.mpr hthere) (by simp [hhere])
      | some reason' => rfl

theorem Entries.walk_unexplained :
    ∀ {listing other : List N → Option String} (entries : Entries N F),
      (∀ path, listing path = none ↔ other path = none) →
      (entries.walk listing).map WalkItem.unexplained =
        (entries.walk other).map WalkItem.unexplained
  | _, _, .nil, _ => rfl
  | _, _, .cons name node rest, h => by
    rw [Entries.walk, Entries.walk, map_append, map_append,
      WalkItem.map_unexplained_under, WalkItem.map_unexplained_under,
      Node.walk_unexplained node fun path => h (name :: path), Entries.walk_unexplained rest h]

end

mutual

/-- The same tree, with the entries of its folders in any order. -/
inductive Node.Reordered : Node N F → Node N F → Prop
  | file (file : F) : Node.Reordered (.file file) (.file file)
  | other : Node.Reordered .other .other
  | folder {entries others : Entries N F} (h : Entries.Reordered entries others) :
      Node.Reordered (.folder entries) (.folder others)

inductive Entries.Reordered : Entries N F → Entries N F → Prop
  | nil : Entries.Reordered .nil .nil
  | cons (name : N) {node node' : Node N F} {rest rest' : Entries N F}
      (h : Node.Reordered node node') (hrest : Entries.Reordered rest rest') :
      Entries.Reordered (.cons name node rest) (.cons name node' rest')
  | swap (first second : N) (node node' : Node N F) (rest : Entries N F) :
      Entries.Reordered (.cons first node (.cons second node' rest))
        (.cons second node' (.cons first node rest))
  | trans {entries middle others : Entries N F} (h : Entries.Reordered entries middle)
      (h' : Entries.Reordered middle others) : Entries.Reordered entries others

end

mutual

theorem Node.Reordered.symm : ∀ {node node' : Node N F}, node.Reordered node' → node'.Reordered node
  | _, _, .file f => .file f
  | _, _, .other => .other
  | _, _, .folder h => .folder (Entries.Reordered.symm h)

theorem Entries.Reordered.symm :
    ∀ {entries others : Entries N F}, entries.Reordered others → others.Reordered entries
  | _, _, .nil => .nil
  | _, _, .cons name h hrest => .cons name (Node.Reordered.symm h) (Entries.Reordered.symm hrest)
  | _, _, .swap first second node node' rest => .swap second first node' node rest
  | _, _, .trans h h' => .trans (Entries.Reordered.symm h') (Entries.Reordered.symm h)

end

mutual

/-- A walk of the same tree in another order yields the same items in another order. -/
theorem Node.Reordered.walk_perm {listing : List N → Option String} :
    ∀ {node node' : Node N F}, node.Reordered node' → (node.walk listing).Perm (node'.walk listing)
  | _, _, .file _ => List.Perm.refl _
  | _, _, .other => List.Perm.refl _
  | _, _, .folder h => by
    rw [Node.walk, Node.walk]
    split
    · exact List.Perm.refl _
    · exact (Entries.Reordered.walk_perm h).cons _

theorem Entries.Reordered.walk_perm {listing : List N → Option String} :
    ∀ {entries others : Entries N F}, entries.Reordered others →
      (entries.walk listing).Perm (others.walk listing)
  | _, _, .nil => List.Perm.refl _
  | _, _, .cons name h hrest => by
    rw [Entries.walk, Entries.walk]
    exact ((Node.Reordered.walk_perm h).map _).append (Entries.Reordered.walk_perm hrest)
  | _, _, .swap first second node node' rest => by
    simp only [Entries.walk, ← append_assoc]
    exact (perm_append_comm).append_right _
  | _, _, .trans h h' => (Entries.Reordered.walk_perm h).trans (Entries.Reordered.walk_perm h')

end

/-! ### Files are apart -/

section Apart

variable {κ : Type}

def Apart (left right : List κ) : Prop :=
  ¬ left <+: right ∧ ¬ right <+: left

variable {left right : List κ}

theorem Apart.ne (h : Apart left right) : left ≠ right := fun heq => h.1 (heq ▸ prefix_refl _)

theorem Apart.cons (h : Apart left right) (first : κ) : Apart (first :: left) (first :: right) :=
  ⟨fun hle => h.1 ((prefix_cons_inj first).mp hle), fun hle => h.2 ((prefix_cons_inj first).mp hle)⟩

theorem Apart.append (h : Apart left right) (above : List κ) :
    Apart (above ++ left) (above ++ right) := by
  induction above with
  | nil => exact h
  | cons first above ih => exact ih.cons first

theorem apart_of_ne {first second : κ} (h : first ≠ second) (left right : List κ) :
    Apart (first :: left) (second :: right) :=
  ⟨fun hle => h (cons_prefix_cons.mp hle).1, fun hle => h (cons_prefix_cons.mp hle).1.symm⟩

variable (key : N → κ)

def Entries.names : Entries N F → List N
  | .nil => []
  | .cons name _ rest => name :: rest.names

mutual

/-- The key tells the entries of every folder apart. -/
def Node.KeysApart : Node N F → Prop
  | .file _ | .other => True
  | .folder entries => (entries.names.map key).Nodup ∧ entries.KeysApart

def Entries.KeysApart : Entries N F → Prop
  | .nil => True
  | .cons _ node rest => node.KeysApart ∧ rest.KeysApart

end

/-- The keys on the paths of two files keep them apart. -/
def FilesApart (left right : List N × F) : Prop :=
  Apart (left.1.map key) (right.1.map key)

variable {key}

theorem Entries.exists_name_of_walk {listing : List N → Option String} {found : List N × F} :
    ∀ {entries : Entries N F}, found ∈ walkedFiles (entries.walk listing) →
      ∃ name ∈ entries.names, ∃ below, found.1 = name :: below
  | .nil, h => by simp [Entries.walk, walkedFiles] at h
  | .cons name node rest, h => by
    rw [Entries.walk, walkedFiles_append, walkedFiles_under, mem_append] at h
    rcases h with hhere | hrest
    · obtain ⟨below, -, rfl⟩ := mem_map.mp hhere
      exact ⟨name, mem_cons_self, below.1, rfl⟩
    · obtain ⟨other, hother, hpath⟩ := exists_name_of_walk hrest
      exact ⟨other, mem_cons_of_mem _ hother, hpath⟩

mutual

theorem Node.walk_filesApart {listing : List N → Option String} :
    ∀ {node : Node N F}, node.KeysApart key →
      (walkedFiles (node.walk listing)).Pairwise (FilesApart key)
  | .file f, _ => pairwise_singleton _ _
  | .other, _ => List.Pairwise.nil
  | .folder entries, h => by
    rw [Node.walk]
    split
    · exact List.Pairwise.nil
    · exact Entries.walk_filesApart h.1 h.2

theorem Entries.walk_filesApart {listing : List N → Option String} :
    ∀ {entries : Entries N F}, (entries.names.map key).Nodup → entries.KeysApart key →
      (walkedFiles (entries.walk listing)).Pairwise (FilesApart key)
  | .nil, _, _ => by simp [Entries.walk, walkedFiles]
  | .cons name node rest, hnodup, h => by
    obtain ⟨hnew, hnodup⟩ := nodup_cons.mp hnodup
    rw [Entries.walk, walkedFiles_append, walkedFiles_under, pairwise_append]
    refine ⟨?_, Entries.walk_filesApart hnodup h.2, ?_⟩
    · refine pairwise_map.mpr ((Node.walk_filesApart h.1).imp fun hapart => ?_)
      exact hapart.cons (key name)
    · -- a file below this entry and one below another
      intro left hleft right hright
      obtain ⟨below, -, rfl⟩ := mem_map.mp hleft
      obtain ⟨other, hother, path, hpath⟩ := Entries.exists_name_of_walk hright
      rw [FilesApart, hpath]
      refine apart_of_ne (fun heq => hnew ?_) _ _
      rw [heq]
      exact mem_map_of_mem hother

end

theorem Entries.eq_of_keys_eq {entries : Entries N F} {left right : List N × F}
    (hnodup : (entries.names.map key).Nodup) (hapart : entries.KeysApart key)
    (hleft : left ∈ walkedFiles (entries.walk fun _ => none))
    (hright : right ∈ walkedFiles (entries.walk fun _ => none))
    (hkeys : left.1.map key = right.1.map key) : left = right := by
  have hfiles : (walkedFiles (entries.walk fun _ => none)).Pairwise (FilesApart key) :=
    Entries.walk_filesApart hnodup hapart
  by_contra hne
  have hsymm : Std.Symm (FilesApart key (F := F)) := ⟨fun _ _ h => ⟨h.2, h.1⟩⟩
  exact (hfiles.forall hleft hright hne).ne hkeys

variable [DecidableEq κ]

def Entries.lookup (key : N → κ) (wanted : κ) : Entries N F → Option (N × Node N F)
  | .nil => none
  | .cons name node rest => if key name = wanted then some (name, node) else rest.lookup key wanted

/-- The folder that the keys lead to, with the names on the way as they are in the tree. -/
def Entries.descend (key : N → κ) : List κ → Entries N F → Option (List N × Entries N F)
  | [], entries => some ([], entries)
  | wanted :: later, entries =>
    match entries.lookup key wanted with
    | some (name, .folder inner) =>
      (inner.descend key later).map fun found => (name :: found.1, found.2)
    | _ => none

theorem Entries.lookup_spec {wanted : κ} {name : N} {node : Node N F} :
    ∀ {entries : Entries N F}, entries.lookup key wanted = some (name, node) →
      key name = wanted ∧ ∀ below file, (below, file) ∈ node.files →
        (name :: below, file) ∈ walkedFiles (entries.walk fun _ => none)
  | .nil, h => nomatch h
  | .cons first node' rest, h => by
    rw [Entries.lookup] at h
    simp only [Entries.walk, walkedFiles_append, walkedFiles_under, mem_append]
    split at h
    case isTrue hfirst =>
      cases h
      exact ⟨hfirst, fun below file hfile => .inl (mem_map_of_mem hfile)⟩
    case isFalse =>
      obtain ⟨hkey, hfiles⟩ := Entries.lookup_spec h
      exact ⟨hkey, fun below file hfile => .inr (hfiles below file hfile)⟩

/-- What the keys lead to is at these keys, and its files are files of the tree. -/
theorem Entries.descend_spec {wanted : List κ} {path : List N} {entries inner : Entries N F}
    (h : entries.descend key wanted = some (path, inner)) :
    path.map key = wanted ∧ ∀ below file, (below, file) ∈ walkedFiles (inner.walk fun _ => none) →
      (path ++ below, file) ∈ walkedFiles (entries.walk fun _ => none) := by
  induction wanted generalizing entries path with
  | nil =>
    cases h
    exact ⟨rfl, fun _ _ hfile => hfile⟩
  | cons first later ih =>
    rw [Entries.descend] at h
    split at h
    case h_2 => cases h
    case h_1 name folder hlookup =>
      obtain ⟨⟨rest, last⟩, hrest, hpath⟩ := Option.map_eq_some_iff.mp h
      cases hpath
      obtain ⟨hkey, hfiles⟩ := Entries.lookup_spec hlookup
      obtain ⟨hkeys, hbelow⟩ := ih hrest
      refine ⟨by rw [map_cons, hkey, hkeys], fun below file hfile => ?_⟩
      exact hfiles _ file (hbelow below file hfile)

end Apart

end PbsGui.Lib
