import Mathlib.Data.List.Basic
import WorktreeTracker.FileTree

/-!
# Walks of a file tree

A walk of a directory meets exactly the entries that are no directories and are reached through
directories alone. Every name on the way is one that an entry can have.
-/

namespace WorktreeTracker

/-! ## Names of entries -/

/-- What the name of an entry is like. -/
theorem isEntryName_iff {name : String} :
    isEntryName name = true ↔
      name ≠ "" ∧ name ≠ "." ∧ name ≠ ".." ∧ name.utf8ByteSize ≤ maxNameLength ∧
        '/' ∉ name.toList ∧ '\x00' ∉ name.toList := by
  simp only [isEntryName, Bool.and_eq_true, decide_eq_true_eq, List.all_eq_true]
  constructor
  · rintro ⟨⟨⟨⟨hempty, hdot⟩, hdots⟩, hsize⟩, hall⟩
    refine ⟨hempty, hdot, hdots, hsize, fun h => ?_, fun h => ?_⟩
    · exact (hall _ h).1 rfl
    · exact (hall _ h).2 rfl
  · rintro ⟨hempty, hdot, hdots, hsize, hslash, hzero⟩
    refine ⟨⟨⟨⟨hempty, hdot⟩, hdots⟩, hsize⟩, fun c hc => ⟨?_, ?_⟩⟩
    · exact fun h => hslash (h ▸ hc)
    · exact fun h => hzero (h ▸ hc)

namespace FileTree

variable {t : FileTree}

/-- The entry at a place below the root directory is one of those listed. -/
theorem entryAt?_of_ne_nil {location : Location} (h : location ≠ []) :
    t.entryAt? location = t.entries.lookup location := by
  cases location with
  | nil => exact absurd rfl h
  | cons name rest => rfl

theorem mem_of_lookup {α β : Type} [BEq α] [LawfulBEq α] {key : α} {value : β}
    {entries : List (α × β)} (h : entries.lookup key = some value) : (key, value) ∈ entries := by
  obtain ⟨front, back, rfl, -⟩ := List.lookup_eq_some_iff.1 h
  exact List.mem_append_right _ List.mem_cons_self

/-- The names on the way to an entry are ones that an entry can have. -/
theorem isEntryName_of_entryAt? {location : Location} {entry : Entry}
    (h : t.entryAt? location = some entry) : ∀ name ∈ location, isEntryName name = true := by
  by_cases hnil : location = []
  · simp [hnil]
  · rw [entryAt?_of_ne_nil hnil] at h
    exact t.named _ (mem_of_lookup h)

/-- The names in a directory are those of the entries in it. -/
theorem mem_names_of_entryAt? {location : Location} {name : String} {entry : Entry}
    (h : t.entryAt? (location ++ [name]) = some entry) : name ∈ t.names location := by
  rw [entryAt?_of_ne_nil (by simp)] at h
  rw [names, List.mem_eraseDups, List.mem_filterMap]
  exact ⟨_, mem_of_lookup h, by simp⟩

/-! ## Walking -/

/-- An entry that is no directory is reached from a place by the given names, through directories
alone. -/
def Leaf (t : FileTree) : Location → List String → Entry → Prop
  | _, [], _ => False
  | location, [name], entry => t.entryAt? (location ++ [name]) = some entry ∧ entry ≠ .directory
  | location, name :: rest, entry =>
    t.entryAt? (location ++ [name]) = some .directory ∧ t.Leaf (location ++ [name]) rest entry

/-- The entry that is reached is at the place with the names. -/
theorem Leaf.entryAt? {location : Location} {names : List String} {entry : Entry}
    (h : t.Leaf location names entry) : t.entryAt? (location ++ names) = some entry := by
  induction names generalizing location with
  | nil => exact h.elim
  | cons name rest ih =>
    cases rest with
    | nil => exact h.1
    | cons next rest =>
      have hrest := ih h.2
      rwa [List.append_assoc] at hrest

/-- The names that lead to an entry are ones that an entry can have. -/
theorem Leaf.isEntryName {location : Location} {names : List String} {entry : Entry}
    (h : t.Leaf location names entry) : ∀ name ∈ names, isEntryName name = true :=
  fun name hname => isEntryName_of_entryAt? h.entryAt? name (List.mem_append_right _ hname)

theorem Leaf.ne_nil {location : Location} {names : List String} {entry : Entry}
    (h : t.Leaf location names entry) : names ≠ [] := by
  rintro rfl
  exact h

/-- The entry that is reached is no directory. -/
theorem Leaf.ne_directory {location : Location} {names : List String} {entry : Entry}
    (h : t.Leaf location names entry) : entry ≠ .directory := by
  induction names generalizing location with
  | nil => exact h.elim
  | cons name rest ih =>
    cases rest with
    | nil => exact h.2
    | cons next rest => exact ih h.2

/-- A walk meets the entries that are reached with as many names as directories are entered. -/
theorem mem_walk_iff {levels : Nat} {location : Location} {names : List String} {entry : Entry} :
    (names, entry) ∈ t.walk levels location ↔
      names.length ≤ levels ∧ t.Leaf location names entry := by
  induction levels generalizing location names with
  | zero =>
    rw [walk]
    cases names with
    | nil => simp [Leaf]
    | cons name rest => simp
  | succ levels ih =>
    rw [walk, List.mem_flatMap]
    constructor
    · rintro ⟨name, hname, h⟩
      -- a directory is walked with one level less, any other entry is met itself
      split at h
      next => cases h
      next hdirectory =>
        obtain ⟨⟨rest, other⟩, hrest, heq⟩ := List.mem_map.1 h
        obtain ⟨rfl, rfl⟩ := Prod.mk.inj heq
        obtain ⟨hlength, hleaf⟩ := ih.1 hrest
        refine ⟨Nat.succ_le_succ hlength, ?_⟩
        cases rest with
        | nil => exact hleaf.elim
        | cons next rest => exact ⟨hdirectory, hleaf⟩
      next other hother hentry =>
        obtain ⟨rfl, rfl⟩ := Prod.mk.inj (List.mem_singleton.1 h)
        exact ⟨Nat.succ_le_succ (Nat.zero_le _), hentry, hother⟩
    · rintro ⟨hlength, hleaf⟩
      cases names with
      | nil => exact hleaf.elim
      | cons name rest =>
        cases rest with
        | nil =>
          obtain ⟨hentry, hother⟩ := hleaf
          refine ⟨name, mem_names_of_entryAt? hentry, ?_⟩
          rw [hentry]
          cases entry with
          | directory => exact absurd rfl hother
          | file contents => exact List.mem_singleton.2 rfl
          | link target => exact List.mem_singleton.2 rfl
        | cons next rest =>
          obtain ⟨hdirectory, hrest⟩ := hleaf
          refine ⟨name, mem_names_of_entryAt? hdirectory, ?_⟩
          rw [hdirectory]
          exact List.mem_map.2 ⟨_, ih.2 ⟨Nat.le_of_succ_le_succ hlength, hrest⟩, rfl⟩

/-- No place is deeper than the tree. -/
theorem length_le_depth {location : Location} {entry : Entry}
    (h : t.entryAt? location = some entry) : location.length ≤ t.depth := by
  have le_foldl (lengths : List Nat) (n : Nat) :
      n ≤ lengths.foldl max n ∧ ∀ m ∈ lengths, m ≤ lengths.foldl max n := by
    induction lengths generalizing n with
    | nil => exact ⟨Nat.le_refl n, by simp⟩
    | cons m rest ih =>
      obtain ⟨hfirst, hrest⟩ := ih (max n m)
      refine ⟨Nat.le_trans (Nat.le_max_left n m) hfirst, ?_⟩
      rintro k (_ | ⟨_, hk⟩)
      · exact Nat.le_trans (Nat.le_max_right n m) hfirst
      · exact hrest k hk
  by_cases hnil : location = []
  · simp [hnil]
  · rw [entryAt?_of_ne_nil hnil] at h
    exact (le_foldl _ 0).2 _ (List.mem_map.2 ⟨_, mem_of_lookup h, rfl⟩)

/-- The walk of a directory meets everything that is reached from it. -/
theorem mem_leavesBelow_iff {location : Location} {names : List String} {entry : Entry} :
    (names, entry) ∈ t.leavesBelow location ↔ t.Leaf location names entry := by
  rw [leavesBelow, mem_walk_iff, and_iff_right_iff_imp]
  intro h
  have hdepth := length_le_depth h.entryAt?
  rw [List.length_append] at hdepth
  exact Nat.le_trans (Nat.le_add_left _ _) hdepth

/-- The regular files below a directory. -/
theorem mem_filesBelow_iff {location : Location} {names : List String} {contents : ByteArray} :
    (names, contents) ∈ t.filesBelow location ↔ t.Leaf location names (.file contents) := by
  rw [filesBelow, List.mem_filterMap, ← mem_leavesBelow_iff]
  constructor
  · rintro ⟨⟨other, entry⟩, hmem, h⟩
    cases entry with
    | file found =>
      obtain ⟨rfl, rfl⟩ := Prod.mk.inj (Option.some.inj h)
      exact hmem
    | directory => cases h
    | link target => cases h
  · exact fun h => ⟨_, h, rfl⟩

/-! ## Links -/

variable (t) in
/-- There is no link in the tree. -/
def LinkFree : Prop := ∀ place target, t.entryAt? place ≠ some (.link target)

end FileTree

end WorktreeTracker
