import Mathlib.Data.List.Nodup
import Mathlib.Order.Basic
import WorktreeTracker.OrderedMap

/-!
# Lookups in ordered maps

What inserting and erasing do to a later lookup, what a lookup says about the entries, and what a
fold of insertions holds: under each key the last value that was put there.
-/

namespace WorktreeTracker.OrderedMap

variable {κ α : Type} [Ord κ]

/-! ## Looking up -/

theorem lookupEntry_cons (key k : κ) (v : α) (rest : List (κ × α)) :
    lookupEntry key ((k, v) :: rest) =
      if compare key k = .eq then some v else lookupEntry key rest := by
  simp only [lookupEntry]
  cases compare key k <;> rfl

@[simp] theorem find?_empty (key : κ) : (empty : OrderedMap κ α).find? key = none := rfl

/-- A lookup in entries of which none has the key fails. -/
theorem lookupEntry_eq_none {key : κ} {entries : List (κ × α)}
    (h : ∀ e ∈ entries, compare key e.1 ≠ .eq) : lookupEntry key entries = none := by
  induction entries with
  | nil => rfl
  | cons entry rest ih =>
    obtain ⟨k, v⟩ := entry
    rw [lookupEntry_cons, if_neg (h (k, v) List.mem_cons_self)]
    exact ih fun e he => h e (List.mem_cons_of_mem _ he)

/-- Nothing is found under an erased key. -/
@[simp] theorem find?_erase_self (m : OrderedMap κ α) (key : κ) : (m.erase key).find? key = none :=
  lookupEntry_eq_none fun e he => by simpa using (List.mem_filter.1 he).2

/-- The first key of a kind comes before all others of the kind. -/
theorem eq_or_lt_of_find?_keys {m : OrderedMap κ α} {p : κ → Bool} {first key : κ}
    (h : m.keys.find? p = some first) (hmem : key ∈ m.keys) (hkind : p key = true) :
    key = first ∨ compare first key = .lt := by
  obtain ⟨-, front, back, hsplit, hfront⟩ := List.find?_eq_some_iff_append.1 h
  have hsorted : m.keys.Pairwise fun a b => compare a b = .lt := List.pairwise_map.2 m.sorted
  rw [hsplit] at hmem hsorted
  rcases List.mem_append.1 hmem with hin | hin
  · have hnot := hfront key hin
    simp [hkind] at hnot
  · rcases List.mem_cons.1 hin with heq | hlater
    · exact .inl heq
    · exact .inr ((List.pairwise_cons.1 (List.pairwise_append.1 hsorted).2.1).1 key hlater)

/-- Lists that increase by a key are the same when they have the same members. -/
theorem eq_of_increasing [Std.TransOrd κ] {β : Type} {key : β → κ} {xs ys : List β}
    (hxs : xs.Pairwise fun a b => compare (key a) (key b) = .lt)
    (hys : ys.Pairwise fun a b => compare (key a) (key b) = .lt)
    (h : ∀ a, a ∈ xs ↔ a ∈ ys) : xs = ys := by
  have hnodup {zs : List β} (hzs : zs.Pairwise fun a b => compare (key a) (key b) = .lt) :
      zs.Nodup := by
    refine hzs.imp fun hlt heq => ?_
    rw [heq, Std.ReflOrd.compare_self] at hlt
    cases hlt
  have hperm : xs.Perm ys := (List.perm_ext_iff_of_nodup (hnodup hxs) (hnodup hys)).2 h
  refine hperm.eq_of_pairwise (fun a b _ _ hlt hgt => ?_) hxs hys
  -- no two keys are each below the other
  rw [Std.OrientedCmp.gt_iff_lt.2 hgt] at hlt
  cases hlt

variable [Std.LawfulEqOrd κ]

/-- Two keys compare as equal only when they are equal. -/
theorem compare_eq_iff {a b : κ} : compare a b = .eq ↔ a = b :=
  Std.LawfulEqOrd.compare_eq_iff_eq

/-- A lookup gives the value of the entry with the key. -/
theorem find?_eq_some_iff {m : OrderedMap κ α} {key : κ} {value : α} :
    m.find? key = some value ↔ (key, value) ∈ m.entries := by
  obtain ⟨entries, sorted⟩ := m
  simp only [find?]
  induction entries with
  | nil => simp [lookupEntry]
  | cons entry rest ih =>
    obtain ⟨k, v⟩ := entry
    obtain ⟨first, others⟩ := List.pairwise_cons.1 sorted
    rw [lookupEntry_cons, List.mem_cons, Prod.mk.injEq]
    by_cases hk : key = k
    · subst hk
      rw [if_pos (compare_eq_iff.2 rfl)]
      constructor
      · intro h
        exact .inl ⟨rfl, (Option.some.inj h).symm⟩
      · rintro (⟨-, rfl⟩ | h)
        · rfl
        · have hlt : compare key key = .lt := first _ h
          simp at hlt
    · rw [if_neg fun h => hk (compare_eq_iff.1 h), ih others]
      simp [hk]

/-- A key is there when a lookup finds its value. -/
theorem mem_keys_iff {m : OrderedMap κ α} {key : κ} :
    key ∈ m.keys ↔ ∃ value, m.find? key = some value := by
  simp [keys, find?_eq_some_iff]

/-- No key is there twice. -/
theorem nodup_keys (m : OrderedMap κ α) : m.keys.Nodup := by
  rw [keys, List.nodup_iff_pairwise_ne, List.pairwise_map]
  refine m.sorted.imp ?_
  intro a b hlt heq
  rw [heq] at hlt
  simp at hlt

/-- Erasing leaves the other keys alone. -/
theorem find?_erase_of_ne (m : OrderedMap κ α) {key other : κ} (h : other ≠ key) :
    (m.erase key).find? other = m.find? other := by
  refine Option.ext fun value => ?_
  simp only [find?_eq_some_iff, erase, List.mem_filter, and_iff_left_iff_imp, bne_iff_ne]
  exact fun _ hc => h (compare_eq_iff.1 hc).symm

theorem find?_erase [DecidableEq κ] (m : OrderedMap κ α) (key other : κ) :
    (m.erase key).find? other = if other = key then none else m.find? other := by
  split
  next h => rw [h, find?_erase_self]
  next h => exact find?_erase_of_ne m h

/-- The entries with a key are the one that a lookup finds. -/
theorem filter_key [DecidableEq κ] (m : OrderedMap κ α) (key : κ) :
    (m.entries.filter fun e => e.1 = key) = ((m.find? key).map (key, ·)).toList := by
  obtain ⟨entries, sorted⟩ := m
  simp only [find?]
  induction entries with
  | nil => rfl
  | cons entry rest ih =>
    obtain ⟨k, v⟩ := entry
    obtain ⟨first, others⟩ := List.pairwise_cons.1 sorted
    rw [lookupEntry_cons]
    by_cases hk : key = k
    · subst hk
      have hrest : (rest.filter fun e => e.1 = key) = [] := by
        rw [List.filter_eq_nil_iff]
        intro e he heq
        have hlt := first e he
        rw [of_decide_eq_true heq] at hlt
        simp at hlt
      rw [if_pos (compare_eq_iff.2 rfl), List.filter_cons_of_pos (by simp), hrest]
      rfl
    · rw [if_neg fun h => hk (compare_eq_iff.1 h), List.filter_cons_of_neg (by simp [Ne.symm hk])]
      exact ih others

/-- The first entry with a key is the one that a lookup finds. -/
theorem find?_entries [DecidableEq κ] (m : OrderedMap κ α) (key : κ) :
    (m.entries.find? fun e => e.1 = key) = (m.find? key).map (key, ·) := by
  rw [← List.head?_filter, filter_key]
  cases m.find? key <;> rfl

/-! ## Inserting -/

theorem lookupEntry_insertEntry_self (key : κ) (value : α) (entries : List (κ × α)) :
    lookupEntry key (insertEntry key value entries) = some value := by
  induction entries with
  | nil => simp [insertEntry, lookupEntry_cons]
  | cons entry rest ih =>
    obtain ⟨k, v⟩ := entry
    simp only [insertEntry]
    split
    next => simp [lookupEntry_cons]
    next => simp [lookupEntry_cons]
    next above => simp [lookupEntry_cons, above, ih]

theorem lookupEntry_insertEntry_of_ne {key other : κ} (h : other ≠ key) (value : α)
    (entries : List (κ × α)) :
    lookupEntry other (insertEntry key value entries) = lookupEntry other entries := by
  have hne : compare other key ≠ .eq := fun hc => h (compare_eq_iff.1 hc)
  induction entries with
  | nil => simp [insertEntry, lookupEntry_cons, hne]
  | cons entry rest ih =>
    obtain ⟨k, v⟩ := entry
    simp only [insertEntry]
    split
    next => simp [lookupEntry_cons, hne]
    next same =>
      obtain rfl := compare_eq_iff.1 same
      simp [lookupEntry_cons, hne]
    next => rw [lookupEntry_cons, lookupEntry_cons, ih]

/-- Under a new key one entry comes in. -/
theorem insertEntry_perm {key : κ} (value : α) {entries : List (κ × α)}
    (h : lookupEntry key entries = none) :
    (insertEntry key value entries).Perm ((key, value) :: entries) := by
  induction entries with
  | nil => exact .refl _
  | cons entry rest ih =>
    obtain ⟨k, v⟩ := entry
    rw [lookupEntry_cons] at h
    simp only [insertEntry]
    split
    next => exact .refl _
    next same =>
      rw [compare_eq_iff.1 same, if_pos (compare_eq_iff.2 rfl)] at h
      cases h
    next above =>
      rw [if_neg (by simp [above])] at h
      exact ((ih h).cons _).trans (.swap _ _ _)

variable [Std.TransOrd κ]

/-- Maps that find the same under every key are the same. -/
theorem ext_find? {m m' : OrderedMap κ α} (h : ∀ key, m.find? key = m'.find? key) : m = m' := by
  obtain ⟨entries, sorted⟩ := m
  obtain ⟨entries', sorted'⟩ := m'
  have hmem (e : κ × α) : e ∈ entries ↔ e ∈ entries' := by
    obtain ⟨key, value⟩ := e
    rw [← find?_eq_some_iff (m := ⟨entries, sorted⟩), h, find?_eq_some_iff]
  obtain rfl := eq_of_increasing sorted sorted' hmem
  rfl

/-- Under a new key one entry comes in. -/
theorem insert_perm (m : OrderedMap κ α) {key : κ} (value : α) (h : m.find? key = none) :
    (m.insert key value).entries.Perm ((key, value) :: m.entries) :=
  insertEntry_perm value h

/-- The value just put under a key is found there. -/
@[simp] theorem find?_insert_self (m : OrderedMap κ α) (key : κ) (value : α) :
    (m.insert key value).find? key = some value :=
  lookupEntry_insertEntry_self key value m.entries

/-- Inserting leaves the other keys alone. -/
theorem find?_insert_of_ne (m : OrderedMap κ α) {key other : κ} (h : other ≠ key) (value : α) :
    (m.insert key value).find? other = m.find? other :=
  lookupEntry_insertEntry_of_ne h value m.entries

theorem find?_insert [DecidableEq κ] (m : OrderedMap κ α) (key other : κ) (value : α) :
    (m.insert key value).find? other = if other = key then some value else m.find? other := by
  split
  next h => rw [h, find?_insert_self]
  next h => exact find?_insert_of_ne m h value

/-- Inserting under a new key leaves a value that is there alone. -/
theorem find?_insertIfNew [DecidableEq κ] (m : OrderedMap κ α) (key other : κ) (value : α) :
    (m.insertIfNew key value).find? other =
      if other = key then some ((m.find? key).getD value) else m.find? other := by
  unfold insertIfNew contains
  cases hfound : m.find? key with
  | none => exact find?_insert m key other value
  | some found =>
    rw [Option.isSome_some, if_pos rfl]
    split
    next h => rw [h, hfound, Option.getD_some]
    next => rfl

/-! ## Folds of insertions -/

/-- After a fold of insertions a key has the last value listed for it, or the one it had before. -/
theorem find?_foldl_insert [DecidableEq κ] (entries : List (κ × α)) (m : OrderedMap κ α) (key : κ) :
    (entries.foldl (fun m e => m.insert e.1 e.2) m).find? key =
      (((entries.filter fun e => e.1 = key).getLast?).map Prod.snd).or (m.find? key) := by
  induction entries generalizing m with
  | nil => simp
  | cons entry rest ih =>
    obtain ⟨k, v⟩ := entry
    rw [List.foldl_cons, ih, find?_insert]
    by_cases h : k = key
    · subst h
      rw [List.filter_cons_of_pos (by simp), List.getLast?_cons]
      cases (rest.filter fun e => e.1 = k).getLast? <;> simp
    · rw [List.filter_cons_of_neg (by simpa using h), if_neg fun hk => h hk.symm]

/-- The map of a list of entries holds the last value listed for a key. -/
theorem find?_ofList [DecidableEq κ] (entries : List (κ × α)) (key : κ) :
    (ofList entries).find? key =
      ((entries.filter fun e => e.1 = key).getLast?).map Prod.snd := by
  rw [ofList, find?_foldl_insert, find?_empty, Option.or_none]

/-- A later list of entries is looked up first. -/
theorem find?_ofList_append [DecidableEq κ] (entries more : List (κ × α)) (key : κ) :
    (ofList (entries ++ more)).find? key =
      ((ofList more).find? key).or ((ofList entries).find? key) := by
  rw [find?_ofList, find?_ofList, find?_ofList, List.filter_append, List.getLast?_append,
    Option.map_or]

/-- The first entry is looked up last. -/
theorem find?_ofList_cons [DecidableEq κ] (k : κ) (value : α) (rest : List (κ × α)) (key : κ) :
    (ofList ((k, value) :: rest)).find? key =
      ((ofList rest).find? key).or (if key = k then some value else none) := by
  have hfirst : (ofList [(k, value)]).find? key = if key = k then some value else none := by
    rw [ofList, List.foldl_cons, List.foldl_nil, find?_insert, find?_empty]
  rw [← List.singleton_append, find?_ofList_append, hfirst]

/-- The map of a list has nothing under a key that is not listed. -/
theorem find?_ofList_eq_none_iff [DecidableEq κ] {entries : List (κ × α)} {key : κ} :
    (ofList entries).find? key = none ↔ ∀ e ∈ entries, e.1 ≠ key := by
  rw [find?_ofList, Option.map_eq_none_iff, List.getLast?_eq_none_iff, List.filter_eq_nil_iff]
  simp only [decide_eq_true_eq, ne_eq]

/-- What the map of a list holds is in the list. -/
theorem mem_of_find?_ofList [DecidableEq κ] {entries : List (κ × α)} {key : κ} {value : α}
    (h : (ofList entries).find? key = some value) : (key, value) ∈ entries := by
  rw [find?_ofList] at h
  obtain ⟨⟨k, v⟩, hlast, rfl⟩ := Option.map_eq_some_iff.1 h
  obtain ⟨hmem, hkey⟩ := List.mem_filter.1 (List.mem_of_getLast? hlast)
  obtain rfl := of_decide_eq_true hkey
  exact hmem

/-- The map of a list has the keys that are listed. -/
theorem mem_keys_ofList [DecidableEq κ] {entries : List (κ × α)} {key : κ} :
    key ∈ (ofList entries).keys ↔ key ∈ entries.map Prod.fst := by
  rw [keys, List.mem_map, List.mem_map]
  constructor
  · rintro ⟨⟨k, v⟩, hmem, rfl⟩
    exact ⟨_, mem_of_find?_ofList (find?_eq_some_iff.2 hmem), rfl⟩
  · rintro ⟨⟨k, v⟩, hmem, rfl⟩
    have hkept : (k, v) ∈ entries.filter fun e => e.1 = k :=
      List.mem_filter.2 ⟨hmem, decide_eq_true rfl⟩
    obtain ⟨last, hlast⟩ := Option.isSome_iff_exists.1
      (List.getLast?_isSome.2 (List.ne_nil_of_mem hkept))
    have hfind : (ofList entries).find? k = some last.2 := by
      rw [find?_ofList, hlast, Option.map_some]
    exact ⟨_, find?_eq_some_iff.1 hfind, rfl⟩

end WorktreeTracker.OrderedMap
