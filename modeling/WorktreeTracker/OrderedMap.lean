/-!
# Finite maps kept in key order

An `OrderedMap` lists its entries by strictly increasing key, and carries the proof that it does. So
each key is there once, and two maps that hold the same values are equal: snapshots are compared by
plain equality.
-/

namespace WorktreeTracker

/-- A finite map from `κ` to `α` whose entries are listed by increasing key. -/
structure OrderedMap (κ α : Type) [Ord κ] where
  /-- The entries, by increasing key. -/
  entries : List (κ × α)
  /-- The keys increase strictly. -/
  sorted : entries.Pairwise fun a b => compare a.1 b.1 = .lt
deriving DecidableEq

namespace OrderedMap

variable {κ α : Type} [Ord κ]

/-- The map without entries. -/
def empty : OrderedMap κ α := ⟨[], .nil⟩

instance : Inhabited (OrderedMap κ α) := ⟨empty⟩

/-- Whether the map has no entry. -/
def isEmpty (m : OrderedMap κ α) : Bool := m.entries.isEmpty

/-- The number of entries. -/
def size (m : OrderedMap κ α) : Nat := m.entries.length

/-- The keys, in increasing order. -/
def keys (m : OrderedMap κ α) : List κ := m.entries.map Prod.fst

/-- The values, in the order of their keys. -/
def values (m : OrderedMap κ α) : List α := m.entries.map Prod.snd

/-! ## Looking up -/

/-- The value under `key` in a list of entries. -/
def lookupEntry (key : κ) : List (κ × α) → Option α
  | [] => none
  | (k, v) :: rest =>
    match compare key k with
    | .eq => some v
    | _ => lookupEntry key rest

/-- The value under `key`, if any. -/
def find? (m : OrderedMap κ α) (key : κ) : Option α :=
  lookupEntry key m.entries

/-- Whether the map has an entry under `key`. -/
def contains (m : OrderedMap κ α) (key : κ) : Bool :=
  (m.find? key).isSome

/-! ## Changing -/

/-- Puts `value` under `key` in a list of entries by increasing key, replacing the entry of an equal
key. -/
def insertEntry (key : κ) (value : α) : List (κ × α) → List (κ × α)
  | [] => [(key, value)]
  | (k, v) :: rest =>
    match compare key k with
    | .lt => (key, value) :: (k, v) :: rest
    | .eq => (key, value) :: rest
    | .gt => (k, v) :: insertEntry key value rest

theorem mem_insertEntry {key : κ} {value : α} {entries : List (κ × α)} {e : κ × α}
    (h : e ∈ insertEntry key value entries) : e = (key, value) ∨ e ∈ entries := by
  induction entries with
  | nil => simpa [insertEntry] using h
  | cons entry rest ih =>
    obtain ⟨k, v⟩ := entry
    simp only [insertEntry] at h
    split at h
    · simpa using h
    · rcases List.mem_cons.1 h with h | h
      · exact .inl h
      · exact .inr (List.mem_cons_of_mem _ h)
    · rcases List.mem_cons.1 h with h | h
      · exact .inr (h ▸ List.mem_cons_self)
      · exact (ih h).imp id (List.mem_cons_of_mem _)

/-- Inserting keeps the keys strictly increasing. -/
theorem insertEntry_sorted [Std.TransOrd κ] (key : κ) (value : α) {entries : List (κ × α)}
    (sorted : entries.Pairwise fun a b => compare a.1 b.1 = .lt) :
    (insertEntry key value entries).Pairwise fun a b => compare a.1 b.1 = .lt := by
  induction entries with
  | nil => simp [insertEntry]
  | cons entry rest ih =>
    obtain ⟨k, v⟩ := entry
    obtain ⟨first, others⟩ := List.pairwise_cons.1 sorted
    simp only [insertEntry]
    split
    next below =>
      refine List.pairwise_cons.2 ⟨fun e he => ?_, sorted⟩
      rcases List.mem_cons.1 he with rfl | he
      · exact below
      · exact Std.TransCmp.lt_trans below (first e he)
    next same =>
      exact List.pairwise_cons.2 ⟨fun e he => Std.TransCmp.lt_of_eq_of_lt same (first e he), others⟩
    next above =>
      refine List.pairwise_cons.2 ⟨fun e he => ?_, ih others⟩
      rcases mem_insertEntry he with rfl | he
      · exact Std.OrientedCmp.gt_iff_lt.1 above
      · exact first e he

/-- The map without the entry under `key`. -/
def erase (m : OrderedMap κ α) (key : κ) : OrderedMap κ α :=
  ⟨m.entries.filter fun e => compare key e.1 != .eq, m.sorted.filter _⟩

variable [Std.TransOrd κ]

/-- The map with `value` under `key`. -/
def insert (m : OrderedMap κ α) (key : κ) (value : α) : OrderedMap κ α :=
  ⟨insertEntry key value m.entries, insertEntry_sorted key value m.sorted⟩

/-- The map with `value` under `key` unless `key` already has one. -/
def insertIfNew (m : OrderedMap κ α) (key : κ) (value : α) : OrderedMap κ α :=
  if m.contains key then m else m.insert key value

/-- The map with the value under `key` changed by `f`, which sees `none` for a missing key. -/
def alter (m : OrderedMap κ α) (key : κ) (f : Option α → α) : OrderedMap κ α :=
  m.insert key (f (m.find? key))

/-- The map holding the listed entries, a later entry of a key replacing an earlier one. -/
def ofList (entries : List (κ × α)) : OrderedMap κ α :=
  entries.foldl (fun m e => m.insert e.1 e.2) empty

end OrderedMap

end WorktreeTracker
