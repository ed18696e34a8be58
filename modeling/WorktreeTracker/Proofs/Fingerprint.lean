import WorktreeTracker.Fingerprint
import WorktreeTracker.Proofs.Text

/-!
# What a fingerprint is the digest of

The bytes that are hashed determine the named values up to the order of the names, unless a name
holds a zero character or a value a newline: those are the marks that end a name and an entry.
-/

namespace WorktreeTracker.Fingerprint

/-! ## Sorting by name -/

/-- The order in which entries are hashed. -/
def nameLe (a b : String × String) : Bool := !decide (b.1 < a.1)

theorem nameLe_iff {a b : String × String} : nameLe a b = true ↔ a.1 ≤ b.1 := by
  rw [nameLe, Bool.not_eq_true', decide_eq_false_iff_not, String.not_lt]

theorem nameLe_trans (a b c : String × String) (hab : nameLe a b = true) (hbc : nameLe b c = true) :
    nameLe a c = true :=
  nameLe_iff.2 (String.le_trans (nameLe_iff.1 hab) (nameLe_iff.1 hbc))

theorem nameLe_total (a b : String × String) : (nameLe a b || nameLe b a) = true := by
  rw [Bool.or_eq_true, nameLe_iff, nameLe_iff]
  exact String.le_total a.1 b.1

/-- The sorted entries are those given, in another order. -/
theorem sorted_perm (entries : List (String × String)) : (sorted entries).Perm entries :=
  List.mergeSort_perm entries _

/-- The names of sorted entries increase. -/
theorem sorted_pairwise (entries : List (String × String)) :
    (sorted entries).Pairwise fun a b => a.1 ≤ b.1 :=
  (List.pairwise_mergeSort nameLe_trans nameLe_total entries).imp nameLe_iff.1

/-- Entries that are sorted already stay as they are. -/
theorem sorted_of_pairwise {entries : List (String × String)}
    (h : entries.Pairwise fun a b => a.1 ≤ b.1) : sorted entries = entries :=
  List.mergeSort_of_pairwise (h.imp nameLe_iff.2)

/-- The entries of one name. -/
def named (name : String) (entries : List (String × String)) : List (String × String) :=
  entries.filter fun e => e.1 = name

/-- Sorting keeps the entries of one name in their order. -/
theorem named_sorted (name : String) (entries : List (String × String)) :
    named name (sorted entries) = named name entries := by
  have hpairwise : (named name entries).Pairwise fun a b => nameLe a b = true := by
    rw [List.pairwise_iff_forall_sublist]
    intro a b hab
    have ha := (List.mem_filter.1 (hab.mem List.mem_cons_self)).2
    have hb := (List.mem_filter.1 (hab.mem (List.mem_cons_of_mem _ List.mem_cons_self))).2
    have hname : a.1 = b.1 := (of_decide_eq_true ha).trans (of_decide_eq_true hb).symm
    exact nameLe_iff.2 (hname ▸ String.le_refl a.1)
  have hsublist : (named name entries).Sublist (sorted entries) :=
    List.sublist_mergeSort nameLe_trans nameLe_total hpairwise List.filter_sublist
  have hfilter : (named name entries).Sublist (named name (sorted entries)) := by
    have h := hsublist.filter fun e => e.1 = name
    simpa [named] using h
  exact (hfilter.eq_of_length ((sorted_perm entries).filter _).length_eq.symm).symm

/-- Entries by increasing name are told by those of each name. -/
theorem eq_of_named_eq {a b : List (String × String)} (ha : a.Pairwise fun x y => x.1 ≤ y.1)
    (hb : b.Pairwise fun x y => x.1 ≤ y.1) (h : ∀ name, named name a = named name b) : a = b := by
  induction a generalizing b with
  | nil =>
    cases b with
    | nil => rfl
    | cons y ys => simpa [named] using h y.1
  | cons x xs ih =>
    cases b with
    | nil => simpa [named] using h x.1
    | cons y ys =>
      obtain ⟨hx, hxs⟩ := List.pairwise_cons.1 ha
      obtain ⟨hy, hys⟩ := List.pairwise_cons.1 hb
      -- each list holds the first entry of the other, so the first names agree
      have hyx : y ∈ x :: xs := by
        have hmem : y ∈ named y.1 (y :: ys) := by simp [named]
        rw [← h] at hmem
        exact (List.mem_filter.1 hmem).1
      have hxy : x ∈ y :: ys := by
        have hmem : x ∈ named x.1 (x :: xs) := by simp [named]
        rw [h] at hmem
        exact (List.mem_filter.1 hmem).1
      have hname : x.1 = y.1 := by
        refine String.le_antisymm ?_ ?_
        · rcases List.mem_cons.1 hyx with heq | hmem
          · exact heq ▸ String.le_refl _
          · exact hx y hmem
        · rcases List.mem_cons.1 hxy with heq | hmem
          · exact heq ▸ String.le_refl _
          · exact hy x hmem
      have hfirst := h x.1
      rw [named, named, List.filter_cons_of_pos (by simp), List.filter_cons_of_pos (by simp [hname])]
        at hfirst
      obtain ⟨rfl, htail⟩ := List.cons.inj hfirst
      rw [ih hxs hys fun name => ?_]
      by_cases hn : x.1 = name
      · rw [← hn]
        exact htail
      · have hother := h name
        rwa [named, named, List.filter_cons_of_neg (by simp [hn]),
          List.filter_cons_of_neg (by simp [hn])] at hother

/-- Two lists of entries are sorted to the same one when they have the same entries of each name, in
the same order. -/
theorem sorted_eq_iff {a b : List (String × String)} :
    sorted a = sorted b ↔ ∀ name, named name a = named name b := by
  constructor
  · intro h name
    rw [← named_sorted name a, ← named_sorted name b, h]
  · intro h
    refine eq_of_named_eq (sorted_pairwise a) (sorted_pairwise b) fun name => ?_
    rw [named_sorted, named_sorted, h]

/-! ## Reading the bytes back -/

/-- No name holds a zero character and no value a newline. -/
def Plain (entries : List (String × String)) : Prop :=
  ∀ e ∈ entries, '\x00' ∉ e.1.toList ∧ '\n' ∉ e.2.toList

/-- A list is cut in one way at the first mark. -/
theorem append_cons_inj {α : Type} {mark : α} {x y r s : List α} (hx : mark ∉ x) (hy : mark ∉ y)
    (h : x ++ mark :: r = y ++ mark :: s) : x = y ∧ r = s := by
  induction x generalizing y with
  | nil =>
    cases y with
    | nil => exact ⟨rfl, (List.cons.inj h).2⟩
    | cons b y => exact absurd ((List.cons.inj h).1 ▸ List.mem_cons_self) hy
  | cons a x ih =>
    cases y with
    | nil => exact absurd ((List.cons.inj h).1 ▸ List.mem_cons_self) hx
    | cons b y =>
      obtain ⟨rfl, htail⟩ := List.cons.inj h
      obtain ⟨rfl, rfl⟩ :=
        ih (List.not_mem_of_not_mem_cons hx) (List.not_mem_of_not_mem_cons hy) htail
      exact ⟨rfl, rfl⟩

/-- The bytes of the first entry are told from those that come after. -/
theorem encodeEntry_append_inj {a b : String × String} {r s : List UInt8}
    (ha : '\x00' ∉ a.1.toList ∧ '\n' ∉ a.2.toList) (hb : '\x00' ∉ b.1.toList ∧ '\n' ∉ b.2.toList)
    (h : encodeEntry a ++ r = encodeEntry b ++ s) : a = b ∧ r = s := by
  have nozero {name : String} (hname : '\x00' ∉ name.toList) : 0 ∉ Text.bytes name :=
    fun hmem => hname (Text.mem_toList_of_mem_bytes hmem (by decide))
  have noline {value : String} (hvalue : '\n' ∉ value.toList) : 0x0A ∉ Text.bytes value :=
    fun hmem => hvalue (Text.mem_toList_of_mem_bytes hmem (by decide))
  simp only [encodeEntry, List.append_assoc, List.cons_append, List.nil_append] at h
  obtain ⟨hname, h⟩ := append_cons_inj (nozero ha.1) (nozero hb.1) h
  obtain ⟨hvalue, hrest⟩ := append_cons_inj (noline ha.2) (noline hb.2) h
  exact ⟨Prod.ext (Text.bytes_inj hname) (Text.bytes_inj hvalue), hrest⟩

/-- The bytes of plain entries are those of no other plain entries. -/
theorem flatMap_encodeEntry_inj {a b : List (String × String)} (ha : Plain a) (hb : Plain b)
    (h : a.flatMap encodeEntry = b.flatMap encodeEntry) : a = b := by
  have nonempty (e : String × String) (r : List UInt8) : encodeEntry e ++ r ≠ [] := by
    simp [encodeEntry]
  induction a generalizing b with
  | nil =>
    cases b with
    | nil => rfl
    | cons y ys => exact absurd h.symm (nonempty y _)
  | cons x xs ih =>
    cases b with
    | nil => exact absurd h (nonempty x _)
    | cons y ys =>
      simp only [List.flatMap_cons] at h
      obtain ⟨rfl, hrest⟩ :=
        encodeEntry_append_inj (ha x List.mem_cons_self) (hb y List.mem_cons_self) h
      rw [ih (fun e he => ha e (List.mem_cons_of_mem _ he))
        (fun e he => hb e (List.mem_cons_of_mem _ he)) hrest]

/-- Plain entries are hashed to the same bytes when they are the same for each name. -/
theorem encoding_eq_iff {a b : List (String × String)} (ha : Plain a) (hb : Plain b) :
    encoding a = encoding b ↔ ∀ name, named name a = named name b := by
  rw [← sorted_eq_iff]
  constructor
  · refine flatMap_encodeEntry_inj ?_ ?_
    · exact fun e he => ha e ((sorted_perm a).mem_iff.1 he)
    · exact fun e he => hb e ((sorted_perm b).mem_iff.1 he)
  · intro h
    rw [encoding, encoding, h]

end WorktreeTracker.Fingerprint
