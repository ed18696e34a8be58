import Mathlib.Logic.Function.Iterate
import WorktreeTracker.Proofs.Path.Plain

/-!
# Where a collapsed path leads

A path is walked by its components, whatever the files are: two dots lead to the directory above, and
the root directory has none above it. Collapsing a path takes two dots away together with the
component before them. Where that is a name, the walk stays the same. Where it is another two dots,
which nothing had matched either, both levels are lost.

So of the levels that a relative path climbs above its start only the remainder by two is left, and
the names that it goes down in the end are kept. This one normal form tells both what a collapsed path
leads to and that collapsing it again changes nothing.
-/

namespace WorktreeTracker.Path

/-! ## Walking by components -/

/-- Where a component leads from a place. -/
def stepFrom (here : Location) : Component → Location
  | .root => []
  | .here => here
  | .up => here.dropLast
  | .name text => here ++ [text]

/-- Where components lead from a place, one after the other. -/
def placeOf (here : Location) (cs : List Component) : Location := cs.foldl stepFrom here

/-- Where a path leads from a place by its components alone. -/
def placeFrom (p : Path) (here : Location) : Location := placeOf here p.components

/-- How many two dots among components are matched by no name, when there are `depth` names before
them that are matched by none either. -/
def climb : (depth : Nat) → List Component → Nat
  | _, [] => 0
  | _, .root :: rest => climb 0 rest
  | depth, .here :: rest => climb depth rest
  | 0, .up :: rest => climb 0 rest + 1
  | depth + 1, .up :: rest => climb depth rest
  | depth, .name _ :: rest => climb (depth + 1) rest

/-- How many levels a path climbs above its start. -/
def levelsAbove (p : Path) : Nat := climb 0 p.components

/-- Collapsing keeps where a path leads from a place: the path starts at the root directory, it climbs
one level at most, or the place is so close to the root directory that the lost levels do not count. -/
def KeepsPlace (p : Path) (here : Location) : Prop :=
  p.isAbsolute = true ∨ p.levelsAbove ≤ 1 ∨ here.length ≤ p.levelsAbove % 2

instance (p : Path) (here : Location) : Decidable (KeepsPlace p here) :=
  inferInstanceAs (Decidable (_ ∨ _))

/-! ## Levels and names -/

/-- Two dots in a row, and names after them. -/
def climbing (levels : Nat) (names : List String) : List Component :=
  List.replicate levels .up ++ names.map .name

theorem climbing_concat (levels : Nat) (names : List String) (name : String) :
    climbing levels (names ++ [name]) = climbing levels names ++ [.name name] := by
  rw [climbing, climbing, List.map_append, List.append_assoc, List.map_singleton]

theorem mem_climbing {c : Component} {levels : Nat} {names : List String}
    (h : c ∈ climbing levels names) : c = .up ∨ ∃ name, c = .name name := by
  rcases List.mem_append.1 h with h | h
  · exact .inl (List.eq_of_mem_replicate h)
  · obtain ⟨name, -, rfl⟩ := List.mem_map.1 h
    exact .inr ⟨name, rfl⟩

theorem climb_climbing (levels : Nat) (names : List String) : climb 0 (climbing levels names) = levels := by
  have hnames (depth : Nat) : climb depth (names.map .name) = 0 := by
    induction names generalizing depth with
    | nil => cases depth <;> rfl
    | cons name rest ih =>
      cases depth with
      | zero => exact ih 1
      | succ depth => exact ih (depth + 2)
  induction levels with
  | zero => exact hnames 0
  | succ levels ih => exact congrArg (· + 1) ih

theorem placeOf_names (here : Location) (names : List String) :
    placeOf here (names.map .name) = here ++ names := by
  induction names generalizing here with
  | nil => exact (List.append_nil here).symm
  | cons name rest ih => exact (ih (here ++ [name])).trans (List.append_assoc here [name] rest)

theorem placeOf_climbing (here : Location) (levels : Nat) (names : List String) :
    placeOf here (climbing levels names) = List.dropLast^[levels] here ++ names := by
  induction levels generalizing here with
  | zero => exact placeOf_names here names
  | succ levels ih => exact ih here.dropLast

/-- The root directory is above everything. -/
theorem iterate_dropLast_nil (levels : Nat) : List.dropLast^[levels] ([] : Location) = [] := by
  induction levels with
  | zero => rfl
  | succ levels ih => exact ih

theorem length_iterate_dropLast (levels : Nat) (here : Location) :
    (List.dropLast^[levels] here).length = here.length - levels := by
  induction levels generalizing here with
  | zero => rfl
  | succ levels ih =>
    rw [Function.iterate_succ_apply, ih, List.length_dropLast]
    omega

/-- Climbing by two numbers of levels leads to the same when the numbers are the same, or both lead
to the root directory. -/
theorem iterate_dropLast_eq_iff {m n : Nat} (here : Location) :
    List.dropLast^[m] here = List.dropLast^[n] here ↔
      m = n ∨ here.length ≤ m ∧ here.length ≤ n := by
  constructor
  · intro h
    have hlength := congrArg List.length h
    rw [length_iterate_dropLast, length_iterate_dropLast] at hlength
    omega
  · rintro (rfl | ⟨hm, hn⟩)
    · rfl
    · have hroot {levels : Nat} (h : here.length ≤ levels) : List.dropLast^[levels] here = [] := by
        rw [← List.length_eq_zero_iff, length_iterate_dropLast]
        omega
      rw [hroot hm, hroot hn]

/-- A walk from below a place leaves the place by as many levels as the names below it do not match,
and the names at the end are those of the walk that starts at the root directory. -/
theorem placeOf_append {rest : List Component} (h : .root ∉ rest) (base names : Location) :
    placeOf (base ++ names) rest =
      List.dropLast^[climb names.length rest] base ++ placeOf names rest := by
  induction rest generalizing base names with
  | nil => cases names <;> rfl
  | cons c rest ih =>
    obtain ⟨hc, hlater⟩ := not_or.1 (mt List.mem_cons.2 h)
    cases c with
    | root => exact absurd rfl hc
    | here =>
      rw [climb]
      exact ih hlater base names
    | name text =>
      have hlength : (names ++ [text]).length = names.length + 1 := by simp
      rw [climb, ← hlength]
      refine Eq.trans ?_ (ih hlater base (names ++ [text]))
      exact congrArg (placeOf · rest) (List.append_assoc base names [text])
    | up =>
      rcases List.eq_nil_or_concat names with rfl | ⟨init, last, rfl⟩
      · rw [List.append_nil, List.length_nil, climb, Function.iterate_succ_apply]
        exact (congrArg (placeOf · rest) (List.append_nil base.dropLast).symm).trans
          (ih hlater base.dropLast [])
      · have hlength : (init ++ [last]).length = init.length + 1 := by simp
        rw [List.concat_eq_append, hlength, climb, ← List.append_assoc]
        have hinit (front : Location) :
            placeOf (front ++ [last]) (.up :: rest) = placeOf front rest := by
          show placeOf (front ++ [last]).dropLast rest = placeOf front rest
          rw [List.dropLast_concat]
        rw [hinit, hinit]
        exact ih hlater base init

/-! ## The normal form -/

/-- What components are collapsed to: of the levels that they climb the remainder by two is left, and
the names that they go down. -/
theorem collapse_climbing {lead rest : List Component} (hlead : lead = [] ∨ lead = [.root])
    (hrest : .root ∉ rest) {levels : Nat} (hlevels : levels < 2) (names : List String) :
    collapse (lead ++ climbing levels names) rest =
      lead ++ climbing ((levels + climb names.length rest) % 2) (placeOf names rest) := by
  induction rest generalizing levels names with
  | nil =>
    have hclimb : climb names.length [] = 0 := by cases names <;> rfl
    rw [collapse, hclimb, Nat.add_zero, Nat.mod_eq_of_lt hlevels]
    rfl
  | cons c rest ih =>
    obtain ⟨hc, hlater⟩ := not_or.1 (mt List.mem_cons.2 hrest)
    cases c with
    | root => exact absurd rfl hc
    | here =>
      rw [collapse, climb]
      exact ih hlater hlevels names
    | name text =>
      have hlength : (names ++ [text]).length = names.length + 1 := by simp
      rw [collapse, climb, ← hlength, List.append_assoc, ← climbing_concat]
      · exact ih hlater hlevels (names ++ [text])
      · rintro ⟨⟩
      · rintro ⟨⟩
    | up =>
      rcases List.eq_nil_or_concat names with rfl | ⟨init, last, rfl⟩
      · -- two dots that no name matches stay once, and the second time they take the first away
        rw [List.length_nil, climb]
        obtain rfl | rfl : levels = 0 ∨ levels = 1 := by omega
        · have hstep : collapse (lead ++ climbing 0 []) (.up :: rest) =
              collapse (lead ++ climbing 1 []) rest := by
            rcases hlead with rfl | rfl <;> simp [climbing, collapse]
          rw [hstep, ih hlater (by omega) [], Nat.zero_add, Nat.add_comm 1]
          rfl
        · have hstep : collapse (lead ++ climbing 1 []) (.up :: rest) =
              collapse (lead ++ climbing 0 []) rest := by
            rcases hlead with rfl | rfl <;> simp [climbing, collapse]
          have hsum : (1 + (climb 0 rest + 1)) % 2 = (0 + climb 0 rest) % 2 := by omega
          rw [hstep, ih hlater (by omega) [], hsum]
          rfl
      · have hlength : (init ++ [last]).length = init.length + 1 := by simp
        have hstep : collapse (lead ++ climbing levels (init ++ [last])) (.up :: rest) =
            collapse (lead ++ climbing levels init) rest := by
          rw [climbing_concat, ← List.append_assoc, collapse.eq_def]
          dsimp only
          split
          next hnil => simp at hnil
          next hroot =>
            have hlast := congrArg List.getLast? hroot
            simp at hlast
          next => rw [List.dropLast_concat]
        rw [List.concat_eq_append, hstep, ih hlater hlevels init, hlength, climb]
        congr 2
        show placeOf init rest = placeOf (init ++ [last]).dropLast rest
        rw [List.dropLast_concat]

/-! ## Components of a path -/

theorem root_not_mem_inner (p : Path) : .root ∉ p.inner := by
  intro h
  obtain ⟨part, -, hc⟩ := List.mem_filterMap.1 h
  rcases componentOf?_cases hc with hc | hc <;> cases hc

/-- A path starts at the root directory, or its components are the inner ones, perhaps after a single
dot. -/
theorem components_cases (p : Path) :
    p.isAbsolute = true ∧ p.components = .root :: p.inner ∨
      p.isAbsolute = false ∧ (p.components = .here :: p.inner ∨ p.components = p.inner) := by
  rw [components, inner]
  cases p.isAbsolute with
  | true => exact .inl ⟨rfl, rfl⟩
  | false =>
    refine .inr ⟨rfl, ?_⟩
    rw [if_neg Bool.false_ne_true]
    split
    next => exact .inl rfl
    next => exact .inr rfl

theorem components_of_isAbsolute {p : Path} (h : p.isAbsolute = true) :
    p.components = .root :: p.inner := by
  rcases p.components_cases with ⟨-, hp⟩ | ⟨hrelative, -⟩
  · exact hp
  · cases h.symm.trans hrelative

theorem isAbsolute_of_components {p : Path} {cs : List Component} (h : p.components = .root :: cs) :
    p.isAbsolute = true := by
  rcases p.components_cases with ⟨habsolute, -⟩ | ⟨-, hhere | hinner⟩
  · exact habsolute
  · cases (List.cons.inj (h.symm.trans hhere)).1
  · exact absurd (hinner.symm.trans h ▸ List.mem_cons_self) p.root_not_mem_inner

/-- The components of an absolute path with one more part. -/
theorem components_div {p : Path} (h : p.isAbsolute = true) {part : String} {c : Component}
    (hpart : IsPart part) (hc : componentOf? part = some c) :
    (p / part).components = p.components ++ [c] := by
  have hrelative := hpart.relative
  have habsolute : (p / part).isAbsolute = true := (p.isAbsolute_div hrelative).trans h
  rw [components_of_isAbsolute habsolute, components_of_isAbsolute h, inner, inner,
    pieces_div p hrelative, hpart.pieces, List.filterMap_append, filterMap_stem,
    List.filterMap_cons_some hc]
  rfl

theorem levelsAbove_eq (p : Path) : p.levelsAbove = climb 0 p.inner := by
  rw [levelsAbove]
  rcases p.components_cases with ⟨-, h⟩ | ⟨-, h | h⟩ <;> rw [h] <;> rfl

/-- A relative path is walked by its inner components, an absolute one from the root directory. -/
theorem placeFrom_eq (p : Path) (here : Location) :
    p.placeFrom here = placeOf (if p.isAbsolute then [] else here) p.inner := by
  rw [placeFrom]
  rcases p.components_cases with ⟨habsolute, h⟩ | ⟨habsolute, h | h⟩ <;> rw [h, habsolute] <;> rfl

/-- Where a relative path leads: up by the levels that it climbs, and down by its names. -/
theorem placeFrom_of_relative {p : Path} (h : p.isAbsolute = false) (here : Location) :
    p.placeFrom here = List.dropLast^[p.levelsAbove] here ++ placeOf [] p.inner := by
  rw [placeFrom_eq, h, if_neg Bool.false_ne_true, levelsAbove_eq]
  exact (congrArg (placeOf · p.inner) (List.append_nil here).symm).trans
    (placeOf_append p.root_not_mem_inner here [])

/-- What a path starts with when it is normalized. -/
def lead (p : Path) : List Component := if p.isAbsolute then [.root] else []

theorem lead_cases (p : Path) : p.lead = [] ∨ p.lead = [.root] := by
  rw [lead]
  split
  next => exact .inr rfl
  next => exact .inl rfl

/-- What a path is collapsed to. -/
theorem collapse_components (p : Path) :
    collapse [] p.components = p.lead ++ climbing (p.levelsAbove % 2) (placeOf [] p.inner) := by
  have hnormal := collapse_climbing p.lead_cases p.root_not_mem_inner Nat.zero_lt_two []
  have hempty : p.lead ++ climbing 0 [] = p.lead := List.append_nil _
  rw [hempty, Nat.zero_add] at hnormal
  rw [levelsAbove_eq]
  refine Eq.trans ?_ hnormal
  rw [lead]
  rcases p.components_cases with ⟨habsolute, h⟩ | ⟨habsolute, h | h⟩
  · rw [h, habsolute, if_pos rfl, collapse]
    · rfl
    · rintro ⟨⟩
    · rintro ⟨⟩
  · rw [h, habsolute, collapse, if_neg Bool.false_ne_true]
  · rw [h, habsolute, if_neg Bool.false_ne_true]

/-! ## Normalized paths -/

/-- A component that is a part between slashes is the one that its text stands for. -/
theorem componentOf?_piece {c : Component} (h : IsInner c) : componentOf? c.piece = some c := by
  obtain ⟨part, -, hc⟩ := h
  rwa [piece_of_componentOf? hc]

/-- The components of the path that collapsed components make are these components. -/
theorem components_ofComponents {cs : List Component} (h : Collapsed cs) :
    (ofComponents cs).components = cs := by
  obtain ⟨inner, hinner, hcs⟩ := h
  have hparts : ∀ part ∈ inner.map Component.piece, IsPart part := by
    intro part hpart
    obtain ⟨c, hc, rfl⟩ := List.mem_map.1 hpart
    exact (hinner c hc).isPart
  have hback : (inner.map Component.piece).filterMap componentOf? = inner := by
    rw [List.filterMap_map]
    exact (List.filterMap_congr fun c hc => componentOf?_piece (hinner c hc)).trans
      List.filterMap_some
  rcases hcs with rfl | rfl
  · exact (components_absolute hparts).trans (congrArg _ hback)
  · rw [ofComponents_of_inner hinner, components_relative hparts, hback]

/-- A plain path from the root directory is what its components make. -/
theorem Plain.ofComponents_components {p : Path} (h : p.Plain) (habsolute : p.isAbsolute = true) :
    ofComponents p.components = p := by
  have hcollapsed : Collapsed p.components :=
    ⟨p.inner, fun c hc => isInner_of_mem_inner hc, .inl (components_of_isAbsolute habsolute)⟩
  exact (plain_ofComponents hcollapsed).eq_of_same h
    (decide_eq_true (components_ofComponents hcollapsed))

/-- The components of a normalized path. -/
theorem components_normalize (p : Path) :
    p.normalize.components = p.lead ++ climbing (p.levelsAbove % 2) (placeOf [] p.inner) :=
  (components_ofComponents p.collapsed_components).trans p.collapse_components

/-- A normalized path starts where the path does, and goes up at most once and then down. -/
theorem normalize_cases (p : Path) :
    p.normalize.isAbsolute = p.isAbsolute ∧
      p.normalize.inner = climbing (p.levelsAbove % 2) (placeOf [] p.inner) := by
  have hcomponents := p.components_normalize
  have hroot : .root ∉ climbing (p.levelsAbove % 2) (placeOf [] p.inner) := by
    intro h
    rcases mem_climbing h with h | ⟨name, h⟩ <;> cases h
  have hhere : .here ∉ climbing (p.levelsAbove % 2) (placeOf [] p.inner) := by
    intro h
    rcases mem_climbing h with h | ⟨name, h⟩ <;> cases h
  rw [lead] at hcomponents
  -- the first component tells how the path starts
  cases hp : p.isAbsolute with
  | true =>
    rw [hp, if_pos rfl, List.singleton_append] at hcomponents
    rcases p.normalize.components_cases with ⟨habsolute, h⟩ | ⟨-, h | h⟩
    · exact ⟨habsolute, (List.cons.inj (h.symm.trans hcomponents)).2⟩
    · cases (List.cons.inj (h.symm.trans hcomponents)).1
    · exact absurd (h.symm.trans hcomponents ▸ List.mem_cons_self) p.normalize.root_not_mem_inner
  | false =>
    rw [hp, if_neg Bool.false_ne_true, List.nil_append] at hcomponents
    rcases p.normalize.components_cases with ⟨-, h⟩ | ⟨habsolute, h | h⟩
    · exact absurd (hcomponents.symm.trans h ▸ List.mem_cons_self) hroot
    · exact absurd (hcomponents.symm.trans h ▸ List.mem_cons_self) hhere
    · exact ⟨habsolute, h.symm.trans hcomponents⟩

/-- Normalizing leaves the remainder by two of the levels that a path climbs. -/
theorem levelsAbove_normalize (p : Path) : p.normalize.levelsAbove = p.levelsAbove % 2 := by
  rw [levelsAbove_eq, p.normalize_cases.2, climb_climbing]

/-- Normalizing keeps the names that a path goes down in the end. -/
theorem placeOf_inner_normalize (p : Path) : placeOf [] p.normalize.inner = placeOf [] p.inner := by
  rw [p.normalize_cases.2, placeOf_climbing, iterate_dropLast_nil, List.nil_append]

/-- Normalizing a normalized path changes nothing. -/
theorem normalize_normalize (p : Path) : p.normalize.normalize = p.normalize := by
  have hlead : p.normalize.lead = p.lead := by rw [lead, lead, p.normalize_cases.1]
  have hcollapse : collapse [] p.normalize.components = collapse [] p.components := by
    rw [collapse_components, hlead, levelsAbove_normalize, placeOf_inner_normalize, Nat.mod_mod,
      ← collapse_components]
  exact congrArg ofComponents hcollapse

/-- Normalizing keeps where a path leads by its components exactly when it loses no levels that
count. -/
theorem placeFrom_normalize_iff (p : Path) (here : Location) :
    p.normalize.placeFrom here = p.placeFrom here ↔ p.KeepsPlace here := by
  have habsolute := p.normalize_cases.1
  rw [KeepsPlace]
  cases hp : p.isAbsolute with
  | true =>
    refine iff_of_true ?_ (.inl rfl)
    rw [hp] at habsolute
    rw [placeFrom_eq, placeFrom_eq, habsolute, hp, if_pos rfl]
    exact p.placeOf_inner_normalize
  | false =>
    rw [hp] at habsolute
    rw [placeFrom_of_relative habsolute, placeFrom_of_relative hp, placeOf_inner_normalize,
      levelsAbove_normalize, List.append_cancel_right_eq, iterate_dropLast_eq_iff]
    -- the remainder is the number itself when that is at most one, and never more than it
    have hremainder := Nat.mod_le p.levelsAbove 2
    constructor
    · rintro (h | ⟨h, -⟩)
      · exact .inr (.inl (by omega))
      · exact .inr (.inr h)
    · rintro (h | h | h)
      · cases h
      · exact .inl (by omega)
      · exact .inr ⟨h, by omega⟩

end WorktreeTracker.Path
