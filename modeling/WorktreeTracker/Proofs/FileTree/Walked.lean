import WorktreeTracker.Proofs.FileTree.Components
import WorktreeTracker.Proofs.FileTree.Refusal
import WorktreeTracker.Proofs.Path.Collapse

/-!
# Paths in a tree without links

Where no entry is a link, components are followed by walking them, as long as there is a directory at
every place on the way. What a path is collapsed to is walked through places that the path itself
comes through, so in such a tree a normalized path leads where the path leads, except for the levels
that are lost above the start and for a path of which nothing is left.
-/

namespace WorktreeTracker

open WorktreeTracker.Path

namespace FileTree

variable {t : FileTree} {here place : Location} {entry : Entry}

/-! ## Following is walking -/

/-- At every place on a walk there is a directory to go on from, and no name is too long. -/
def Passable (t : FileTree) (here : Location) (cs : List Component) : Prop :=
  ∀ front c rest, cs = front ++ c :: rest →
    t.entryAt? (placeOf here front) = some .directory ∧ c.piece.utf8ByteSize ≤ maxNameLength

theorem passable_cons {c : Component} {cs : List Component} :
    t.Passable here (c :: cs) ↔
      t.entryAt? here = some .directory ∧ c.piece.utf8ByteSize ≤ maxNameLength ∧
        t.Passable (stepFrom here c) cs := by
  constructor
  · intro h
    obtain ⟨hhere, hsize⟩ := h [] c cs rfl
    refine ⟨hhere, hsize, fun front d rest hsplit => ?_⟩
    exact h (c :: front) d rest (by rw [hsplit, List.cons_append])
  · rintro ⟨hhere, hsize, hrest⟩ front d rest hsplit
    cases front with
    | nil =>
      obtain ⟨rfl, -⟩ := List.cons.inj hsplit
      exact ⟨hhere, hsize⟩
    | cons first front =>
      obtain ⟨rfl, hlater⟩ := List.cons.inj hsplit
      exact hrest front d rest hlater

theorem ne_of_name {text : String}
    (h : IsPart text ∧ componentOf? text = some (.name text)) :
    text ≠ "" ∧ text ≠ "." ∧ text ≠ ".." := by
  refine ⟨h.1.ne.1, h.1.ne.2, ?_⟩
  rintro rfl
  cases h.2

/-- Where nothing is, nothing is reached. -/
theorem followLinks_of_none {links : Nat} (hhere : t.entryAt? here = none) (parts : List String) :
    t.followLinks true links here parts = .error .notFound := by
  cases parts with
  | nil => rw [followLinks_nil, hhere]
  | cons part rest => rw [followLinks_cons, turn, hhere]

/-- Without links a component leads from a directory where it leads by itself, if anything is there. -/
theorem LinkFree.followLinks_cons_eq_ok_iff (hfree : t.LinkFree) {links : Nat} {c : Component}
    (hc : IsInner c) {rest : List String} {found : Found} :
    t.followLinks true links here (c.piece :: rest) = .ok found ↔
      t.entryAt? here = some .directory ∧ c.piece.utf8ByteSize ≤ maxNameLength ∧
        t.followLinks true links (stepFrom here c) rest = .ok found := by
  constructor
  · intro h
    obtain ⟨next, hturn, hrest⟩ := followLinks_cons_eq_ok.1 h
    have hhere := directory_of_turn hturn
    have hsize : c.piece.utf8ByteSize ≤ maxNameLength := by
      by_contra hlong
      cases hturn.symm.trans (turn_of_long hhere (by omega))
    have hnext : next = .reach (stepFrom here c) := by
      rcases hc.cases with rfl | ⟨text, rfl, hpart⟩
      · rw [turn, hhere] at hturn
        exact (Except.ok.inj hturn).symm
      · exact reach_of_turn (ne_of_name hpart) (fun target => hfree _ target) hturn
    rw [hnext] at hrest
    exact ⟨hhere, hsize, hrest⟩
  · rintro ⟨hhere, hsize, h⟩
    refine followLinks_cons_eq_ok.2 ⟨.reach (stepFrom here c), ?_, h⟩
    rcases hc.cases with rfl | ⟨text, rfl, hpart⟩
    · rw [turn, hhere]
      rfl
    · rw [Component.piece] at hsize ⊢
      rw [turn_name hhere (ne_of_name hpart) (by omega)]
      -- the rest is followed from there, so something is there, and it is no link
      cases hthere : t.entryAt? (here ++ [text]) with
      | none => cases (followLinks_of_none hthere rest).symm.trans h
      | some entry =>
        cases entry with
        | link target => exact absurd hthere (hfree _ target)
        | directory => rfl
        | file contents => rfl

/-- Without links, components that can be followed lead where they lead by themselves. -/
theorem LinkFree.followLinks_eq_ok_iff (hfree : t.LinkFree) {links : Nat} {cs : List Component}
    (hcs : ∀ c ∈ cs, IsInner c) :
    t.followLinks true links here (cs.map Component.piece) = .ok (place, entry) ↔
      t.Passable here cs ∧ place = placeOf here cs ∧ t.entryAt? place = some entry := by
  induction cs generalizing here with
  | nil =>
    have hpassable : t.Passable here [] := by
      intro front c rest hsplit
      simp at hsplit
    rw [List.map_nil, followLinks_nil_eq_ok, and_iff_right hpassable]
    rfl
  | cons c cs ih =>
    rw [List.map_cons, hfree.followLinks_cons_eq_ok_iff (hcs c List.mem_cons_self), passable_cons,
      ih fun other hother => hcs other (List.mem_cons_of_mem c hother), and_assoc, and_assoc]
    rfl

/-! ## Places on the way -/

/-- A walk comes through every place above its end that is below the highest one: through the names
that it goes down in the end, unless they were there from the beginning. -/
theorem exists_placeOf_of_prefix {cs : List Component} (hcs : .root ∉ cs) (base names : Location)
    {down : Location} (hdown : down <+: placeOf names cs) :
    (∃ front back, cs = front ++ back ∧
        placeOf (base ++ names) front = List.dropLast^[climb names.length cs] base ++ down) ∨
      climb names.length cs = 0 ∧ down <+: names := by
  induction cs generalizing base names with
  | nil => exact .inr ⟨by cases names <;> rfl, hdown⟩
  | cons c cs ih =>
    obtain ⟨hc, hlater⟩ := not_or.1 (mt List.mem_cons.2 hcs)
    cases c with
    | root => exact absurd rfl hc
    | here =>
      rw [climb]
      refine (ih hlater base names hdown).imp_left ?_
      rintro ⟨front, back, rfl, hfront⟩
      exact ⟨.here :: front, back, rfl, hfront⟩
    | name text =>
      have hlength : (names ++ [text]).length = names.length + 1 := by simp
      have hassoc : base ++ (names ++ [text]) = base ++ names ++ [text] :=
        (List.append_assoc base names [text]).symm
      rw [climb, ← hlength]
      rcases ih hlater base (names ++ [text]) hdown with
        ⟨front, back, rfl, hfront⟩ | ⟨hclimb, hshort⟩
      · refine .inl ⟨.name text :: front, back, rfl, ?_⟩
        rw [← hfront, hassoc]
        rfl
      · rcases List.prefix_concat_iff.1 hshort with rfl | hshorter
        · refine .inl ⟨[.name text], cs, rfl, ?_⟩
          rw [hclimb]
          exact hassoc.symm
        · exact .inr ⟨hclimb, hshorter⟩
    | up =>
      rcases List.eq_nil_or_concat names with rfl | ⟨init, last, rfl⟩
      · rw [List.append_nil, List.length_nil, climb, Function.iterate_succ_apply]
        rcases ih hlater base.dropLast [] hdown with
          ⟨front, back, rfl, hfront⟩ | ⟨hclimb, hshort⟩
        · rw [List.append_nil] at hfront
          exact .inl ⟨.up :: front, back, rfl, hfront⟩
        · obtain rfl := List.prefix_nil.1 hshort
          refine .inl ⟨[.up], cs, rfl, ?_⟩
          rw [List.length_nil] at hclimb
          rw [hclimb]
          exact (List.append_nil _).symm
      · rw [List.concat_eq_append] at hdown ⊢
        have hlength : (init ++ [last]).length = init.length + 1 := by simp
        have hinit : placeOf (init ++ [last]) (.up :: cs) = placeOf init cs := by
          show placeOf (init ++ [last]).dropLast cs = placeOf init cs
          rw [List.dropLast_concat]
        rw [hlength, climb, ← List.append_assoc]
        rw [hinit] at hdown
        refine (ih hlater base init hdown).imp ?_ ?_
        · rintro ⟨front, back, rfl, hfront⟩
          refine ⟨.up :: front, back, rfl, ?_⟩
          show placeOf (base ++ init ++ [last]).dropLast front = _
          rw [List.dropLast_concat, hfront]
        · rintro ⟨hclimb, hshort⟩
          exact ⟨hclimb, hshort.trans (List.prefix_append init [last])⟩

/-- A walk comes through every place above its end that is below the highest one. -/
theorem exists_placeOf {cs : List Component} (hcs : .root ∉ cs) (here : Location) {down : Location}
    (hdown : down <+: placeOf [] cs) :
    ∃ front back, cs = front ++ back ∧
      placeOf here front = List.dropLast^[climb 0 cs] here ++ down := by
  have hwalk := exists_placeOf_of_prefix hcs here [] hdown
  rw [List.append_nil, List.length_nil] at hwalk
  rcases hwalk with h | ⟨hclimb, hshort⟩
  · exact h
  · obtain rfl := List.prefix_nil.1 hshort
    refine ⟨[], cs, rfl, ?_⟩
    rw [hclimb]
    exact (List.append_nil here).symm

/-- The names that a walk goes down in the end are among its components. -/
theorem mem_of_mem_placeOf {cs : List Component} (hcs : .root ∉ cs) (names : Location)
    {name : String} (h : name ∈ placeOf names cs) : name ∈ names ∨ .name name ∈ cs := by
  induction cs generalizing names with
  | nil => exact .inl h
  | cons c cs ih =>
    obtain ⟨hc, hlater⟩ := not_or.1 (mt List.mem_cons.2 hcs)
    rcases ih hlater (stepFrom names c) h with hin | hin
    · cases c with
      | root => exact absurd rfl hc
      | here => exact .inl hin
      | up => exact .inl (List.dropLast_subset _ hin)
      | name text =>
        rcases List.mem_append.1 hin with hin | hin
        · exact .inl hin
        · rw [List.mem_singleton.1 hin]
          exact .inr List.mem_cons_self
    · exact .inr (List.mem_cons_of_mem c hin)

/-- What components are collapsed to is walked through directories when they are, as long as it leads
to the same. -/
theorem Passable.climbing {cs : List Component} (h : t.Passable here cs) (hcs : .root ∉ cs)
    (hsame : List.dropLast^[climb 0 cs % 2] here = List.dropLast^[climb 0 cs] here) :
    t.Passable here (climbing (climb 0 cs % 2) (placeOf [] cs)) := by
  -- a place below the highest one is on the way, and not at its end
  have hbelow {down rest : Location} {name : String} (hsplit : placeOf [] cs = down ++ name :: rest) :
      t.entryAt? (List.dropLast^[climb 0 cs % 2] here ++ down) = some .directory := by
    obtain ⟨front, back, hcut, hfront⟩ :=
      exists_placeOf hcs here (hsplit ▸ List.prefix_append down (name :: rest))
    rw [hsame, ← hfront]
    cases back with
    | nil =>
      have hend := placeOf_append hcs here []
      rw [List.append_nil, List.length_nil, hcut, List.append_nil, hfront, ← List.append_nil front,
        ← hcut, List.append_cancel_left_eq, hsplit] at hend
      simp at hend
    | cons c back => exact (h front c back hcut).1
  have hname {name : String} (hmem : name ∈ placeOf [] cs) :
      name.utf8ByteSize ≤ maxNameLength := by
    rcases mem_of_mem_placeOf hcs [] hmem with hnil | hin
    · cases hnil
    · obtain ⟨front, back, hcut⟩ := List.append_of_mem hin
      exact (h front (.name name) back hcut).2
  have hnames {front : List Component} {c : Component} {rest : List Component}
      (hsplit : (placeOf [] cs).map Component.name = front ++ c :: rest) :
      t.entryAt? (placeOf (List.dropLast^[climb 0 cs % 2] here) front) = some .directory ∧
        c.piece.utf8ByteSize ≤ maxNameLength := by
    obtain ⟨down, later, hcut, rfl, hlater⟩ := List.map_eq_append_iff.1 hsplit
    obtain ⟨name, more, rfl, rfl, -⟩ := List.map_eq_cons_iff.1 hlater
    rw [placeOf_names]
    refine ⟨hbelow hcut, hname ?_⟩
    rw [hcut]
    exact List.mem_append_right down List.mem_cons_self
  intro front c rest hsplit
  rw [Path.climbing] at hsplit
  obtain hlevels | hlevels : climb 0 cs % 2 = 0 ∨ climb 0 cs % 2 = 1 := by omega
  · rw [hlevels] at hsplit hnames
    exact hnames hsplit
  · rw [hlevels] at hsplit hnames
    cases front with
    | nil =>
      obtain ⟨rfl, -⟩ := List.cons.inj hsplit
      refine ⟨?_, by decide⟩
      cases cs with
      | nil => cases hlevels
      | cons d cs => exact (h [] d cs rfl).1
    | cons first front =>
      obtain ⟨rfl, hrest⟩ := List.cons.inj hsplit
      exact hnames hrest

/-! ## Normalized paths -/

theorem start_normalize (t : FileTree) (p : Path) : t.start p.normalize = t.start p := by
  rw [start, start, p.normalize_cases.1]

theorem placeFrom_start (t : FileTree) (p : Path) :
    p.placeFrom (t.start p) = placeOf (t.start p) p.inner := by
  rw [placeFrom_eq, start]
  split <;> rfl

/-- A normalized path is followed by its components from where the path is followed. -/
theorem resolve_normalize {p : Path} (h : IsPlainText p.normalize.text) :
    t.resolve p.normalize true =
      t.followLinks true linkLimit (t.start p) (p.normalize.inner.map Component.piece) := by
  have hinner : ∀ c ∈ Path.climbing (p.levelsAbove % 2) (placeOf [] p.inner), IsInner c := by
    rw [← p.normalize_cases.2]
    exact fun c hc => isInner_of_mem_inner hc
  rw [p.normalize_cases.2, start]
  rw [Path.normalize, collapse_components, lead] at h ⊢
  cases habsolute : p.isAbsolute with
  | true =>
    rw [habsolute] at h
    exact resolve_absolute hinner h
  | false =>
    rw [habsolute] at h
    exact resolve_relative hinner h

/-- Without links a path leads to where its components lead from its start. -/
theorem LinkFree.place_of_resolve (hfree : t.LinkFree) {p : Path}
    (h : t.resolve p true = .ok (place, entry)) : place = p.placeFrom (t.start p) := by
  have hfollowed := followLinks_of_resolve h
  rw [hfree.followLinks_eq_ok_iff fun c hc => isInner_of_mem_inner hc] at hfollowed
  rw [hfollowed.2.1, placeFrom_start]

/-- Without links a normalized path leads where the path leads, exactly when no levels are lost that
count and something is left of it. -/
theorem LinkFree.resolve_normalize_iff (hfree : t.LinkFree) {p : Path}
    (h : t.resolve p true = .ok (place, entry)) :
    t.resolve p.normalize true = .ok (place, entry) ↔
      p.KeepsPlace (t.start p) ∧ p.normalize.text ≠ "" := by
  constructor
  · intro hnormal
    refine ⟨(p.placeFrom_normalize_iff _).1 ?_, (isPlainText_of_resolve hnormal).1⟩
    rw [← hfree.place_of_resolve h, hfree.place_of_resolve hnormal, start_normalize]
  · rintro ⟨hkeeps, hne⟩
    have hplain : IsPlainText p.normalize.text :=
      isPlainText_ofComponents (isPlainText_of_resolve h) (collapse_sublist [] p.components) hne
    have hfollowed := followLinks_of_resolve h
    rw [hfree.followLinks_eq_ok_iff fun c hc => isInner_of_mem_inner hc] at hfollowed
    obtain ⟨hpassable, hplace, hentry⟩ := hfollowed
    have hwalk := (p.placeFrom_normalize_iff (t.start p)).2 hkeeps
    -- the lost levels do not count, so the names left are walked from the same place
    have hsame : List.dropLast^[climb 0 p.inner % 2] (t.start p) =
        List.dropLast^[climb 0 p.inner] (t.start p) := by
      rw [← levelsAbove_eq]
      cases habsolute : p.isAbsolute with
      | true => rw [start, habsolute, if_pos rfl, iterate_dropLast_nil, iterate_dropLast_nil]
      | false =>
        rwa [placeFrom_of_relative (p.normalize_cases.1.trans habsolute),
          placeFrom_of_relative habsolute, levelsAbove_normalize, placeOf_inner_normalize,
          List.append_cancel_right_eq] at hwalk
    rw [← start_normalize, placeFrom_start, start_normalize, placeFrom_start] at hwalk
    rw [resolve_normalize hplain,
      hfree.followLinks_eq_ok_iff fun c hc => isInner_of_mem_inner hc]
    refine ⟨?_, hplace.trans hwalk.symm, hentry⟩
    have hclimbing := hpassable.climbing p.root_not_mem_inner hsame
    rwa [← levelsAbove_eq, ← p.normalize_cases.2] at hclimbing

end FileTree

end WorktreeTracker
