import WorktreeTracker.Proofs.FileTree.Components
import WorktreeTracker.Proofs.FileTree.Refusal
import WorktreeTracker.Proofs.Path.Collapse
import WorktreeTracker.Proofs.Results

/-!
# Canonical paths

A place that is reached from the root directory is reached with no link on the way to it. So its path
is canonical: every part of it that leads anywhere leads to itself. A path that starts at the root
directory leads where its components lead, and when it leads anywhere, so does every part that it
starts with.
-/

namespace WorktreeTracker.FileTree

open WorktreeTracker.Path

variable {t : FileTree}

/-! ## Places without links on the way -/

/-- What every turn keeps is kept where a path leads, when it is kept where a link leads. -/
theorem keeps_of_expansion {P : Location → Prop}
    (hreach : ∀ here part place, P here → t.turn here part = .ok (.reach place) → P place)
    (hlink : ∀ here part start target, P here → t.turn here part = .ok (.link start target) →
      P start)
    {links : Nat}
    (hexpansion : ∀ start parts found, P start → t.expansion links start parts = .ok found →
      P found.1)
    {here : Location} {parts : List String} {found : Found} (hhere : P here)
    (h : t.followLinks true links here parts = .ok found) : P found.1 := by
  induction parts generalizing here with
  | nil =>
    rw [(followLinks_nil_eq_ok.1 h).1]
    exact hhere
  | cons part rest ih =>
    obtain ⟨next, hturn, hrest⟩ := followLinks_cons_eq_ok.1 h
    cases next with
    | reach place => exact ih (hreach here part place hhere hturn) hrest
    | link start target =>
      exact hexpansion start _ found (hlink here part start target hhere hturn) hrest

/-- What every turn keeps is kept where a path leads. -/
theorem followLinks_keeps {P : Location → Prop}
    (hreach : ∀ here part place, P here → t.turn here part = .ok (.reach place) → P place)
    (hlink : ∀ here part start target, P here → t.turn here part = .ok (.link start target) →
      P start)
    {links : Nat} {here : Location} {parts : List String} {found : Found} (hhere : P here)
    (h : t.followLinks true links here parts = .ok found) : P found.1 := by
  refine keeps_of_expansion hreach hlink ?_ hhere h
  clear hhere h
  induction links with
  | zero =>
    intro start parts found _ h
    cases h
  | succ links ih =>
    intro start parts found hstart h
    exact keeps_of_expansion hreach hlink ih hstart h

/-- A name leads back, on to a place that is no link, or into a link that starts at the root directory
or beside the name. -/
theorem turn_cases {here : Location} {part : String} {next : Turn} (h : t.turn here part = .ok next) :
    (∃ place, next = .reach place ∧ place <+: here) ∨
      (next = .reach (here ++ [part]) ∧
        ∀ target, t.entryAt? (here ++ [part]) ≠ some (.link target)) ∨
      ∃ start target, next = .link start target ∧ start <+: here := by
  have hhere := directory_of_turn h
  by_cases hname : part ≠ "" ∧ part ≠ "." ∧ part ≠ ".."
  · by_cases hunlinked : ∀ target, t.entryAt? (here ++ [part]) ≠ some (.link target)
    · exact .inr (.inl ⟨reach_of_turn hname hunlinked h, hunlinked⟩)
    · obtain ⟨target, htarget⟩ := not_forall_not.1 hunlinked
      have hshort : ¬ maxNameLength < part.utf8ByteSize := by
        intro hlong
        cases h.symm.trans (turn_of_long hhere hlong)
      rw [turn_name hhere hname hshort, htarget] at h
      refine .inr (.inr ⟨_, _, (Except.ok.inj h).symm, ?_⟩)
      split
      next => exact List.nil_prefix
      next => exact List.prefix_rfl
  · refine .inl ?_
    rw [turn, hhere] at h
    dsimp only at h
    split at h
    next => exact ⟨here, (Except.ok.inj h).symm, List.prefix_rfl⟩
    next hblank =>
      obtain ⟨hempty, hdot⟩ := not_or.1 hblank
      have hdots : part = ".." := by
        by_contra hne
        exact hname ⟨hempty, hdot, hne⟩
      rw [if_pos hdots] at h
      exact ⟨here.dropLast, (Except.ok.inj h).symm, List.dropLast_prefix here⟩

/-- No link stands on the way to a place. -/
def Straight (t : FileTree) (place : Location) : Prop :=
  ∀ front, front <+: place → ∀ target, t.entryAt? front ≠ some (.link target)

theorem straight_nil (t : FileTree) : t.Straight [] := by
  intro front hfront target
  rw [List.prefix_nil.1 hfront]
  rintro ⟨⟩

theorem Straight.of_prefix {place front : Location} (h : t.Straight place)
    (hfront : front <+: place) : t.Straight front :=
  fun dir hdir => h dir (hdir.trans hfront)

/-- From the root directory a place is reached with no link on the way to it. -/
theorem straight_of_followLinks {links : Nat} {parts : List String} {found : Found}
    (h : t.followLinks true links [] parts = .ok found) : t.Straight found.1 := by
  refine followLinks_keeps ?_ ?_ t.straight_nil h
  · intro here part place hhere hturn
    rcases turn_cases hturn with ⟨back, hnext, hback⟩ | ⟨hnext, hunlinked⟩ | ⟨start, target, hnext, -⟩
    · obtain rfl := Turn.reach.inj hnext
      exact hhere.of_prefix hback
    · obtain rfl := Turn.reach.inj hnext
      intro front hfront
      rcases List.prefix_concat_iff.1 hfront with rfl | hfront
      · exact hunlinked
      · exact hhere front hfront
    · cases hnext
  · intro here part start target hhere hturn
    rcases turn_cases hturn with ⟨back, hnext, -⟩ | ⟨hnext, -⟩ | ⟨start, target, hnext, hstart⟩
    · cases hnext
    · cases hnext
    · obtain ⟨rfl, -⟩ := Turn.link.inj hnext
      exact hhere.of_prefix hstart

/-- Names lead to their own place when no link stands on the way. -/
theorem Straight.place_of_followLinks {links : Nat} {here : Location} {names : List String}
    {found : Found} (hstraight : t.Straight (here ++ names)) (hnames : AreNames names)
    (h : t.followLinks true links here names = .ok found) : found.1 = here ++ names := by
  induction names generalizing here with
  | nil =>
    rw [List.append_nil]
    exact (followLinks_nil_eq_ok.1 h).1
  | cons name rest ih =>
    have hassoc : here ++ name :: rest = here ++ [name] ++ rest := by simp
    rw [hassoc] at hstraight ⊢
    obtain ⟨next, hturn, hrest⟩ := followLinks_cons_eq_ok.1 h
    obtain rfl := reach_of_turn (hnames name List.mem_cons_self)
      (hstraight _ (List.prefix_append (here ++ [name]) rest)) hturn
    exact ih hstraight (fun part hpart => hnames part (List.mem_cons_of_mem _ hpart)) hrest

/-! ## Canonical paths -/

theorem canonicalPath_eq_ok {p q : Path} :
    t.canonicalPath p = .ok q ↔ ∃ found, t.resolve p true = .ok found ∧ q = ofLocation found.1 := by
  rw [canonicalPath, map_eq_ok]
  exact exists_congr fun found => and_congr_right fun _ => eq_comm

theorem isAbsolute_of_canonicalPath {p q : Path} (h : t.canonicalPath p = .ok q) :
    q.isAbsolute = true := by
  obtain ⟨found, -, rfl⟩ := canonicalPath_eq_ok.1 h
  exact (startsWith_append (by decide) _).trans (by decide)

/-- The canonical path starts at the root directory and goes on with the names of a place that no
link stands on the way to. -/
theorem exists_straight_of_canonicalPath {p q : Path} (habsolute : p.isAbsolute = true)
    (h : t.canonicalPath p = .ok q) :
    ∃ place, q = ofLocation place ∧ t.Straight place ∧ ∀ name ∈ place, isEntryName name = true := by
  obtain ⟨found, hfound, rfl⟩ := canonicalPath_eq_ok.1 h
  have hfollowed := followLinks_of_resolve hfound
  rw [start, habsolute, if_pos rfl] at hfollowed
  exact ⟨found.1, rfl, straight_of_followLinks hfollowed,
    isEntryName_of_entryAt? (entryAt?_of_resolve hfound)⟩

/-- The names of a place lead to it from the root directory when no link stands on the way. -/
theorem Straight.place_of_resolve {place : Location} (hstraight : t.Straight place)
    (hnames : ∀ name ∈ place, isEntryName name = true) {found : Found}
    (h : t.resolve (ofComponents (.root :: place.map Component.name)) true = .ok found) :
    found.1 = place := by
  have hinner : ∀ c ∈ place.map Component.name, IsInner c := by
    intro c hc
    obtain ⟨name, hname, rfl⟩ := List.mem_map.1 hc
    exact ⟨name, isPart_of_isEntryName (hnames name hname)⟩
  have hpieces : (place.map Component.name).map Component.piece = place := by
    rw [List.map_map]
    exact List.map_id place
  have hare : AreNames place := by
    intro name hname
    obtain ⟨hempty, hdot, hdots, -⟩ := isEntryName_iff.1 (hnames name hname)
    exact ⟨hempty, hdot, hdots⟩
  rw [resolve_absolute hinner (isPlainText_of_resolve h), hpieces] at h
  rw [← List.nil_append place] at hstraight
  exact hstraight.place_of_followLinks hare h

/-- Every part that leads anywhere of what components start with leads to itself. -/
def IsCanonical (t : FileTree) (cs : List Component) : Prop :=
  ∀ part r, part <+: cs → t.canonicalPath (ofComponents part) = .ok r → r.components = part

/-- The canonical path of an absolute path is canonical. -/
theorem isCanonical_of_canonicalPath {p q : Path} (habsolute : p.isAbsolute = true)
    (h : t.canonicalPath p = .ok q) : t.IsCanonical q.components := by
  intro part r hpart hr
  obtain ⟨place, rfl, hstraight, hnames⟩ := exists_straight_of_canonicalPath habsolute h
  obtain ⟨found, hfound, rfl⟩ := canonicalPath_eq_ok.1 hr
  have hplain := isPlainText_of_resolve hfound
  rw [components_ofLocation hnames] at hpart
  cases part with
  | nil => exact absurd rfl hplain.1
  | cons c part =>
    obtain ⟨rest, hrest⟩ := hpart
    obtain ⟨rfl, hlater⟩ := List.cons.inj hrest
    obtain ⟨front, back, rfl, rfl, -⟩ := List.map_eq_append_iff.1 hlater.symm
    have hfront : ∀ name ∈ front, isEntryName name = true :=
      fun name hname => hnames name (List.mem_append_left back hname)
    have hplace : found.1 = front :=
      (hstraight.of_prefix (List.prefix_append front back)).place_of_resolve hfront hfound
    rw [hplace, components_ofLocation hfront]

/-! ## Parts of absolute paths -/

/-- An absolute path leads where its components lead. -/
theorem canonicalPath_components {p q : Path} (habsolute : p.isAbsolute = true)
    (h : t.canonicalPath p = .ok q) : t.canonicalPath (ofComponents p.components) = .ok q := by
  obtain ⟨found, hfound, rfl⟩ := canonicalPath_eq_ok.1 h
  refine canonicalPath_eq_ok.2 ⟨found, ?_, rfl⟩
  have hfollowed := followLinks_of_resolve hfound
  rw [start, habsolute, if_pos rfl] at hfollowed
  have hcomponents := components_of_isAbsolute habsolute
  have hplain : IsPlainText (ofComponents p.components).text := by
    refine isPlainText_ofComponents (isPlainText_of_resolve hfound) (List.Sublist.refl _) ?_
    rw [hcomponents, ofComponents]
    simp
  rw [hcomponents] at hplain ⊢
  rwa [resolve_absolute (fun c hc => isInner_of_mem_inner hc) hplain]

/-- When the first components of an absolute path lead anywhere, so do fewer of them. -/
theorem exists_canonicalPath_of_prefix {p q : Path} {short long : List Component}
    (habsolute : p.isAbsolute = true) (hlong : long <+: p.components) (hshort : short <+: long)
    (hne : short ≠ []) (h : t.canonicalPath (ofComponents long) = .ok q) :
    ∃ r, t.canonicalPath (ofComponents short) = .ok r := by
  rw [components_of_isAbsolute habsolute] at hlong
  obtain ⟨front, rfl, -⟩ := (List.prefix_cons_iff.1 (hshort.trans hlong)).resolve_left hne
  obtain ⟨rest, rfl⟩ := hshort
  have hall := (List.cons_prefix_cons.1 hlong).2.subset
  have hcs : ∀ c ∈ front ++ rest, IsInner c := fun c hc => isInner_of_mem_inner (hall hc)
  have hinner : ∀ c ∈ front, IsInner c := fun c hc => hcs c (List.mem_append_left rest hc)
  obtain ⟨found, hfound, -⟩ := canonicalPath_eq_ok.1 h
  rw [List.cons_append] at hfound
  have hplain := isPlainText_of_resolve hfound
  have hplainShort : IsPlainText (ofComponents (.root :: front)).text := by
    refine isPlainText_ofComponents hplain ?_ (by simp [ofComponents])
    rw [components_ofComponents ⟨front ++ rest, hcs, .inl rfl⟩]
    exact (List.sublist_append_left front rest).cons_cons .root
  rw [resolve_absolute hcs hplain, List.map_append] at hfound
  rcases t.goesOn linkLimit [] (front.map Component.piece) (rest.map Component.piece) with
    ⟨fault, -, hfault⟩ | ⟨place, entry, left, hplace, -, -⟩
  · cases hfound.symm.trans hfault
  · rw [← resolve_absolute hinner hplainShort] at hplace
    exact ⟨_, canonicalPath_eq_ok.2 ⟨_, hplace, rfl⟩⟩

end WorktreeTracker.FileTree
