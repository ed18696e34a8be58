import WorktreeTracker.Proofs.FileTree
import WorktreeTracker.Proofs.Path

/-!
# Plain paths

Paths are compared by their components, and one list of components can be written in many ways. A
plain path is written in the one way without repeated slashes and single dots, so two of them with the
same components are the same path. Canonical and normalized paths are plain, and so is a plain path
with one more name.
-/

namespace WorktreeTracker.Path

/-! ## Components of plain paths -/

/-- Whether a part between slashes is a component: it has no slash and is neither empty nor a single
dot. -/
def IsPart (part : String) : Prop := '/' ∉ part.toList ∧ (componentOf? part).isSome

/-- A path that is written with nothing but its components. -/
def Plain (p : Path) : Prop :=
  ∃ parts, (∀ part ∈ parts, IsPart part) ∧
    (p.text = "/" ++ "/".intercalate parts ∨ p.text = "/".intercalate parts)

theorem piece_of_componentOf? {part : String} {c : Component} (h : componentOf? part = some c) :
    c.piece = part := by
  unfold componentOf? at h
  split at h
  next => cases h
  next =>
    split at h
    next hup =>
      obtain rfl := Option.some.inj h
      exact hup.symm
    next =>
      obtain rfl := Option.some.inj h
      rfl

/-- A component of an inner part is a name or two dots. -/
theorem componentOf?_cases {part : String} {c : Component} (h : componentOf? part = some c) :
    c = .up ∨ c = .name part := by
  unfold componentOf? at h
  split at h
  next => cases h
  next =>
    split at h
    next => exact .inl (Option.some.inj h).symm
    next => exact .inr (Option.some.inj h).symm

/-- Only the empty part and the single dot are no components. -/
theorem componentOf?_eq_none {part : String} (h : componentOf? part = none) :
    part = "" ∨ part = "." := by
  by_contra hne
  rw [componentOf?, if_neg hne] at h
  split at h <;> cases h

theorem IsPart.ne {part : String} (h : IsPart part) : part ≠ "" ∧ part ≠ "." := by
  constructor
  · rintro rfl
    cases h.2
  · rintro rfl
    cases h.2

/-- The components of parts are told apart by the parts. -/
theorem map_piece {parts : List String} (h : ∀ part ∈ parts, IsPart part) :
    (parts.filterMap componentOf?).map Component.piece = parts := by
  induction parts with
  | nil => rfl
  | cons part rest ih =>
    obtain ⟨c, hc⟩ := Option.isSome_iff_exists.1 (h part List.mem_cons_self).2
    rw [List.filterMap_cons_some hc, List.map_cons, piece_of_componentOf? hc,
      ih fun other hother => h other (List.mem_cons_of_mem _ hother)]

theorem IsPart.relative {part : String} (h : IsPart part) : Relative part := by
  rw [Relative, ← Bool.not_eq_true, Text.startsWith_iff]
  exact fun hprefixed => h.1 (hprefixed.mem List.mem_cons_self)

/-- A part is the only piece of the path that it is. -/
theorem IsPart.pieces {part : String} (h : IsPart part) : (Path.mk part).pieces = [part] := by
  have hsplit : Text.splitOn '/' ("/".intercalate [part]) = [part] :=
    Text.splitOn_intercalate (by simpa using h.1) (List.cons_ne_nil part [])
  rwa [String.intercalate_singleton] at hsplit

theorem startsWith_intercalate {parts : List String} (h : ∀ part ∈ parts, IsPart part) :
    Text.startsWith "/" ("/".intercalate parts) = false := by
  cases parts with
  | nil => rfl
  | cons part rest =>
    have hpart := h part List.mem_cons_self
    cases rest with
    | nil =>
      rw [String.intercalate_singleton]
      exact hpart.relative
    | cons next rest =>
      rw [String.intercalate_cons_cons, String.append_assoc, startsWith_append hpart.ne.1]
      exact hpart.relative

theorem pieces_intercalate {parts : List String} (h : ∀ part ∈ parts, IsPart part) :
    Text.splitOn '/' ("/".intercalate parts) = if parts = [] then [""] else parts := by
  split
  next hnil =>
    subst hnil
    rfl
  next hne => exact Text.splitOn_intercalate (fun part hpart => (h part hpart).1) hne

theorem filterMap_pieces {parts : List String} (h : ∀ part ∈ parts, IsPart part) :
    (Text.splitOn '/' ("/".intercalate parts)).filterMap componentOf? =
      parts.filterMap componentOf? := by
  rw [pieces_intercalate h]
  split
  next hnil =>
    subst hnil
    rfl
  next => rfl

/-- The components of an absolute path with the given parts. -/
theorem components_absolute {parts : List String} (h : ∀ part ∈ parts, IsPart part) :
    (Path.mk ("/" ++ "/".intercalate parts)).components =
      .root :: parts.filterMap componentOf? := by
  have hpieces : (Path.mk ("/" ++ "/".intercalate parts)).pieces =
      [""] ++ Text.splitOn '/' ("/".intercalate parts) := by
    have hempty : ("" ++ "/" ++ "/".intercalate parts : String) = "/" ++ "/".intercalate parts := by
      rw [String.empty_append]
    exact hempty ▸ Text.splitOn_append "" _
  rw [components, isAbsolute, startsWith_append (by decide), hpieces, List.filterMap_append,
    filterMap_pieces h]
  rfl

/-- The components of a relative path with the given parts. -/
theorem components_relative {parts : List String} (h : ∀ part ∈ parts, IsPart part) :
    (Path.mk ("/".intercalate parts)).components = parts.filterMap componentOf? := by
  have hhead : (Text.splitOn '/' ("/".intercalate parts)).head? ≠ some "." := by
    rw [pieces_intercalate h]
    split
    next => decide
    next =>
      intro hdot
      exact (h "." (List.mem_of_head? hdot)).ne.2 rfl
  have hrelative : ¬ (Path.mk ("/".intercalate parts)).isAbsolute = true := by
    rw [isAbsolute, startsWith_intercalate h]
    exact Bool.false_ne_true
  rw [components, if_neg hrelative, pieces, if_neg hhead, filterMap_pieces h]

/-- Plain paths with the same components are the same. -/
theorem Plain.eq_of_same {p q : Path} (hp : p.Plain) (hq : q.Plain) (h : p.same q = true) :
    p = q := by
  have hcomponents : p.components = q.components := of_decide_eq_true h
  obtain ⟨text⟩ := p
  obtain ⟨text'⟩ := q
  obtain ⟨parts, hparts, htext⟩ := hp
  obtain ⟨parts', hparts', htext'⟩ := hq
  have hinner {parts parts' : List String} (hparts : ∀ part ∈ parts, IsPart part)
      (hparts' : ∀ part ∈ parts', IsPart part)
      (heq : parts.filterMap componentOf? = parts'.filterMap componentOf?) : parts = parts' := by
    rw [← map_piece hparts, heq, map_piece hparts']
  -- a relative path has no root component
  have hroot (parts parts' : List String) :
      ¬ Component.root :: parts.filterMap componentOf? = parts'.filterMap componentOf? := by
    intro heq
    have hmem : Component.root ∈ parts'.filterMap componentOf? := heq ▸ List.mem_cons_self
    obtain ⟨part, -, hpart⟩ := List.mem_filterMap.1 hmem
    rcases componentOf?_cases hpart with hc | hc <;> cases hc
  dsimp only at htext htext'
  rcases htext with rfl | rfl <;> rcases htext' with rfl | rfl
  · rw [components_absolute hparts, components_absolute hparts', List.cons.injEq] at hcomponents
    rw [hinner hparts hparts' hcomponents.2]
  · rw [components_absolute hparts, components_relative hparts'] at hcomponents
    exact absurd hcomponents (hroot _ _)
  · rw [components_relative hparts, components_absolute hparts'] at hcomponents
    exact absurd hcomponents.symm (hroot _ _)
  · rw [components_relative hparts, components_relative hparts'] at hcomponents
    rw [hinner hparts hparts' hcomponents]

/-! ## Paths that are written plainly -/

/-- The name of an entry is a part, and a name as a component. -/
theorem isPart_of_isEntryName {name : String} (h : isEntryName name = true) :
    IsPart name ∧ componentOf? name = some (.name name) := by
  obtain ⟨hempty, hdot, hdots, -, hslash, -⟩ := isEntryName_iff.1 h
  have hcomponent : componentOf? name = some (.name name) := by
    rw [componentOf?, if_neg (by simp [hempty, hdot]), if_neg hdots]
  exact ⟨⟨hslash, Option.isSome_iff_exists.2 ⟨_, hcomponent⟩⟩, hcomponent⟩

/-- The path of a place is plain. -/
theorem plain_ofLocation {location : Location} (h : ∀ name ∈ location, isEntryName name = true) :
    (ofLocation location).Plain :=
  ⟨location, fun name hname => (isPart_of_isEntryName (h name hname)).1, .inl rfl⟩

/-- The components of the path of a place are its names after the root directory. -/
theorem components_ofLocation {location : Location}
    (h : ∀ name ∈ location, isEntryName name = true) :
    (ofLocation location).components = .root :: location.map .name := by
  have hnames : location.filterMap componentOf? = location.map .name := by
    rw [← List.filterMap_eq_map]
    exact List.filterMap_congr fun name hname => (isPart_of_isEntryName (h name hname)).2
  rw [ofLocation, components_absolute fun name hname => (isPart_of_isEntryName (h name hname)).1,
    hnames]

/-- A text that goes on with parts ends in no slash. -/
theorem endsWith_slash_intercalate {parts : List String} (hparts : ∀ part ∈ parts, IsPart part)
    (hne : parts ≠ []) (front : String) :
    Text.endsWith "/" (front ++ "/".intercalate parts) = false ∧ "/".intercalate parts ≠ "" := by
  obtain ⟨others, last, rfl⟩ := (List.eq_nil_or_concat parts).resolve_left hne
  have hlast := hparts last (by simp)
  have hslash : Text.endsWith "/" last = false := by
    rw [← Bool.not_eq_true, Text.endsWith_iff]
    exact fun hsuffix => hlast.1 (hsuffix.mem List.mem_cons_self)
  rw [List.concat_eq_append]
  cases others with
  | nil =>
    rw [List.nil_append, String.intercalate_singleton, endsWith_append hlast.ne.1]
    exact ⟨hslash, hlast.ne.1⟩
  | cons first others =>
    rw [Text.intercalate_append (by simp) (by simp), String.intercalate_singleton,
      ← String.append_assoc, endsWith_append hlast.ne.1]
    refine ⟨hslash, fun hempty => ?_⟩
    have hlength := congrArg (fun s => s.toList.length) hempty
    simp at hlength

/-- A plain path with one more part is plain. -/
theorem Plain.div {p : Path} (h : p.Plain) {part : String} (hpart : IsPart part) :
    (p / part).Plain := by
  have hrelative := hpart.relative
  obtain ⟨text⟩ := p
  obtain ⟨parts, hparts, htext⟩ := h
  have hmore : ∀ other ∈ parts ++ [part], IsPart other := by
    intro other hother
    rcases List.mem_append.1 hother with hother | hother
    · exact hparts other hother
    · rwa [List.mem_singleton.1 hother]
  refine ⟨parts ++ [part], hmore, ?_⟩
  rw [text_div _ hrelative]
  dsimp only at htext ⊢
  rcases htext with rfl | rfl
  · refine .inl ?_
    by_cases hne : parts = []
    · subst hne
      rw [List.nil_append, String.intercalate_singleton]
      rfl
    · obtain ⟨hslash, -⟩ := endsWith_slash_intercalate hparts hne "/"
      rw [if_neg (by simp), if_neg (by rw [hslash]; exact Bool.false_ne_true),
        Text.intercalate_append hne (by simp), String.intercalate_singleton]
      simp [String.append_assoc]
  · refine .inr ?_
    by_cases hne : parts = []
    · subst hne
      rw [List.nil_append, String.intercalate_singleton]
      rfl
    · obtain ⟨hslash, hempty⟩ := endsWith_slash_intercalate hparts hne ""
      rw [String.empty_append] at hslash
      rw [if_neg (by simpa using hempty), if_neg (by rw [hslash]; exact Bool.false_ne_true),
        Text.intercalate_append hne (by simp), String.intercalate_singleton]

/-! ## Collapsed paths -/

/-- A component that is a part between slashes. -/
def IsInner (c : Component) : Prop := ∃ part, IsPart part ∧ componentOf? part = some c

/-- Components of which only the first may be the root directory, and none is a single dot. -/
def Collapsed (cs : List Component) : Prop :=
  ∃ inner, (∀ c ∈ inner, IsInner c) ∧ (cs = .root :: inner ∨ cs = inner)

theorem IsInner.isPart {c : Component} (h : IsInner c) : IsPart c.piece := by
  obtain ⟨part, hpart, hc⟩ := h
  rwa [piece_of_componentOf? hc]

/-- A component between slashes is two dots or a name that stands for itself. -/
theorem IsInner.cases {c : Component} (h : IsInner c) :
    c = .up ∨ ∃ text, c = .name text ∧ IsPart text ∧ componentOf? text = some (.name text) := by
  obtain ⟨part, hpart, hc⟩ := h
  rcases componentOf?_cases hc with rfl | rfl
  · exact .inl rfl
  · exact .inr ⟨part, rfl, hpart, hc⟩

theorem isInner_up : IsInner .up := ⟨"..", ⟨by decide, by decide⟩, by decide⟩

/-- The path that inner components make is relative. -/
theorem ofComponents_of_inner {inner : List Component} (h : ∀ c ∈ inner, IsInner c) :
    ofComponents inner = ⟨"/".intercalate (inner.map Component.piece)⟩ := by
  cases inner with
  | nil => rfl
  | cons c rest =>
    cases c with
    | root =>
      obtain ⟨part, -, hc⟩ := h .root List.mem_cons_self
      rcases componentOf?_cases hc with hc | hc <;> cases hc
    | here => rfl
    | up => rfl
    | name text => rfl

/-- The path that collapsed components make is plain. -/
theorem plain_ofComponents {cs : List Component} (h : Collapsed cs) : (ofComponents cs).Plain := by
  obtain ⟨inner, hinner, hcs⟩ := h
  refine ⟨inner.map Component.piece, fun part hpart => ?_, ?_⟩
  · obtain ⟨c, hc, rfl⟩ := List.mem_map.1 hpart
    exact (hinner c hc).isPart
  · rcases hcs with rfl | rfl
    · exact .inl rfl
    · exact .inr (congrArg Path.text (ofComponents_of_inner hinner))

theorem Collapsed.concat {cs : List Component} (h : Collapsed cs) {c : Component}
    (hc : IsInner c) : Collapsed (cs ++ [c]) := by
  obtain ⟨inner, hinner, hcs⟩ := h
  refine ⟨inner ++ [c], fun other hother => ?_, ?_⟩
  · rcases List.mem_append.1 hother with hother | hother
    · exact hinner other hother
    · rwa [List.mem_singleton.1 hother]
  · exact hcs.imp (congrArg (· ++ [c])) (congrArg (· ++ [c]))

theorem Collapsed.dropLast {cs : List Component} (h : Collapsed cs) : Collapsed cs.dropLast := by
  obtain ⟨inner, hinner, hcs⟩ := h
  have hless : ∀ c ∈ inner.dropLast, IsInner c := fun c hc => hinner c (List.dropLast_subset _ hc)
  rcases hcs with rfl | rfl
  · cases inner with
    | nil => exact ⟨[], hinner, .inr rfl⟩
    | cons c rest => exact ⟨(c :: rest).dropLast, hless, .inl rfl⟩
  · exact ⟨_, hless, .inr rfl⟩

/-- Collapsing keeps to collapsed components, one component after the other. -/
theorem collapsed_collapse {done rest : List Component} (hdone : Collapsed done)
    (hrest : ∀ c ∈ rest, c = .here ∨ IsInner c) : Collapsed (collapse done rest) := by
  induction rest generalizing done with
  | nil => rwa [collapse]
  | cons c rest ih =>
    have hlater := fun other hother => hrest other (List.mem_cons_of_mem c hother)
    rcases hrest c List.mem_cons_self with rfl | hc
    · rw [collapse]
      exact ih hdone hlater
    · obtain ⟨part, -, hpart⟩ := id hc
      rcases componentOf?_cases hpart with rfl | rfl
      · rw [collapse.eq_def]
        dsimp only
        split
        next => exact ih ⟨[.up], by simpa using isInner_up, .inr rfl⟩ hlater
        next => exact ih ⟨[.up], by simpa using isInner_up, .inl rfl⟩ hlater
        next => exact ih hdone.dropLast hlater
      · rw [collapse]
        · exact ih (hdone.concat hc) hlater
        · rintro ⟨⟩
        · rintro ⟨⟩

/-- What components are collapsed to are some of them. -/
theorem collapse_sublist (done rest : List Component) :
    (collapse done rest).Sublist (done ++ rest) := by
  induction rest generalizing done with
  | nil => rw [collapse, List.append_nil]
  | cons c rest ih =>
    have hlonger (c : Component) : (collapse (done ++ [c]) rest).Sublist (done ++ c :: rest) := by
      have hmore := ih (done ++ [c])
      rwa [List.append_assoc, List.singleton_append] at hmore
    cases c with
    | here =>
      rw [collapse]
      exact (ih done).trans ((List.sublist_cons_self .here rest).append_left done)
    | up =>
      rw [collapse.eq_def]
      dsimp only
      split
      next => exact ih [.up]
      next => exact ih [.root, .up]
      next =>
        exact (ih done.dropLast).trans
          ((List.dropLast_sublist done).append (List.sublist_cons_self .up rest))
    | root =>
      rw [collapse]
      · exact hlonger .root
      · rintro ⟨⟩
      · rintro ⟨⟩
    | name text =>
      rw [collapse]
      · exact hlonger (.name text)
      · rintro ⟨⟩
      · rintro ⟨⟩

/-- The components of a path other than the mark of its start. -/
def inner (p : Path) : List Component := p.pieces.filterMap componentOf?

/-- The parts of a path that count have no slash in them. -/
theorem isInner_of_mem_inner {p : Path} {c : Component} (h : c ∈ p.inner) : IsInner c := by
  obtain ⟨part, hpart, hc⟩ := List.mem_filterMap.1 h
  exact ⟨part, ⟨Text.not_mem_of_mem_splitOn hpart, Option.isSome_iff_exists.2 ⟨c, hc⟩⟩, hc⟩

/-- The components of a path are collapsed to collapsed ones. -/
theorem collapsed_components (p : Path) : Collapsed (collapse [] p.components) := by
  have hinner := fun c (h : c ∈ p.inner) => isInner_of_mem_inner h
  unfold components
  dsimp only
  split
  next =>
    rw [collapse]
    · exact collapsed_collapse ⟨[], by simp, .inl rfl⟩ fun c hc => .inr (hinner c hc)
    · rintro ⟨⟩
    · rintro ⟨⟩
  next =>
    refine collapsed_collapse ⟨[], by simp, .inr rfl⟩ fun c hc => ?_
    split at hc
    next => exact (List.mem_cons.1 hc).imp id (hinner c)
    next => exact .inr (hinner c hc)

/-- A normalized path is plain. -/
theorem plain_normalize (p : Path) : p.normalize.Plain :=
  plain_ofComponents p.collapsed_components

end WorktreeTracker.Path
