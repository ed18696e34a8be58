import WorktreeTracker.Proofs.FileTree.Below

/-!
# Why a path is refused

Without links a path that leads to nothing is refused for one of three reasons: a name on the way is
missing, names go on below a regular file, or a name is longer than an entry can have. The last two
are told by the part of the path that leads there.
-/

namespace WorktreeTracker.FileTree

variable {t : FileTree} {links : Nat} {here place : Location} {parts : List String} {fault : Fault}
variable {p : Path} {rel : String}

/-! ## Following without links -/

theorem LinkFree.turn_ne_link (hfree : t.LinkFree) {part : String} {start : Location} :
    t.turn here part ≠ .ok (.link start parts) := by
  intro h
  have hhere := directory_of_turn h
  rw [turn, hhere] at h
  dsimp only at h
  split at h
  next => cases h
  split at h
  next => cases h
  split at h
  next => cases h
  split at h
  next => cases h
  next target hlink => exact hfree _ target hlink
  next => cases h

/-- Where a path leads does not depend on the links that may be taken. -/
theorem LinkFree.followLinks_links (hfree : t.LinkFree) (links links' : Nat) (here : Location)
    (parts : List String) :
    t.followLinks true links here parts = t.followLinks true links' here parts := by
  induction parts generalizing here with
  | nil => rw [followLinks_nil, followLinks_nil]
  | cons part rest ih =>
    rw [followLinks_cons, followLinks_cons]
    cases hturn : t.turn here part with
    | error fault => rfl
    | ok next =>
      cases next with
      | reach place => exact ih place
      | link start target => exact absurd hturn hfree.turn_ne_link

/-- A path that is joined to a directory is followed from where the directory is. -/
theorem LinkFree.resolve_div (hfree : t.LinkFree) {entry : Entry}
    (hanchor : t.anchor p = .ok (place, entry)) (hrel : Path.Relative rel)
    (hplain : IsPlainText (p / rel).text) :
    t.resolve (p / rel) true = t.followLinks true linkLimit place (Path.mk rel).pieces := by
  have hgoes := goesOn_anchor (t := t) hrel hplain
  rw [hanchor] at hgoes
  obtain ⟨-, left, hlong⟩ := hgoes.ok
  rw [hlong, hfree.followLinks_links left linkLimit]

/-! ## Where a path stops -/

variable (t links here) in
/-- A path stops where a part of it leads, with a fault other than that of a missing name. -/
inductive Stops : List String → Fault → Prop
  | atFile {front back : List String} {place : Location} {contents : ByteArray} (hback : back ≠ [])
      (hfront : t.followLinks true links here front = .ok (place, .file contents)) :
      Stops (front ++ back) .notADirectory
  | atLongName {front back : List String} {part : String} {place : Location}
      (hlong : maxNameLength < part.utf8ByteSize)
      (hfront : t.followLinks true links here front = .ok (place, .directory)) :
      Stops (front ++ part :: back) .nameTooLong

/-- A path that stops does not stop for a missing name. -/
theorem Stops.ne_notFound (h : t.Stops links here parts fault) : fault ≠ .notFound := by
  cases h with
  | atFile hback hfront => decide
  | atLongName hlong hfront => decide

/-- A name that leads on is followed to where the rest stops. -/
theorem Stops.cons {part : String} (hturn : t.turn here part = .ok (.reach place))
    (h : t.Stops links place parts fault) : t.Stops links here (part :: parts) fault := by
  have hstep (front : List String) :
      t.followLinks true links here (part :: front) = t.followLinks true links place front := by
    rw [followLinks_cons, hturn]
  cases h with
  | atFile hback hfront =>
    rw [← List.cons_append]
    exact .atFile hback ((hstep _).trans hfront)
  | atLongName hlong hfront =>
    rw [← List.cons_append]
    exact .atLongName hlong ((hstep _).trans hfront)

/-- Why a name leads nowhere. -/
theorem turn_eq_error {part : String} (h : t.turn here part = .error fault) :
    fault = .notFound ∨
      (fault = .notADirectory ∧ ∃ entry, t.entryAt? here = some entry ∧ entry ≠ .directory) ∨
      fault = .nameTooLong ∧ t.entryAt? here = some .directory ∧
        maxNameLength < part.utf8ByteSize := by
  rw [turn] at h
  cases hhere : t.entryAt? here with
  | none =>
    rw [hhere] at h
    exact .inl (Except.error.inj h).symm
  | some entry =>
    rw [hhere] at h
    cases entry with
    | file contents => exact .inr (.inl ⟨(Except.error.inj h).symm, _, rfl, by simp⟩)
    | link target => exact .inr (.inl ⟨(Except.error.inj h).symm, _, rfl, by simp⟩)
    | directory =>
      dsimp only at h
      split at h
      next => cases h
      split at h
      next => cases h
      split at h
      next hlong => exact .inr (.inr ⟨(Except.error.inj h).symm, rfl, hlong⟩)
      split at h
      next => exact .inl (Except.error.inj h).symm
      next => cases h
      next => cases h

/-- Without links a path that is refused stops somewhere, or a name is missing. -/
theorem LinkFree.stops_of_error (hfree : t.LinkFree)
    (h : t.followLinks true links here parts = .error fault) (hne : fault ≠ .notFound) :
    t.Stops links here parts fault := by
  induction parts generalizing here with
  | nil =>
    rw [followLinks_nil] at h
    split at h
    next => cases h
    next => exact absurd (Except.error.inj h).symm hne
  | cons part rest ih =>
    rw [followLinks_cons] at h
    cases hturn : t.turn here part with
    | error other =>
      rw [hturn] at h
      obtain rfl := Except.error.inj h
      have hnil {entry : Entry} (hhere : t.entryAt? here = some entry) :
          t.followLinks true links here [] = .ok (here, entry) := by
        rw [followLinks_nil, hhere]
      rcases turn_eq_error hturn with rfl | ⟨rfl, entry, hhere, hentry⟩ | ⟨rfl, hhere, hlong⟩
      · exact absurd rfl hne
      · cases entry with
        | directory => exact absurd rfl hentry
        | link target => exact absurd hhere (hfree here target)
        | file contents =>
          show t.Stops links here ([] ++ part :: rest) _
          exact .atFile (List.cons_ne_nil part rest) (hnil hhere)
      · show t.Stops links here ([] ++ part :: rest) _
        exact .atLongName hlong (hnil hhere)
    | ok next =>
      rw [hturn] at h
      cases next with
      | reach place => exact .cons hturn (ih h)
      | link start target => exact absurd hturn hfree.turn_ne_link

/-- A name that is too long is refused in a directory. -/
theorem turn_of_long {part : String} (hhere : t.entryAt? here = some .directory)
    (hlong : maxNameLength < part.utf8ByteSize) : t.turn here part = .error .nameTooLong := by
  have hshort : part ≠ "" ∧ part ≠ "." ∧ part ≠ ".." := by
    refine ⟨?_, ?_, ?_⟩ <;> rintro rfl <;> exact absurd hlong (by decide)
  obtain ⟨hempty, hdot, hdots⟩ := hshort
  rw [turn, hhere]
  dsimp only
  rw [if_neg (by simp [hempty, hdot]), if_neg hdots, if_pos hlong]

/-- A path that stops is refused. -/
theorem Stops.followLinks_eq (h : t.Stops links here parts fault) :
    t.followLinks true links here parts = .error fault := by
  -- the rest is followed from where the part leads that the path stops at
  have hfrom {front back : List String} {place : Location} {entry : Entry}
      (hfront : t.followLinks true links here front = .ok (place, entry)) :
      t.entryAt? place = some entry ∧ ∃ left,
        t.followLinks true links here (front ++ back) = t.followLinks true left place back := by
    have hgoes := t.goesOn links here front back
    rw [hfront] at hgoes
    exact hgoes.ok
  cases h with
  | @atFile front back place contents hback hfront =>
    obtain ⟨part, rest, rfl⟩ := List.exists_cons_of_ne_nil hback
    obtain ⟨hentry, left, hrest⟩ := hfrom hfront
    rw [hrest, followLinks_of_ne_directory hentry (by simp)]
  | @atLongName front back part place hlong hfront =>
    obtain ⟨hentry, left, hrest⟩ := hfrom hfront
    rw [hrest, followLinks_cons, turn_of_long hentry hlong]

/-- Without links a path is refused, other than for a missing name, exactly where it stops. -/
theorem LinkFree.followLinks_eq_error_iff (hfree : t.LinkFree) :
    t.followLinks true links here parts = .error fault ∧ fault ≠ .notFound ↔
      t.Stops links here parts fault :=
  ⟨fun h => hfree.stops_of_error h.1 h.2, fun h => ⟨h.followLinks_eq, h.ne_notFound⟩⟩

/-! ## Entries that are found -/

theorem isFile_iff : t.isFile p = true ↔
    ∃ place contents, t.resolve p true = .ok (place, .file contents) := by
  rw [isFile, entry]
  cases t.resolve p true with
  | error fault => simp [Except.map]
  | ok found =>
    obtain ⟨place, entry⟩ := found
    cases entry <;> simp [Except.map]

theorem isDirectory_iff : t.isDirectory p = true ↔
    ∃ place, t.resolve p true = .ok (place, .directory) := by
  rw [isDirectory, entry]
  cases t.resolve p true with
  | error fault => simp [Except.map]
  | ok found =>
    obtain ⟨place, entry⟩ := found
    cases entry <;> simp [Except.map]

/-- Without links a file cannot be read where the path is refused or leads to a directory. -/
theorem LinkFree.readFile_eq_error_iff (hfree : t.LinkFree) :
    t.readFile p = .error fault ↔
      t.resolve p true = .error fault ∨ fault = .isADirectory ∧ t.isDirectory p = true := by
  rw [isDirectory_iff, readFile, entry]
  cases hfound : t.resolve p true with
  | error other => simp [Except.map]
  | ok found =>
    obtain ⟨place, entry⟩ := found
    cases entry with
    | file contents => simp [Except.map]
    | directory => simp [Except.map, eq_comm]
    | link target => exact absurd (entryAt?_of_resolve hfound) (hfree place target)

/-! ## Texts of paths -/

/-- What is joined to a path comes after one and the same text. -/
theorem exists_text_div (p : Path) :
    ∃ lead, ∀ rel, Path.Relative rel → (p / rel).text = lead ++ rel := by
  by_cases hempty : p.text.isEmpty = true
  · exact ⟨"", fun rel hrel => by rw [Path.text_div p hrel, if_pos hempty, String.empty_append]⟩
  by_cases hend : Text.endsWith "/" p.text = true
  · exact ⟨p.text, fun rel hrel => by rw [Path.text_div p hrel, if_neg hempty, if_pos hend]⟩
  · exact ⟨p.text ++ "/", fun rel hrel => by rw [Path.text_div p hrel, if_neg hempty, if_neg hend]⟩

/-- What a relative path starts with is one. -/
theorem relative_of_append {more : String} (h : Path.Relative (rel ++ more)) :
    Path.Relative rel := by
  by_cases hne : rel = ""
  · rw [hne]
    decide
  · rwa [Path.Relative, Path.startsWith_append hne] at h

/-- A path can be looked up when one that goes on after it can. -/
theorem isPlainText_of_append {more : String} (hne : rel ≠ "")
    (hlonger : Path.Relative (rel ++ more))
    (h : IsPlainText (p / (rel ++ more)).text) : IsPlainText (p / rel).text := by
  have hrel := relative_of_append hlonger
  obtain ⟨lead, htext⟩ := exists_text_div p
  rw [htext _ hlonger] at h
  rw [htext _ hrel]
  obtain ⟨-, hzero, hsize⟩ := h
  rw [String.utf8ByteSize_append, String.utf8ByteSize_append] at hsize
  refine ⟨?_, ?_, ?_⟩
  · simp [hne]
  · simp only [String.toList_append, List.mem_append, not_or] at hzero ⊢
    exact ⟨hzero.1, hzero.2.1⟩
  · rw [String.utf8ByteSize_append]
    omega

end WorktreeTracker.FileTree
