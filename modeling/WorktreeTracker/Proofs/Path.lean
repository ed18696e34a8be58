import WorktreeTracker.Path
import WorktreeTracker.Proofs.Text

/-!
# Joined paths

The parts of a joined path are those of the path it was joined to, less the one that a slash at the
end leaves, and then those that were joined. What comes after a directory in a path joined to it is
what was joined.
-/

namespace WorktreeTracker.Path

/-- Whether a text names something seen from a directory: it does not start with a slash. -/
def Relative (rel : String) : Prop := Text.startsWith "/" rel = false

instance (rel : String) : Decidable (Relative rel) := inferInstanceAs (Decidable (_ = false))

/-- The parts that a path joined to `p` starts with. -/
def stem (p : Path) : List String :=
  if p.text.isEmpty then []
  else if Text.endsWith "/" p.text then p.pieces.dropLast
  else p.pieces

/-- Only the first character counts for how a text starts. -/
theorem startsWith_append {s : String} (h : s ≠ "") (more : String) :
    Text.startsWith "/" (s ++ more) = Text.startsWith "/" s := by
  obtain ⟨c, cs, hcs⟩ : ∃ c cs, s.toList = c :: cs := List.exists_cons_of_ne_nil (by simpa using h)
  have hslash : "/".toList = ['/'] := rfl
  rw [Bool.eq_iff_iff, Text.startsWith_iff, Text.startsWith_iff, String.toList_append, hcs, hslash,
    List.cons_append, List.cons_prefix_cons, List.cons_prefix_cons]
  simp

/-- Only the last character counts for how a text ends. -/
theorem endsWith_append {s : String} (h : s ≠ "") (front : String) :
    Text.endsWith "/" (front ++ s) = Text.endsWith "/" s := by
  have hlast (cs : List Char) (c : Char) : ['/'] <:+ cs ++ [c] ↔ '/' = c := by
    rw [← List.reverse_prefix, List.reverse_append]
    simp [List.cons_prefix_cons]
  obtain ⟨cs, c, hcs⟩ := (List.eq_nil_or_concat s.toList).resolve_left (by simpa using h)
  have hslash : "/".toList = ['/'] := rfl
  rw [Bool.eq_iff_iff, Text.endsWith_iff, Text.endsWith_iff, String.toList_append, hcs, hslash,
    List.concat_eq_append, ← List.append_assoc, hlast, hlast]

/-- The text of a joined path. -/
theorem text_div (p : Path) {rel : String} (h : Relative rel) :
    (p / rel).text =
      if p.text.isEmpty then rel
      else if Text.endsWith "/" p.text then p.text ++ rel
      else p.text ++ "/" ++ rel := by
  show (p.join ⟨rel⟩).text = _
  rw [join, isAbsolute, h, Bool.false_or]
  split
  next => rfl
  next => split <;> rfl

/-- A text that ends in a slash is one with a slash after it. -/
theorem exists_of_endsWith {s : String} (h : Text.endsWith "/" s = true) : ∃ a, s = a ++ "/" := by
  obtain ⟨cs, hcs⟩ := Text.endsWith_iff.1 h
  refine ⟨String.ofList cs, ?_⟩
  rw [← String.toList_inj, String.toList_append, String.toList_ofList, hcs]

theorem pieces_of_endsWith {a : String} : (Path.mk (a ++ "/")).pieces = Text.splitOn '/' a ++ [""] := by
  have happend := Text.splitOn_append a ""
  rwa [String.append_empty] at happend

/-- The parts of a joined path. -/
theorem pieces_div (p : Path) {rel : String} (h : Relative rel) :
    (p / rel).pieces = p.stem ++ (Path.mk rel).pieces := by
  rw [pieces, text_div p h, stem]
  split
  next => rfl
  next =>
    split
    next hslash =>
      obtain ⟨a, ha⟩ := exists_of_endsWith hslash
      obtain ⟨text⟩ := p
      obtain rfl : text = a ++ "/" := ha
      rw [pieces_of_endsWith, List.dropLast_concat]
      exact Text.splitOn_append a rel
    next => exact Text.splitOn_append p.text rel

/-- The stem of a path has the components of the path. -/
theorem filterMap_stem (p : Path) :
    p.stem.filterMap componentOf? = p.pieces.filterMap componentOf? := by
  rw [stem]
  split
  next hempty =>
    have htext : p.text = "" := by simpa using hempty
    rw [pieces, htext]
    rfl
  next =>
    split
    next hslash =>
      obtain ⟨a, ha⟩ := exists_of_endsWith hslash
      obtain ⟨text⟩ := p
      obtain rfl : text = a ++ "/" := ha
      rw [pieces_of_endsWith, List.dropLast_concat, List.filterMap_append]
      simp [componentOf?]
    next => rfl

/-- A slash at the end of a directory does not count for what is joined to it. -/
theorem slash_div {p : Path} (hne : p.text ≠ "") (hend : Text.endsWith "/" p.text = false)
    {rel : String} (h : Relative rel) : Path.mk (p.text ++ "/") / rel = p / rel := by
  have hslash : Text.endsWith "/" (p.text ++ "/") = true :=
    (endsWith_append (by decide) _).trans (by decide)
  have htext : (Path.mk (p.text ++ "/") / rel).text = (p / rel).text := by
    rw [text_div _ h, text_div _ h]
    simp [hne, hend, hslash]
  exact congrArg Path.mk htext

/-- Joining twice is joining once. -/
theorem div_div (p : Path) {a b : String} (ha : Relative a) (hb : Relative b) (hne : a ≠ "")
    (hend : Text.endsWith "/" a = false) : (p / a) / b = p / (a ++ "/" ++ b) := by
  have hab : Relative (a ++ "/" ++ b) := by
    rw [String.append_assoc, Relative, startsWith_append hne]
    exact ha
  have hempty (s : String) : (s ++ a).isEmpty = false := by
    simp [hne]
  have hslash (s : String) : Text.endsWith "/" (s ++ a) = false := by
    rw [endsWith_append hne]
    exact hend
  have htext : ((p / a) / b).text = (p / (a ++ "/" ++ b)).text := by
    rw [text_div _ hb, text_div p ha, text_div p hab]
    split
    next => simp [hne, hend]
    next =>
      split
      next =>
        rw [hempty, hslash]
        simp [String.append_assoc]
      next =>
        rw [hempty, hslash]
        simp [String.append_assoc]
  exact congrArg Path.mk htext

/-- A path joined to another is absolute when that one is. -/
theorem isAbsolute_div (p : Path) {rel : String} (h : Relative rel) :
    (p / rel).isAbsolute = p.isAbsolute := by
  rw [isAbsolute, text_div p h, isAbsolute]
  split
  next hempty =>
    have htext : p.text = "" := by simpa using hempty
    rw [htext]
    exact h
  next hempty =>
    have hne : p.text ≠ "" := by simpa using hempty
    split
    next => exact startsWith_append hne rel
    next =>
      rw [String.append_assoc]
      exact startsWith_append hne _

/-- The name of a joined path is the last part that was joined. -/
theorem fileName?_div (p : Path) {rel : String} (h : Relative rel) {front : List String} {last : String}
    (hpieces : (Path.mk rel).pieces = front ++ [last]) (hlast : componentOf? last = some (.name last)) :
    (p / rel).fileName? = some last := by
  have hinner : ((p / rel).pieces.filterMap componentOf?).getLast? = some (.name last) := by
    rw [pieces_div p h, hpieces, ← List.append_assoc, List.filterMap_append,
      List.filterMap_cons_some hlast, List.filterMap_nil, List.getLast?_concat]
  have hcons (c : Component) (cs : List Component) (hcs : cs.getLast? = some (.name last)) :
      (c :: cs).getLast? = some (.name last) := by
    rw [List.getLast?_cons, hcs]
    rfl
  have hcomponents : (p / rel).components.getLast? = some (.name last) := by
    rw [components]
    by_cases habsolute : (p / rel).isAbsolute = true
    · rw [if_pos habsolute]
      exact hcons _ _ hinner
    · rw [if_neg habsolute]
      split
      next => exact hcons _ _ hinner
      next => exact hinner
  rw [fileName?, hcomponents]

/-! ## What comes after a directory -/

theorem piecesAfter?_of_none {piece : String} (h : componentOf? piece = none)
    (base : List Component) (rest : List String) :
    piecesAfter? base (piece :: rest) = piecesAfter? base rest := by
  rw [piecesAfter?.eq_def]
  simp [h]

theorem piecesAfter?_nil {piece : String} {c : Component} (h : componentOf? piece = some c)
    (rest : List String) : piecesAfter? [] (piece :: rest) = some (piece :: rest) := by
  rw [piecesAfter?.eq_def]
  simp [h]

theorem piecesAfter?_self {piece : String} {c : Component} (h : componentOf? piece = some c)
    (base : List Component) (rest : List String) :
    piecesAfter? (c :: base) (piece :: rest) = piecesAfter? base rest := by
  rw [piecesAfter?.eq_def]
  simp [h]

/-- What is left after the components of some parts is what comes after these parts. -/
theorem piecesAfter?_append (front back : List String) :
    piecesAfter? (front.filterMap componentOf?) (front ++ back) = piecesAfter? [] back := by
  induction front with
  | nil => rfl
  | cons piece front ih =>
    rw [List.cons_append]
    cases hpiece : componentOf? piece with
    | none => rw [List.filterMap_cons_none hpiece, piecesAfter?_of_none hpiece, ih]
    | some c => rw [List.filterMap_cons_some hpiece, piecesAfter?_self hpiece, ih]

/-- What comes after a directory in a path joined to it is what was joined. -/
theorem after?_div (p : Path) {rel : String} (piece : String) (rest : List String)
    (h : Relative rel) (hpieces : (Path.mk rel).pieces = piece :: rest)
    (hpiece : (componentOf? piece).isSome) :
    p.after? (p / rel) = some rel := by
  obtain ⟨c, hc⟩ := Option.isSome_iff_exists.1 hpiece
  rw [after?, isAbsolute_div p h, if_pos rfl, pieces_div p h, ← filterMap_stem, piecesAfter?_append,
    hpieces, piecesAfter?_nil hc, ← hpieces]
  exact congrArg some (Text.intercalate_splitOn rel)

end WorktreeTracker.Path
