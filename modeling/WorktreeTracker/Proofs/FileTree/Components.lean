import Mathlib.Algebra.GroupWithZero.Nat
import Mathlib.Algebra.Order.BigOperators.Group.List
import Mathlib.Algebra.Order.Group.Nat
import WorktreeTracker.Proofs.Path.Plain
import WorktreeTracker.Proofs.Resolution

/-!
# Following components

A path can be written anew with nothing but some of its components. The text does not get longer, and
what is followed are the components: the parts between slashes that do not count lead nowhere.
-/

namespace WorktreeTracker

/-! ## Texts of parts -/

namespace Text

/-- The size of parts with slashes between them. -/
theorem utf8ByteSize_intercalate (parts : List String) :
    ("/".intercalate parts).utf8ByteSize =
      (parts.map String.utf8ByteSize).sum + (parts.length - 1) := by
  induction parts with
  | nil => rfl
  | cons part rest ih =>
    cases rest with
    | nil => simp
    | cons next rest =>
      have hslash : "/".utf8ByteSize = 1 := rfl
      rw [String.intercalate_cons_cons, String.utf8ByteSize_append, String.utf8ByteSize_append, ih,
        hslash]
      simp only [List.map_cons, List.sum_cons, List.length_cons]
      omega

/-- Fewer parts make no longer text. -/
theorem utf8ByteSize_intercalate_le {parts all : List String} (h : parts.Sublist all) :
    ("/".intercalate parts).utf8ByteSize ≤ ("/".intercalate all).utf8ByteSize := by
  rw [utf8ByteSize_intercalate, utf8ByteSize_intercalate]
  have hsum : (parts.map String.utf8ByteSize).sum ≤ (all.map String.utf8ByteSize).sum :=
    (h.map _).sum_le_sum fun _ _ => Nat.zero_le _
  have hlength := h.length_le
  omega

/-- A character of joined parts other than the slash is in one of the parts. -/
theorem mem_intercalate_iff {c : Char} (hc : c ≠ '/') {parts : List String} :
    c ∈ ("/".intercalate parts).toList ↔ ∃ part ∈ parts, c ∈ part.toList := by
  induction parts with
  | nil => simp
  | cons part rest ih =>
    cases rest with
    | nil => simp
    | cons next rest =>
      rw [String.intercalate_cons_cons, String.toList_append, String.toList_append, List.mem_append,
        List.mem_append, ih]
      simp [hc]

end Text

/-! ## Components as a path -/

namespace Path

/-- The parts that count are among the parts of a path. -/
theorem map_piece_sublist (parts : List String) :
    ((parts.filterMap componentOf?).map Component.piece).Sublist parts := by
  induction parts with
  | nil => exact List.Sublist.slnil
  | cons part rest ih =>
    cases hpart : componentOf? part with
    | none =>
      rw [List.filterMap_cons_none hpart]
      exact ih.cons part
    | some c =>
      rw [List.filterMap_cons_some hpart, List.map_cons, piece_of_componentOf? hpart]
      exact ih.cons_cons part

/-- An absolute path is written with nothing before its first slash. -/
theorem pieces_of_isAbsolute {p : Path} (h : p.isAbsolute = true) :
    ∃ rest, p.pieces = "" :: rest ∧ rest ≠ [] := by
  obtain ⟨cs, hcs⟩ := Text.startsWith_iff.1 h
  have htext : p.text = "" ++ "/" ++ String.ofList cs := by
    rw [← String.toList_inj, String.toList_append, String.toList_ofList, ← hcs]
    rfl
  refine ⟨Text.splitOn '/' (String.ofList cs), ?_, Text.splitOn_ne_nil _⟩
  rw [pieces, htext, Text.splitOn_append]
  rfl

/-- The components of a path are written among its parts. -/
theorem map_piece_components (p : Path) : (p.components.map Component.piece).Sublist p.pieces := by
  have hinner := map_piece_sublist p.pieces
  -- the first part is the mark of the start, and it is no component otherwise
  have hfirst (part : String) (hnone : componentOf? part = none) (h : p.pieces.head? = some part) :
      (part :: (p.pieces.filterMap componentOf?).map Component.piece).Sublist p.pieces := by
    obtain ⟨rest, hrest⟩ := List.head?_eq_some_iff.1 h
    rw [hrest, List.filterMap_cons_none hnone]
    exact (map_piece_sublist rest).cons_cons part
  rw [components]
  split
  next habsolute =>
    obtain ⟨rest, hrest, -⟩ := pieces_of_isAbsolute habsolute
    exact hfirst "" rfl (by rw [hrest, List.head?_cons])
  next =>
    split
    next hdot => exact hfirst "." rfl hdot
    next => exact hinner

/-- What components are written as. -/
theorem text_ofComponents (cs : List Component) :
    (ofComponents cs).text = "/".intercalate (cs.map Component.piece) ∨ cs = [.root] := by
  cases cs with
  | nil => exact .inl rfl
  | cons c rest =>
    cases c with
    | root =>
      cases rest with
      | nil => exact .inr rfl
      | cons next rest =>
        refine .inl ?_
        rw [ofComponents, List.map_cons, List.map_cons, List.map_cons,
          String.intercalate_cons_cons, String.append_assoc]
        exact (String.empty_append).symm
    | _ => exact .inl rfl

/-- Some components of a path that can be looked up can be looked up, too, if only something is
written. -/
theorem isPlainText_ofComponents {p : Path} (hp : FileTree.IsPlainText p.text) {cs : List Component}
    (hcs : cs.Sublist p.components) (hne : (ofComponents cs).text ≠ "") :
    FileTree.IsPlainText (ofComponents cs).text := by
  obtain ⟨-, hzero, hsize⟩ := hp
  have hparts := (hcs.map Component.piece).trans p.map_piece_components
  have htext : "/".intercalate p.pieces = p.text := Text.intercalate_splitOn p.text
  rcases text_ofComponents cs with h | rfl
  · refine ⟨hne, ?_, ?_⟩
    · rw [h, Text.mem_intercalate_iff (by decide)]
      rintro ⟨part, hpart, hc⟩
      refine hzero ?_
      rw [← htext, Text.mem_intercalate_iff (by decide)]
      exact ⟨part, hparts.subset hpart, hc⟩
    · have hle := Text.utf8ByteSize_intercalate_le hparts
      rw [htext] at hle
      rw [h]
      omega
  · exact ⟨by decide, by decide, by decide⟩

end Path

/-! ## Parts that do not count -/

namespace FileTree

open WorktreeTracker.Path

variable {t : FileTree}

/-- A part that does not count leads nowhere. -/
theorem turn_of_blank {here : Location} {part : String} (hpart : componentOf? part = none)
    {next : Turn} (h : t.turn here part = .ok next) : next = .reach here := by
  rw [turn, directory_of_turn h] at h
  dsimp only at h
  rw [if_pos (componentOf?_eq_none hpart)] at h
  exact (Except.ok.inj h).symm

/-- The parts that count. -/
def counting (parts : List String) : List String :=
  (parts.filterMap componentOf?).map Component.piece

theorem counting_cons_of_none {part : String} (h : componentOf? part = none) (rest : List String) :
    counting (part :: rest) = counting rest := by
  rw [counting, List.filterMap_cons_none h, counting]

theorem counting_cons_of_some {part : String} {c : Component} (h : componentOf? part = some c)
    (rest : List String) : counting (part :: rest) = part :: counting rest := by
  rw [counting, List.filterMap_cons_some h, List.map_cons, piece_of_componentOf? h, counting]

/-- Where the parts of links may be followed without those that do not count, so may these parts. -/
theorem followLinks_counting_of_expansion {links : Nat}
    (hexpansion : ∀ start front rest found, t.expansion links start (front ++ rest) = .ok found →
      t.expansion links start (front ++ counting rest) = .ok found)
    {here : Location} (front : List String) {rest : List String} {found : Found}
    (h : t.followLinks true links here (front ++ rest) = .ok found) :
    t.followLinks true links here (front ++ counting rest) = .ok found := by
  induction front generalizing here with
  | nil =>
    rw [List.nil_append] at h ⊢
    induction rest generalizing here with
    | nil => exact h
    | cons part rest ih =>
      obtain ⟨next, hturn, hrest⟩ := followLinks_cons_eq_ok.1 h
      cases hpart : componentOf? part with
      | none =>
        obtain rfl := turn_of_blank hpart hturn
        rw [counting_cons_of_none hpart]
        exact ih hrest
      | some c =>
        rw [counting_cons_of_some hpart]
        refine followLinks_cons_eq_ok.2 ⟨next, hturn, ?_⟩
        cases next with
        | reach place => exact ih hrest
        | link start target => exact hexpansion start target rest found hrest
  | cons part front ih =>
    rw [List.cons_append] at h ⊢
    obtain ⟨next, hturn, hlater⟩ := followLinks_cons_eq_ok.1 h
    refine followLinks_cons_eq_ok.2 ⟨next, hturn, ?_⟩
    cases next with
    | reach place => exact ih hlater
    | link start target =>
      rw [onward, ← List.append_assoc] at hlater ⊢
      exact hexpansion start (target ++ front) rest found hlater

/-- What is reached is reached without the parts that do not count, too. -/
theorem followLinks_counting {links : Nat} {here : Location} {parts : List String} {found : Found}
    (h : t.followLinks true links here parts = .ok found) :
    t.followLinks true links here (counting parts) = .ok found := by
  have hexpansion : ∀ start front rest found,
      t.expansion links start (front ++ rest) = .ok found →
        t.expansion links start (front ++ counting rest) = .ok found := by
    clear h
    induction links with
    | zero =>
      intro start front rest found h
      cases h
    | succ links ih => exact fun start front rest found h => followLinks_counting_of_expansion ih front h
  exact followLinks_counting_of_expansion hexpansion [] h

/-! ## Following components -/

/-- From a directory, an empty part leads nowhere. -/
theorem followLinks_empty (links : Nat) {here : Location} (hhere : t.entryAt? here = some .directory)
    (rest : List String) :
    t.followLinks true links here ("" :: rest) = t.followLinks true links here rest := by
  have hturn : t.turn here "" = .ok (.reach here) := by
    rw [turn, hhere]
    exact if_pos (.inl rfl)
  rw [followLinks_cons, hturn]

/-- Components after the root directory are followed from there. -/
theorem resolve_absolute {cs : List Component} (hcs : ∀ c ∈ cs, IsInner c)
    (hplain : IsPlainText (ofComponents (.root :: cs)).text) :
    t.resolve (ofComponents (.root :: cs)) true =
      t.followLinks true linkLimit [] (cs.map Component.piece) := by
  have hparts : ∀ part ∈ cs.map Component.piece, IsPart part := by
    intro part hpart
    obtain ⟨c, hc, rfl⟩ := List.mem_map.1 hpart
    exact (hcs c hc).isPart
  have hroot : t.entryAt? [] = some .directory := rfl
  have hpieces : (ofComponents (.root :: cs)).pieces =
      "" :: Text.splitOn '/' ("/".intercalate (cs.map Component.piece)) := by
    have hempty : ("" ++ "/" ++ "/".intercalate (cs.map Component.piece) : String) =
        (ofComponents (.root :: cs)).text := by
      rw [String.empty_append, ofComponents]
    rw [pieces, ← hempty, Text.splitOn_append]
    rfl
  have habsolute : (ofComponents (.root :: cs)).isAbsolute = true := by
    rw [isAbsolute, ofComponents, startsWith_append (by decide)]
    rfl
  rw [resolve_of_text hplain, start, habsolute, if_pos rfl, hpieces, followLinks_empty _ hroot,
    pieces_intercalate hparts]
  split
  next hnil => rw [hnil, followLinks_empty _ hroot]
  next => rfl

/-- Components without a mark of a start are followed from the working directory. -/
theorem resolve_relative {cs : List Component} (hcs : ∀ c ∈ cs, IsInner c)
    (hplain : IsPlainText (ofComponents cs).text) :
    t.resolve (ofComponents cs) true =
      t.followLinks true linkLimit t.workingDirectory (cs.map Component.piece) := by
  have hparts : ∀ part ∈ cs.map Component.piece, IsPart part := by
    intro part hpart
    obtain ⟨c, hc, rfl⟩ := List.mem_map.1 hpart
    exact (hcs c hc).isPart
  have htext := ofComponents_of_inner hcs
  have hrelative : (ofComponents cs).isAbsolute = false := by
    rw [isAbsolute, htext]
    exact startsWith_intercalate hparts
  have hne : cs.map Component.piece ≠ [] := by
    intro hnil
    rw [htext, hnil] at hplain
    exact hplain.1 rfl
  rw [resolve_of_text hplain, start, hrelative, if_neg Bool.false_ne_true, pieces, htext,
    pieces_intercalate hparts, if_neg hne]

/-- A path that leads somewhere leads there by its inner components. -/
theorem followLinks_of_resolve {p : Path} {found : Found} (h : t.resolve p true = .ok found) :
    t.followLinks true linkLimit (t.start p) (p.inner.map Component.piece) = .ok found := by
  rw [resolve_of_text (isPlainText_of_resolve h)] at h
  exact followLinks_counting h

end FileTree

end WorktreeTracker
