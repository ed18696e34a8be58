import WorktreeTracker.Proofs.ObjectId
import WorktreeTracker.Proofs.Results
import WorktreeTracker.RefFile

/-!
# What reference files say

What makes a text an object id, a reference file symbolic or direct, and a line of the packed file a
reference. The readers accept exactly these texts, and a text that they refuse is reported at the
path of its file.
-/

namespace WorktreeTracker

/-! ## Loose reference files -/

namespace RefFile

/-- The line of a reference file that counts. -/
def line (text : String) : String := Text.trim (Text.firstLine text)

/-- A reference file has an id on its line. -/
def SaysId (text : String) (oid : Oid) : Prop :=
  Oid.IsWritten (line text) ∧ oid.text = Text.lower (line text)

/-- A reference file names another reference on its line. -/
def SaysRef (text target : String) : Prop :=
  ∃ rest, line text = symbolicLead ++ rest ∧ Text.trim rest = target

/-- A reference file has neither an id nor the name of a reference on its line. -/
def Malformed (text : String) : Prop :=
  ¬ Oid.IsWritten (line text) ∧ ∀ rest, line text ≠ symbolicLead ++ rest

/-- The line of a symbolic reference is no id. -/
theorem not_isWritten_symbolic (rest : String) : ¬ Oid.IsWritten (symbolicLead ++ rest) := by
  intro h
  have hdigit := h.2 'r' (by simp [symbolicLead])
  exact absurd hdigit (by decide)

/-- A reference file that names a reference is read so. -/
theorem parse_of_saysRef {text target : String} (h : SaysRef text target) (path : Path) :
    parse path text = .ok (.symbolic target) := by
  obtain ⟨rest, hline, rfl⟩ := h
  unfold parse
  dsimp only
  rw [← line, Text.after?_eq_some_iff.2 hline]

/-- A line that is not symbolic has nothing after the start of a symbolic one. -/
theorem after?_eq_none {s : String} (h : ∀ rest, s ≠ symbolicLead ++ rest) :
    Text.after? symbolicLead s = none := by
  rw [Option.eq_none_iff_forall_ne_some]
  exact fun rest hrest => h rest (Text.after?_eq_some_iff.1 hrest)

/-- A reference file with an id is read as that id. -/
theorem parse_of_saysId {text : String} {oid : Oid} (h : SaysId text oid) (path : Path) :
    parse path text = .ok (.direct oid) := by
  obtain ⟨hwritten, hoid⟩ := h
  have hnone := after?_eq_none fun rest hline => not_isWritten_symbolic rest (hline ▸ hwritten)
  unfold parse
  dsimp only
  rw [← line, hnone]
  dsimp only
  rcases Oid.create_cases (line text) with ⟨-, other, hother, htext⟩ | ⟨hnot, -⟩
  · rw [hother, Oid.text_inj (htext.trans hoid.symm)]
  · exact absurd hwritten hnot

/-- A malformed reference file is reported at its path. -/
theorem parse_of_malformed {text : String} (h : Malformed text) (path : Path) :
    ∃ problem, parse path text = .error (.corrupt path problem) := by
  unfold parse
  dsimp only
  rw [← line, after?_eq_none h.2]
  dsimp only
  rcases Oid.create_cases (line text) with ⟨hwritten, -⟩ | ⟨-, e, he⟩
  · exact absurd hwritten h.1
  · rw [he]
    exact ⟨e.message, rfl⟩

/-- The report on a reference file says why its line is no id. -/
theorem parse_eq_error {path : Path} {text : String} {err : ReadError}
    (h : parse path text = .error err) :
    ∃ e : InvalidIdentifier, err = .corrupt path e.message := by
  unfold parse at h
  dsimp only at h
  split at h
  next => cases h
  next =>
    split at h
    next => cases h
    next e _ => exact ⟨e, (Except.error.inj h).symm⟩

/-- A reference file names a reference, has an id or is malformed. -/
theorem says_cases (text : String) :
    (∃ target, SaysRef text target) ∨ (∃ oid, SaysId text oid) ∨ Malformed text := by
  by_cases hsymbolic : ∃ rest, line text = symbolicLead ++ rest
  · obtain ⟨rest, hrest⟩ := hsymbolic
    exact .inl ⟨_, rest, hrest, rfl⟩
  · rcases Oid.create_cases (line text) with ⟨hwritten, oid, -, hoid⟩ | ⟨hnot, -⟩
    · exact .inr (.inl ⟨oid, hwritten, hoid⟩)
    · exact .inr (.inr ⟨hnot, fun rest hrest => hsymbolic ⟨rest, hrest⟩⟩)

/-- A reference file is read as an id when it has that id. -/
theorem parse_eq_direct_iff {path : Path} {text : String} {oid : Oid} :
    parse path text = .ok (.direct oid) ↔ SaysId text oid := by
  refine ⟨fun h => ?_, fun h => parse_of_saysId h path⟩
  rcases says_cases text with ⟨target, hvalue⟩ | ⟨other, hvalue⟩ | hvalue
  · cases h.symm.trans (parse_of_saysRef hvalue path)
  · obtain rfl := RefValue.direct.inj (Except.ok.inj (h.symm.trans (parse_of_saysId hvalue path)))
    exact hvalue
  · obtain ⟨problem, hproblem⟩ := parse_of_malformed hvalue path
    cases h.symm.trans hproblem

/-- A reference file is read as symbolic when it names the reference. -/
theorem saysRef_of_parse {path : Path} {text target : String}
    (h : parse path text = .ok (.symbolic target)) : SaysRef text target := by
  rcases says_cases text with ⟨other, hvalue⟩ | ⟨oid, hvalue⟩ | hvalue
  · obtain rfl := RefValue.symbolic.inj (Except.ok.inj (h.symm.trans (parse_of_saysRef hvalue path)))
    exact hvalue
  · cases h.symm.trans (parse_of_saysId hvalue path)
  · obtain ⟨problem, hproblem⟩ := parse_of_malformed hvalue path
    cases h.symm.trans hproblem

end RefFile

/-! ## Packed references -/

/-- The parts before and after the first `c` of a list. -/
theorem Text.cutChars?_eq_some_iff {c : Char} {cs left right : List Char} :
    cutChars? c cs = some (left, right) ↔ cs = left ++ c :: right ∧ c ∉ left := by
  induction cs generalizing left with
  | nil => simp [cutChars?]
  | cons d cs ih =>
    rw [cutChars?]
    split
    next h =>
      subst h
      cases left with
      | nil => simp [eq_comm]
      | cons e left => simp +contextual [eq_comm]
    next h =>
      cases left with
      | nil => simp [h]
      | cons e left =>
        simp only [Option.map_eq_some_iff, Prod.mk.injEq, Prod.exists, List.cons.injEq,
          List.cons_append, List.mem_cons, not_or]
        constructor
        · rintro ⟨front, back, hcut, ⟨rfl, rfl⟩, rfl⟩
          obtain ⟨rfl, hfront⟩ := ih.1 hcut
          exact ⟨⟨rfl, rfl⟩, Ne.symm h, hfront⟩
        · rintro ⟨⟨rfl, rfl⟩, -, hfront⟩
          exact ⟨left, right, ih.2 ⟨rfl, hfront⟩, ⟨rfl, rfl⟩, rfl⟩

/-- A text is cut at its first blank. -/
theorem Text.cut?_space {s left right : String} :
    cut? ' ' s = some (left, right) ↔ s = left ++ " " ++ right ∧ ' ' ∉ left.toList := by
  have hlist : s = left ++ " " ++ right ↔ s.toList = left.toList ++ ' ' :: right.toList := by
    rw [← String.toList_inj]
    simp
  rw [hlist, ← cutChars?_eq_some_iff, cut?, Option.map_eq_some_iff]
  constructor
  · rintro ⟨⟨front, back⟩, hcut, heq⟩
    obtain ⟨rfl, rfl⟩ := Prod.mk.inj heq
    rwa [String.toList_ofList, String.toList_ofList]
  · intro hcut
    exact ⟨_, hcut, by simp⟩

namespace PackedRefs

/-- A trimmed line of the packed file gives an id to a name. -/
def Says (line name : String) (oid : Oid) : Prop :=
  ∃ id rest, line = id ++ " " ++ rest ∧ Oid.IsWritten id ∧ oid.text = Text.lower id ∧
    Text.trim rest = name

/-- A line of the packed file is neither passed over nor gives an id to a name. -/
def Malformed (text : String) : Prop :=
  ∃ line ∈ Text.lines text, isSkipped (Text.trim line) = false ∧
    ∀ name oid, ¬ Says (Text.trim line) name oid

/-- A line is read as the reference that it gives an id to. -/
theorem parseLine_eq_ok_iff {line name : String} {oid : Oid} :
    parseLine line = .ok (name, oid) ↔ Says line name oid := by
  unfold parseLine
  constructor
  · intro h
    cases hcut : Text.cut? ' ' line with
    | none =>
      rw [hcut] at h
      cases h
    | some cut =>
      obtain ⟨id, rest⟩ := cut
      rw [hcut] at h
      dsimp only at h
      rcases Oid.create_cases id with ⟨hwritten, other, hother, htext⟩ | ⟨-, e, he⟩
      · rw [hother] at h
        obtain ⟨rfl, rfl⟩ := Prod.mk.inj (Except.ok.inj h)
        exact ⟨id, rest, (Text.cut?_space.1 hcut).1, hwritten, htext, rfl⟩
      · rw [he] at h
        cases h
  · rintro ⟨id, rest, hline, hwritten, htext, rfl⟩
    -- there is no blank in an id, so the line is cut after it
    have hblank : ' ' ∉ id.toList := by
      intro hc
      exact absurd (hwritten.2 ' ' hc) (by decide)
    rw [Text.cut?_space.2 ⟨hline, hblank⟩]
    dsimp only
    rcases Oid.create_cases id with ⟨-, other, hother, hlower⟩ | ⟨hnot, -⟩
    · rw [hother, Oid.text_inj (hlower.trans htext.symm)]
    · exact absurd hwritten hnot

/-- The packed file is read when no line is malformed, and else reported at its path. -/
theorem parse_cases (path : Path) (text : String) :
    (¬ Malformed text ∧ ∃ packed, parse path text = .ok packed) ∨
      Malformed text ∧ ∃ problem, parse path text = .error (.corrupt path problem) := by
  unfold parse Malformed
  generalize Text.lines text = lines
  generalize 1 = number
  induction lines generalizing number with
  | nil => exact .inl ⟨by simp, [], rfl⟩
  | cons line rest ih =>
    simp only [List.mem_cons, exists_eq_or_imp, parseLines]
    cases hskipped : isSkipped (Text.trim line) with
    | true => simpa using ih (number + 1)
    | false =>
      cases hline : parseLine (Text.trim line) with
      | ok entry =>
        have hvalue : ¬ ∀ name oid, ¬ Says (Text.trim line) name oid := by
          intro hnot
          exact hnot entry.1 entry.2 (parseLine_eq_ok_iff.1 hline)
        simp only [hvalue, and_false, false_or, Bool.false_eq_true, if_false]
        rcases ih (number + 1) with ⟨hrest, packed, hpacked⟩ | ⟨hrest, problem, hproblem⟩
        · exact .inl ⟨hrest, entry :: packed, map_eq_ok.2 ⟨packed, hpacked, rfl⟩⟩
        · refine .inr ⟨hrest, problem, ?_⟩
          rw [hproblem]
          rfl
      | error problem =>
        refine .inr ⟨.inl ⟨rfl, ?_⟩, _, rfl⟩
        intro name oid hvalue
        cases hline.symm.trans (parseLine_eq_ok_iff.2 hvalue)

/-- The report on a packed file says which line is malformed, and why. -/
theorem parse_eq_error {path : Path} {text : String} {err : ReadError}
    (h : parse path text = .error err) :
    ∃ (number : Nat) (problem : String), err = .corrupt path s!"line {number}: {problem}" := by
  unfold parse at h
  generalize Text.lines text = lines at h
  generalize 1 = number at h
  induction lines generalizing number with
  | nil => cases h
  | cons line rest ih =>
    rw [parseLines] at h
    split at h
    next => exact ih _ h
    next =>
      split at h
      next problem _ => exact ⟨number, problem, (Except.error.inj h).symm⟩
      next => exact ih _ (map_eq_error.1 h)

/-- The references of a packed file are those that its lines give an id to. -/
theorem mem_iff_of_parse {path : Path} {text : String} {packed : List (String × Oid)}
    (h : parse path text = .ok packed) {name : String} {oid : Oid} :
    (name, oid) ∈ packed ↔
      ∃ line ∈ Text.lines text, isSkipped (Text.trim line) = false ∧
        Says (Text.trim line) name oid := by
  unfold parse at h
  generalize Text.lines text = lines at h
  generalize 1 = number at h
  induction lines generalizing number packed with
  | nil =>
    obtain rfl := Except.ok.inj h
    simp
  | cons line rest ih =>
    simp only [List.mem_cons, exists_eq_or_imp]
    rw [parseLines] at h
    cases hskipped : isSkipped (Text.trim line) with
    | true =>
      rw [hskipped, if_pos rfl] at h
      simpa using ih _ h
    | false =>
      rw [hskipped, if_neg Bool.false_ne_true] at h
      cases hline : parseLine (Text.trim line) with
      | error problem =>
        rw [hline] at h
        cases h
      | ok entry =>
        rw [hline] at h
        obtain ⟨others, hothers, rfl⟩ := map_eq_ok.1 h
        have hfirst : (name, oid) = entry ↔ Says (Text.trim line) name oid := by
          rw [← parseLine_eq_ok_iff, hline, Except.ok.injEq, eq_comm]
        rw [List.mem_cons, ih _ hothers, hfirst]
        simp

end PackedRefs

end WorktreeTracker
