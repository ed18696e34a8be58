import WorktreeTracker.Proofs.Name

/-!
# The format of reference names

The rules of `git check-ref-format` as a grammar over the components of a name. The rules that are
looked for, one after the other, are those of the grammar but one: nothing looks for a dot at the end
of a name. So every name of the format is accepted, and a name that is accepted beyond it ends in a
dot.
-/

namespace WorktreeTracker

/-- The rules of reference names on the characters and components of a name. -/
structure RefRules (name : String) : Prop where
  /-- The name is not empty. -/
  nonempty : name ≠ ""
  /-- No component is empty, starts with a dot or ends in `.lock`. -/
  components : ∀ component ∈ Text.splitOn '/' name,
    component ≠ "" ∧ ¬ ".".toList <+: component.toList ∧ ¬ ".lock".toList <:+ component.toList
  /-- There are no two dots in a row. -/
  dots : ¬ "..".toList <:+: name.toList
  /-- There is no brace after an at sign. -/
  brace : ¬ "@\x7b".toList <:+: name.toList
  /-- There is no control character of ASCII. -/
  control : ∀ c ∈ name.toList, 0x20 ≤ c.toNat ∧ c.toNat ≠ 0x7F
  /-- There is no blank and no character with a meaning in revisions or patterns. -/
  special : ∀ c ∈ name.toList, c ∉ [' ', '~', '^', ':', '?', '*', '[', '\\']

/-- The format of reference names: the rules, and no dot at the end. -/
structure RefFormat (name : String) : Prop extends RefRules name where
  /-- The name does not end in a dot. -/
  ending : ¬ ".".toList <:+ name.toList

namespace NameProblem

/-- A character is no control character of ASCII exactly when it stands after them. -/
theorem isControl_eq_false_iff {c : Char} :
    Text.isControl c = false ↔ 0x20 ≤ c.toNat ∧ c.toNat ≠ 0x7F := by
  simp [Text.isControl]

/-- A name that keeps the rules that are looked for keeps those of the grammar. -/
theorem Keeps.refRules {name : String} (h : Keeps name) : RefRules name where
  nonempty := by simpa using h.nonempty
  components component hmem :=
    ⟨(h.ne_of_mem hmem).1, (h.components component hmem).1, (h.components component hmem).2⟩
  dots := h.sequences ".." (by decide)
  brace := h.sequences "@\x7b" (by decide)
  control c hc := isControl_eq_false_iff.1 (h.control c hc)
  special c hc := by
    have hrefused := h.characters c hc
    simp only [refusedCharacters, List.mem_cons, List.not_mem_nil, or_false] at hrefused ⊢
    tauto

end NameProblem

namespace RefRules

variable {name : String}

/-- The components of a name are those before a slash and those after it. -/
theorem splitOn_of_slash {front back : List Char} (hname : name.toList = front ++ '/' :: back) :
    Text.splitOn '/' name =
      Text.splitOn '/' (String.ofList front) ++ Text.splitOn '/' (String.ofList back) := by
  have htext : name = String.ofList front ++ "/" ++ String.ofList back := by
    rw [← String.toList_inj, hname]
    simp
  rw [htext, Text.splitOn_append]

/-- What has no characters is an empty component. -/
theorem empty_mem_splitOn_nil : "" ∈ Text.splitOn '/' (String.ofList []) := by decide

theorem empty_not_mem (h : RefRules name) : "" ∉ Text.splitOn '/' name :=
  fun hmem => (h.components "" hmem).1 rfl

/-- A name does not end in `.lock`, because its last component would. -/
theorem not_locked (h : RefRules name) : ¬ ".lock".toList <:+ name.toList := by
  intro hlock
  obtain ⟨last, hlast, hname⟩ := Text.exists_last_part name
  obtain ⟨-, -, hfree⟩ := h.components last hlast
  rcases hname with rfl | ⟨front, rfl⟩
  · exact hfree hlock
  · have hlist : (front ++ "/" ++ last).toList = front.toList ++ '/' :: last.toList := by
      simp
    rw [hlist] at hlock
    have hsuffix : '/' :: last.toList <:+ front.toList ++ '/' :: last.toList :=
      List.suffix_append _ _
    rcases List.suffix_or_suffix_of_suffix hlock hsuffix with hshort | hlong
    · rcases List.suffix_cons_iff.1 hshort with heq | hafter
      · cases heq
      · exact hfree hafter
    · -- an ending that is longer than the component would have the slash in it
      exact absurd (hlong.subset List.mem_cons_self) (by decide)

/-- A name that keeps the rules of the grammar keeps those that are looked for. -/
theorem keeps (h : RefRules name) : NameProblem.Keeps name := by
  constructor
  case nonempty => simpa using h.nonempty
  case start =>
    rintro ⟨rest, hrest⟩
    have hname : name.toList = [] ++ '/' :: rest := hrest.symm
    apply h.empty_not_mem
    rw [splitOn_of_slash hname]
    exact List.mem_append_left _ empty_mem_splitOn_nil
  case ending =>
    rintro ⟨front, hfront⟩
    apply h.empty_not_mem
    rw [splitOn_of_slash hfront.symm]
    exact List.mem_append_right _ empty_mem_splitOn_nil
  case lock => exact h.not_locked
  case sequences =>
    intro part hpart
    simp only [NameProblem.refusedSequences, List.mem_cons, List.not_mem_nil, or_false] at hpart
    rcases hpart with rfl | rfl | rfl
    · exact h.dots
    · exact h.brace
    · rintro ⟨front, back, hname⟩
      apply h.empty_not_mem
      -- between the two slashes there is an empty component
      have hafter : (String.ofList ('/' :: back)).toList = [] ++ '/' :: back := by simp
      have hfirst : name.toList = front ++ '/' :: ('/' :: back) := by
        rw [← hname]
        simp
      rw [splitOn_of_slash hfirst, splitOn_of_slash hafter]
      exact List.mem_append_right _ (List.mem_append_left _ empty_mem_splitOn_nil)
  case characters =>
    intro c hc hrefused
    refine h.special c hc ?_
    simp only [NameProblem.refusedCharacters, List.mem_cons, List.not_mem_nil, or_false] at hrefused ⊢
    tauto
  case control => exact fun c hc => NameProblem.isControl_eq_false_iff.2 (h.control c hc)
  case components => exact fun component hmem => (h.components component hmem).2

/-- The rules that are looked for are those of the grammar. -/
theorem iff_keeps : RefRules name ↔ NameProblem.Keeps name :=
  ⟨keeps, NameProblem.Keeps.refRules⟩

end RefRules

/-- The name of a branch that exists and a ref name are accepted exactly when they keep the rules of
the grammar, and the name of a branch to be made when besides it is not `@` and does not start with a
dash. What is accepted is kept as it is written. So every name of the format is accepted as that of a
branch that exists, and the names that are accepted beyond the format are those that end in a dot. -/
theorem accepted_iff (s : String) :
    ((∃ b, BranchName.create s = .ok b) ↔
        RefRules s ∧ s ≠ "@" ∧ ¬ "-".toList <+: s.toList) ∧
      ((∃ b, BranchName.ofRef s = .ok b) ↔ RefRules s) ∧
      ((∃ n, RefName.create s = .ok n) ↔ RefRules s) ∧
      (∀ b, BranchName.create s = .ok b ∨ BranchName.ofRef s = .ok b → b.text = s) ∧
      (∀ n, RefName.create s = .ok n → n.text = s) ∧
      ((∃ b, BranchName.ofRef s = .ok b) ∧ ¬ RefFormat s ↔
        RefRules s ∧ ".".toList <:+ s.toList) := by
  have hbranch : (∃ b : BranchName, b.text = s) ↔ RefRules s := by
    constructor
    · rintro ⟨b, rfl⟩
      exact b.keeps.refRules
    · exact fun h => ⟨⟨s, NameProblem.find?_eq_none_iff.2 h.keeps⟩, rfl⟩
  have hofRef : (∃ b, BranchName.ofRef s = .ok b) ↔ RefRules s := by
    simp only [BranchName.ofRef_eq_ok_iff, hbranch]
  refine ⟨?_, hofRef, ?_, ?_, ?_, ?_⟩
  · simp only [BranchName.create_eq_ok_iff, exists_and_right, hbranch]
    rfl
  · simp only [RefName.create_eq_ok_iff, exists_and_right, RefRules.iff_keeps]
    exact and_iff_right ⟨⟨s⟩, rfl⟩
  · rintro b (hnew | hold)
    · exact (BranchName.create_eq_ok_iff.1 hnew).1
    · exact BranchName.text_of_ofRef hold
  · exact fun n hn => (RefName.create_eq_ok_iff.1 hn).1
  · rw [hofRef]
    constructor
    · rintro ⟨hrules, hformat⟩
      exact ⟨hrules, not_not.1 fun hending => hformat ⟨hrules, hending⟩⟩
    · rintro ⟨hrules, hdot⟩
      exact ⟨hrules, fun hformat => hformat.ending hdot⟩

/-- A name that ends in a dot is accepted in all three ways, and is not of the format. -/
theorem dotted_accepted :
    ¬ RefFormat "a." ∧ BranchName.create "a." = .ok ⟨"a.", by decide⟩ ∧
      BranchName.ofRef "a." = .ok ⟨"a.", by decide⟩ ∧
      RefName.create "a." = .ok ⟨"a."⟩ :=
  ⟨fun hformat => hformat.ending (by decide), by decide, by decide, by decide⟩

end WorktreeTracker
