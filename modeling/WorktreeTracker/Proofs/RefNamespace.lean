import WorktreeTracker.Proofs.RefFormat

/-!
# The namespaces of references

A slash between two names neither breaks a rule nor hides one that is broken: the whole keeps the
rules exactly when both sides do. So a reference of a branch is accepted exactly when the name of the
branch is, and one of a remote-tracking branch exactly when the names of the remote and of the branch
are. What follows the lead of either namespace is what was put after it, and no reference is in both.
-/

namespace WorktreeTracker

namespace RefRules

variable {name part lead rest : String}

/-- A part of a name keeps the rules when its components are components of the name. -/
theorem of_infix (h : RefRules name) (hpart : part.toList <:+: name.toList)
    (hcomponents : ∀ component ∈ Text.splitOn '/' part, component ∈ Text.splitOn '/' name) :
    RefRules part where
  nonempty := by
    rintro rfl
    exact h.empty_not_mem (hcomponents "" empty_mem_splitOn_nil)
  components component hmem := h.components component (hcomponents component hmem)
  dots hdots := h.dots (hdots.trans hpart)
  brace hbrace := h.brace (hbrace.trans hpart)
  control c hc := h.control c (hpart.subset hc)
  special c hc := h.special c (hpart.subset hc)

/-- Names with a slash between them keep the rules exactly when each of them does. -/
theorem join_iff : RefRules (lead ++ "/" ++ rest) ↔ RefRules lead ∧ RefRules rest := by
  constructor
  · intro h
    have hlist : (lead ++ "/" ++ rest).toList = lead.toList ++ '/' :: rest.toList := by
      simp
    have hsplit := Text.splitOn_append lead rest
    constructor
    · refine h.of_infix ?_ ?_
      · rw [hlist]
        exact (List.prefix_append _ _).isInfix
      · exact fun component hmem => hsplit ▸ List.mem_append_left _ hmem
    · refine h.of_infix ?_ ?_
      · rw [hlist]
        exact ((List.suffix_cons _ _).trans (List.suffix_append _ _)).isInfix
      · exact fun component hmem => hsplit ▸ List.mem_append_right _ hmem
  · rintro ⟨hlead, hrest⟩
    exact (hlead.keeps.join hrest.keeps).refRules

/-- The lead of local branches does not count. -/
theorem heads_iff {s : String} : RefRules (RefName.heads ++ s) ↔ RefRules s := by
  have hlead : RefRules "refs/heads" := (NameProblem.find?_eq_none_iff.1 (by decide)).refRules
  rw [show RefName.heads = "refs/heads" ++ "/" from rfl, join_iff, and_iff_right hlead]

/-- The lead of remote-tracking branches does not count. -/
theorem remotes_iff {r s : String} :
    RefRules (RefName.remotes ++ r ++ "/" ++ s) ↔ RefRules r ∧ RefRules s := by
  have hlead : RefRules "refs/remotes" := (NameProblem.find?_eq_none_iff.1 (by decide)).refRules
  rw [join_iff, show RefName.remotes = "refs/remotes" ++ "/" from rfl, join_iff,
    and_iff_right hlead]

end RefRules

namespace BranchName

/-- The names of branches that exist are those that keep the rules. -/
theorem exists_ofRef_iff {s : String} : (∃ b, ofRef s = .ok b) ↔ RefRules s := by
  simp only [ofRef_eq_ok_iff, RefRules.iff_keeps]
  constructor
  · rintro ⟨b, rfl⟩
    exact b.keeps
  · exact fun h => ⟨⟨s, NameProblem.find?_eq_none_iff.2 h⟩, rfl⟩

end BranchName

namespace RefName

/-- The ref names are those that keep the rules. -/
theorem exists_create_iff {s : String} : (∃ n, create s = .ok n) ↔ RefRules s := by
  simp only [create_eq_ok_iff, RefRules.iff_keeps, exists_and_right]
  exact and_iff_right ⟨⟨s⟩, rfl⟩

/-- The ref name of a text is that text. -/
theorem create_eq_ok {n : RefName} (h : RefRules n.text) : create n.text = .ok n :=
  create_eq_ok_iff.2 ⟨rfl, h.keeps⟩

theorem isBranch_ofBranch (b : BranchName) : isBranch (ofBranch b) = true :=
  Text.startsWith_iff.2 ⟨b.text.toList, String.toList_append.symm⟩

theorem isRemoteBranch_ofBranch (b : BranchName) : isRemoteBranch (ofBranch b) = false := by
  rw [← Bool.not_eq_true, isRemoteBranch, Text.startsWith_iff, ofBranch, String.toList_append]
  simp [heads, remotes]

theorem isRemoteBranch_ofRemoteBranch (remote : String) (b : BranchName) :
    isRemoteBranch (ofRemoteBranch remote b) = true := by
  rw [isRemoteBranch, Text.startsWith_iff, ofRemoteBranch, String.append_assoc, String.append_assoc,
    String.toList_append]
  exact List.prefix_append _ _

theorem isBranch_ofRemoteBranch (remote : String) (b : BranchName) :
    isBranch (ofRemoteBranch remote b) = false := by
  rw [← Bool.not_eq_true, isBranch, Text.startsWith_iff, ofRemoteBranch, String.append_assoc,
    String.append_assoc, String.toList_append]
  simp [heads, remotes]

/-- Both namespaces are closed. The text after the lead of local branches is accepted as the name of a
branch exactly when the whole is accepted as a ref name, and then the whole is the reference of that
branch and the text is what follows the lead. The same holds of the names of a remote and a branch with
a slash between them after the lead of remote-tracking branches. No reference is in both namespaces. -/
theorem namespaces_closed (r s : String) :
    ((∃ n, create (heads ++ s) = .ok n) ↔ ∃ b, BranchName.ofRef s = .ok b) ∧
      (∀ b, BranchName.ofRef s = .ok b →
        create (heads ++ s) = .ok (ofBranch b) ∧ (ofBranch b).after? heads = some s) ∧
      ((∃ n, create (remotes ++ r ++ "/" ++ s) = .ok n) ↔
        (∃ a, BranchName.ofRef r = .ok a) ∧ ∃ b, BranchName.ofRef s = .ok b) ∧
      (∀ a b, BranchName.ofRef r = .ok a → BranchName.ofRef s = .ok b →
        create (ofRemoteBranch r b).text = .ok (ofRemoteBranch r b)) ∧
      (∀ n, create (remotes ++ r ++ "/" ++ s) = .ok n →
        (∃ b, BranchName.ofRef s = .ok b ∧ ofRemoteBranch r b = n) ∧
          n.after? remotes = some (r ++ "/" ++ s)) ∧
      ∀ (remote : String) (b : BranchName),
        isBranch (ofBranch b) = true ∧ isRemoteBranch (ofBranch b) = false ∧
          isRemoteBranch (ofRemoteBranch remote b) = true ∧
          isBranch (ofRemoteBranch remote b) = false := by
  refine ⟨?_, ?_, ?_, ?_, ?_, ?_⟩
  · rw [exists_create_iff, BranchName.exists_ofRef_iff, RefRules.heads_iff]
  · intro b hb
    obtain rfl := BranchName.text_of_ofRef hb
    exact ⟨create_eq_ok (RefRules.heads_iff.2 b.keeps.refRules), Text.after?_append _ _⟩
  · rw [exists_create_iff, BranchName.exists_ofRef_iff, BranchName.exists_ofRef_iff,
      RefRules.remotes_iff]
  · intro a b ha hb
    obtain rfl := BranchName.text_of_ofRef ha
    exact create_eq_ok (RefRules.remotes_iff.2 ⟨a.keeps.refRules, b.keeps.refRules⟩)
  · intro n hn
    obtain ⟨htext, hkeeps⟩ := create_eq_ok_iff.1 hn
    obtain ⟨-, hs⟩ := RefRules.remotes_iff.1 hkeeps.refRules
    obtain ⟨b, hb⟩ := BranchName.exists_ofRef_iff.2 hs
    constructor
    · refine ⟨b, hb, ?_⟩
      cases n
      rw [ofRemoteBranch, BranchName.text_of_ofRef hb, ← htext]
    · rw [after?, htext, String.append_assoc, String.append_assoc, Text.after?_append,
        String.append_assoc]
  · exact fun remote b => ⟨isBranch_ofBranch b, isRemoteBranch_ofBranch b,
      isRemoteBranch_ofRemoteBranch remote b, isBranch_ofRemoteBranch remote b⟩

end RefName

end WorktreeTracker
