import WorktreeTracker.Name
import WorktreeTracker.Proofs.Results
import WorktreeTracker.Proofs.Text

/-!
# Names that keep the rules

What it means that no problem is found in a name. A name after a slash keeps the rules when the
whole name does, so what is left of a reference name without its first components is a branch name.
-/

namespace WorktreeTracker

namespace NameProblem

/-- The rules of reference names. -/
structure Keeps (name : String) : Prop where
  /-- The name is not empty. -/
  nonempty : name.toList ≠ []
  /-- The name does not start with a slash. -/
  start : ¬ ['/'] <+: name.toList
  /-- The name does not end in a slash. -/
  ending : ¬ ['/'] <:+ name.toList
  /-- The name does not end in `.lock`. -/
  lock : ¬ lockSuffix.toList <:+ name.toList
  /-- The name contains no refused sequence. -/
  sequences : ∀ part ∈ refusedSequences, ¬ part.toList <:+: name.toList
  /-- The name contains no refused character. -/
  characters : ∀ c ∈ name.toList, c ∉ refusedCharacters
  /-- The name contains no control character. -/
  control : ∀ c ∈ name.toList, Text.isControl c = false
  /-- No component starts with a dot or ends in `.lock`. -/
  components : ∀ component ∈ Text.splitOn '/' name,
    ¬ ['.'] <+: component.toList ∧ ¬ lockSuffix.toList <:+ component.toList

theorem ofComponent?_eq_none_iff {component : String} :
    ofComponent? component = none ↔
      ¬ ['.'] <+: component.toList ∧ ¬ lockSuffix.toList <:+ component.toList := by
  have hdot : Text.startsWith "." component = true ↔ ['.'] <+: component.toList :=
    Text.startsWith_iff
  rw [← hdot, ← Text.endsWith_iff, ofComponent?]
  split
  next h => simp [h]
  next h =>
    split
    next hlock => simp [hlock]
    next hlock => simp [h, hlock]

/-- The rules are looked at one after the other. -/
theorem find?_eq_none_iff_checks {name : String} :
    find? name = none ↔
      name.isEmpty = false ∧ (Text.startsWith "/" name || Text.endsWith "/" name) = false ∧
        Text.endsWith lockSuffix name = false ∧
        (refusedSequences.find? fun part => Text.occursIn part.toList name.toList) = none ∧
        (name.toList.find? fun c => refusedCharacters.contains c) = none ∧
        name.toList.any Text.isControl = false ∧
        (Text.splitOn '/' name).findSome? ofComponent? = none := by
  unfold find?
  cases name.isEmpty with
  | true => simp
  | false =>
    cases Text.startsWith "/" name || Text.endsWith "/" name with
    | true => simp
    | false =>
      cases Text.endsWith lockSuffix name with
      | true => simp
      | false =>
        cases refusedSequences.find? fun part => Text.occursIn part.toList name.toList with
        | some part => simp
        | none =>
          cases name.toList.find? fun c => refusedCharacters.contains c with
          | some c => simp
          | none =>
            cases name.toList.any Text.isControl with
            | true => simp
            | false => simp

/-- No problem is found in a name exactly when it keeps the rules. -/
theorem find?_eq_none_iff {name : String} : find? name = none ↔ Keeps name := by
  have hslash : Text.startsWith "/" name = true ↔ ['/'] <+: name.toList := Text.startsWith_iff
  have hending : Text.endsWith "/" name = true ↔ ['/'] <:+ name.toList := Text.endsWith_iff
  rw [find?_eq_none_iff_checks, Bool.or_eq_false_iff, List.find?_eq_none, List.find?_eq_none,
    List.any_eq_false, List.findSome?_eq_none_iff, ← Bool.not_eq_true (Text.startsWith _ _), hslash,
    ← Bool.not_eq_true (Text.endsWith "/" _), hending, ← Bool.not_eq_true (Text.endsWith _ _),
    Text.endsWith_iff]
  simp only [Text.occursIn_iff, List.contains_iff_mem, Bool.not_eq_true, ofComponent?_eq_none_iff]
  constructor
  · rintro ⟨hempty, ⟨hs, he⟩, hlock, hsequences, hcharacters, hcontrol, hcomponents⟩
    refine ⟨?_, hs, he, hlock, hsequences, hcharacters, hcontrol, hcomponents⟩
    simpa using hempty
  · intro h
    refine ⟨?_, ⟨h.start, h.ending⟩, h.lock, h.sequences, h.characters, h.control, h.components⟩
    simpa using h.nonempty

/-- The part of a name after a slash keeps the rules when the name does. -/
theorem Keeps.of_join {lead rest : String} (h : Keeps (lead ++ "/" ++ rest)) : Keeps rest := by
  have hlist : (lead ++ "/" ++ rest).toList = lead.toList ++ '/' :: rest.toList := by
    simp
  have hsuffix : rest.toList <:+ (lead ++ "/" ++ rest).toList := by
    rw [hlist]
    exact (List.suffix_cons _ _).trans (List.suffix_append _ _)
  have hmem {c : Char} (hc : c ∈ rest.toList) : c ∈ (lead ++ "/" ++ rest).toList :=
    hsuffix.subset hc
  constructor
  case nonempty =>
    intro hnil
    refine h.ending ?_
    rw [hlist, hnil]
    exact List.suffix_append _ _
  case start =>
    rintro ⟨more, hmore⟩
    refine h.sequences "//" (by decide) ?_
    rw [hlist, ← hmore]
    exact ⟨lead.toList, more, by simp⟩
  case ending => exact fun hend => h.ending (hend.trans hsuffix)
  case lock => exact fun hlock => h.lock (hlock.trans hsuffix)
  case sequences => exact fun part hpart hin => h.sequences part hpart (hin.trans hsuffix.isInfix)
  case characters => exact fun c hc => h.characters c (hmem hc)
  case control => exact fun c hc => h.control c (hmem hc)
  case components =>
    intro component hcomponent
    refine h.components component ?_
    rw [Text.splitOn, hlist, List.splitOn_append_cons_self, List.map_append]
    exact List.mem_append_right _ hcomponent

/-- No component of a name that keeps the rules is empty. -/
theorem Keeps.empty_not_mem {name : String} (h : Keeps name) : "" ∉ Text.splitOn '/' name := by
  intro hmem
  obtain ⟨front, back, hsplit⟩ := List.append_of_mem hmem
  have hname := Text.intercalate_splitOn name
  rw [hsplit] at hname
  have hcons : "" :: back = [""] ++ back := rfl
  -- an empty component stands alone, at one of the ends or between two slashes
  by_cases hfront : front = []
  · by_cases hback : back = []
    · apply h.nonempty
      rw [← hname, hfront, hback]
      rfl
    · refine h.start ⟨("/".intercalate back).toList, ?_⟩
      rw [← hname, hfront, List.nil_append, hcons, Text.intercalate_append (by simp) hback]
      simp
  · by_cases hback : back = []
    · refine h.ending ⟨("/".intercalate front).toList, ?_⟩
      rw [← hname, hback, Text.intercalate_append hfront (by simp)]
      simp
    · refine h.sequences "//" (by decide)
        ⟨("/".intercalate front).toList, ("/".intercalate back).toList, ?_⟩
      rw [← hname, Text.intercalate_append hfront (by simp), hcons,
        Text.intercalate_append (by simp) hback]
      simp

/-- A name that keeps the rules does not start with a dot: its first component would. -/
theorem Keeps.start_ne_dot {name : String} (h : Keeps name) : ¬ ['.'] <+: name.toList := by
  obtain ⟨first, hfirst, hname⟩ := Text.exists_first_part name
  have hprefix : first.toList <+: name.toList := by
    rcases hname with rfl | ⟨rest, rfl⟩
    · exact List.prefix_refl _
    · exact ⟨'/' :: rest.toList, by simp⟩
  have hlength : ['.'].length ≤ first.toList.length := by
    refine List.length_pos_iff.2 fun hnil => h.empty_not_mem ?_
    rwa [String.toList_eq_nil_iff.1 hnil] at hfirst
  exact fun hdot => (h.components first hfirst).1
    (List.prefix_of_prefix_length_le hdot hprefix hlength)

/-- Every component of a name that keeps the rules is the name of an entry, other than a dot or two
dots. -/
theorem Keeps.ne_of_mem {name component : String} (h : Keeps name)
    (hmem : component ∈ Text.splitOn '/' name) :
    component ≠ "" ∧ component ≠ "." ∧ component ≠ ".." := by
  obtain ⟨hdot, -⟩ := h.components component hmem
  refine ⟨?_, ?_, ?_⟩
  · rintro rfl
    exact h.empty_not_mem hmem
  · rintro rfl
    exact hdot (List.prefix_refl _)
  · rintro rfl
    exact hdot ⟨['.'], rfl⟩

/-- A part without slashes that occurs in a joined name occurs on one side of the slash. -/
theorem infix_of_join {part front back : List Char} (hpart : '/' ∉ part)
    (h : part <:+: front ++ '/' :: back) : part <:+: front ∨ part <:+: back := by
  induction front with
  | nil =>
    rw [List.nil_append, List.infix_cons_iff] at h
    rcases h with hstart | hlater
    · cases part with
      | nil => exact .inl List.nil_infix
      | cons c part =>
        obtain ⟨rfl, -⟩ := List.cons_prefix_cons.1 hstart
        exact absurd List.mem_cons_self hpart
    · exact .inr hlater
  | cons c front ih =>
    rw [List.cons_append, List.infix_cons_iff] at h
    rcases h with hstart | hlater
    · -- a part that starts before the slash ends before it
      have hslash : (c :: front) ++ ['/'] <+: c :: (front ++ '/' :: back) := ⟨back, by simp⟩
      rcases List.prefix_or_prefix_of_prefix hstart hslash with hshort | hlong
      · rcases List.prefix_concat_iff.1 hshort with rfl | hbefore
        · exact absurd (List.mem_append_right _ List.mem_cons_self) hpart
        · exact .inl hbefore.isInfix
      · exact absurd (hlong.subset (List.mem_append_right _ List.mem_cons_self)) hpart
    · exact (ih hlater).imp (List.infix_cons ·) id

/-- Two slashes in a joined name are on one side of the slash, or one is an edge of a side. -/
theorem slashes_of_join {front back : List Char} (h : ['/', '/'] <:+: front ++ '/' :: back) :
    ['/', '/'] <:+: front ∨ ['/'] <:+ front ∨ ['/'] <+: back ∨ ['/', '/'] <:+: back := by
  induction front with
  | nil =>
    rw [List.nil_append, List.infix_cons_iff, List.cons_prefix_cons] at h
    exact .inr (.inr (h.imp And.right id))
  | cons c front ih =>
    rw [List.cons_append, List.infix_cons_iff, List.cons_prefix_cons] at h
    rcases h with ⟨rfl, hstart⟩ | hlater
    · cases front with
      | nil => exact .inr (.inl (List.suffix_refl _))
      | cons d front =>
        obtain ⟨rfl, -⟩ := List.cons_prefix_cons.1 hstart
        exact .inl ⟨[], front, rfl⟩
    · rcases ih hlater with hfront | hend | hback
      · exact .inl (List.infix_cons hfront)
      · exact .inr (.inl (hend.trans (List.suffix_cons _ _)))
      · exact .inr (.inr hback)

/-- Two names that keep the rules make one with a slash between them. -/
theorem Keeps.join {lead rest : String} (hlead : Keeps lead) (hrest : Keeps rest) :
    Keeps (lead ++ "/" ++ rest) := by
  have hlist : (lead ++ "/" ++ rest).toList = lead.toList ++ '/' :: rest.toList := by
    simp
  have hsuffix : '/' :: rest.toList <:+ lead.toList ++ '/' :: rest.toList := List.suffix_append _ _
  have hrestSuffix := (List.suffix_cons '/' rest.toList).trans hsuffix
  have hpositive : 0 < rest.toList.length := List.length_pos_iff.2 hrest.nonempty
  have hchar {c : Char} (hc : c ∈ (lead ++ "/" ++ rest).toList) :
      c ∈ lead.toList ∨ c = '/' ∨ c ∈ rest.toList := by
    rwa [hlist, List.mem_append, List.mem_cons] at hc
  constructor
  case nonempty => simp [hlist]
  case start =>
    intro hstart
    obtain ⟨c, cs, hcs⟩ := List.exists_cons_of_ne_nil hlead.nonempty
    apply hlead.start
    rw [hlist, hcs, List.cons_append, List.cons_prefix_cons] at hstart
    rw [hcs, List.cons_prefix_cons]
    exact ⟨hstart.1, List.nil_prefix⟩
  case ending =>
    rw [hlist]
    exact fun hend =>
      hrest.ending (List.suffix_of_suffix_length_le hend hrestSuffix hpositive)
  case lock =>
    rw [hlist]
    intro hlock
    by_cases hlength : lockSuffix.toList.length ≤ rest.toList.length
    · exact hrest.lock (List.suffix_of_suffix_length_le hlock hrestSuffix hlength)
    · -- an ending that is longer than the rest would have the slash in it
      have hslash := List.suffix_of_suffix_length_le hsuffix hlock
        (by rw [List.length_cons]; omega)
      exact absurd (hslash.subset List.mem_cons_self) (by decide)
  case sequences =>
    rw [hlist]
    intro part hpart hin
    have hside : '/' ∉ part.toList → False := by
      intro hslash
      rcases infix_of_join hslash hin with hfront | hback
      · exact hlead.sequences part hpart hfront
      · exact hrest.sequences part hpart hback
    simp only [refusedSequences, List.mem_cons, List.not_mem_nil, or_false] at hpart
    rcases hpart with rfl | rfl | rfl
    · exact hside (by decide)
    · exact hside (by decide)
    · rcases slashes_of_join hin with hfront | hend | hstart | hback
      · exact hlead.sequences "//" (by decide) hfront
      · exact hlead.ending hend
      · exact hrest.start hstart
      · exact hrest.sequences "//" (by decide) hback
  case characters =>
    intro c hc
    rcases hchar hc with hc | rfl | hc
    · exact hlead.characters c hc
    · decide
    · exact hrest.characters c hc
  case control =>
    intro c hc
    rcases hchar hc with hc | rfl | hc
    · exact hlead.control c hc
    · decide
    · exact hrest.control c hc
  case components =>
    intro component hcomponent
    rw [Text.splitOn_append, List.mem_append] at hcomponent
    exact hcomponent.elim (hlead.components component) (hrest.components component)

end NameProblem

namespace BranchName

/-- A branch name keeps the rules of reference names. -/
theorem keeps (b : BranchName) : NameProblem.Keeps b.text :=
  NameProblem.find?_eq_none_iff.1 b.valid

/-- No control character is in a branch name. -/
theorem not_mem_of_isControl (b : BranchName) {c : Char} (h : Text.isControl c = true) :
    c ∉ b.text.toList := by
  intro hc
  rw [b.keeps.control c hc] at h
  cases h

/-- No blank is in a branch name. -/
theorem space_not_mem (b : BranchName) : ' ' ∉ b.text.toList :=
  fun hc => b.keeps.characters ' ' hc (by decide)

/-- A text that keeps the rules is the name of a branch. -/
theorem ofRef_eq_ok {name : String} (h : NameProblem.find? name = none) :
    ofRef name = .ok ⟨name, h⟩ := by
  unfold ofRef
  split
  next => rfl
  next problem hproblem =>
    rw [h] at hproblem
    cases hproblem

/-- The name of a branch is the text that it was made from. -/
theorem text_of_ofRef {name : String} {b : BranchName} (h : ofRef name = .ok b) : b.text = name := by
  unfold ofRef at h
  split at h
  next => exact congrArg BranchName.text (Except.ok.inj h).symm
  next => cases h

theorem text_inj {a b : BranchName} (h : a.text = b.text) : a = b := by
  cases a
  cases b
  simpa using h

/-- The name of a branch that exists is made from its own text and from no other. -/
theorem ofRef_eq_ok_iff {name : String} {b : BranchName} : ofRef name = .ok b ↔ b.text = name := by
  refine ⟨text_of_ofRef, ?_⟩
  rintro rfl
  exact ofRef_eq_ok b.valid

/-- The text that makes the name of a branch is that name as written. -/
theorem toOption_ofRef_eq_some_iff {name : String} {b : BranchName} :
    (ofRef name).toOption = some b ↔ name = b.text := by
  rw [toOption_eq_some_iff, ofRef_eq_ok_iff, eq_comm]

/-- The name of a branch to be made is made from its own text, unless that is reserved or starts with
a dash. -/
theorem create_eq_ok_iff {name : String} {b : BranchName} :
    create name = .ok b ↔ b.text = name ∧ name ≠ "@" ∧ ¬ ['-'] <+: name.toList := by
  unfold create
  by_cases hat : name = "@"
  · simp [hat]
  rw [if_neg hat]
  cases hhead : name.toList.head?.filter refusedStarts.contains with
  | none =>
    dsimp only
    rw [ofRef_eq_ok_iff, iff_self_and]
    refine fun _ => ⟨hat, ?_⟩
    rintro ⟨rest, hrest⟩
    rw [← hrest] at hhead
    cases hhead
  | some c =>
    refine iff_of_false (by simp) ?_
    rintro ⟨rfl, -, hdash⟩
    -- a dot at the start is refused in every name, so the character is a dash
    obtain ⟨hfirst, hrefused⟩ := Option.filter_eq_some_iff.1 hhead
    obtain ⟨rest, hrest⟩ := List.head?_eq_some_iff.1 hfirst
    have hprefix : [c] <+: b.text.toList := ⟨rest, hrest.symm⟩
    simp only [refusedStarts, List.contains_iff_mem, List.mem_cons, List.not_mem_nil,
      or_false] at hrefused
    rcases hrefused with rfl | rfl
    · exact b.keeps.start_ne_dot hprefix
    · exact hdash hprefix

end BranchName

namespace RefName

/-- A ref name is made from its own text when that keeps the rules. -/
theorem create_eq_ok_iff {name : String} {n : RefName} :
    create name = .ok n ↔ n.text = name ∧ NameProblem.Keeps name := by
  obtain ⟨text⟩ := n
  rw [← NameProblem.find?_eq_none_iff, create]
  cases NameProblem.find? name with
  | none => simp [eq_comm]
  | some problem => simp

/-- The reference of a branch keeps the rules. -/
theorem keeps_ofBranch (b : BranchName) : NameProblem.Keeps (ofBranch b).text := by
  have hlead : NameProblem.Keeps "refs/heads" := NameProblem.find?_eq_none_iff.1 (by decide)
  exact hlead.join b.keeps

/-- The reference of the branch of a remote keeps the rules when the name of the remote does. -/
theorem keeps_ofRemoteBranch {remote : String} (hremote : NameProblem.Keeps remote)
    (b : BranchName) : NameProblem.Keeps (ofRemoteBranch remote b).text := by
  have hlead : NameProblem.Keeps "refs/remotes" := NameProblem.find?_eq_none_iff.1 (by decide)
  exact (hlead.join hremote).join b.keeps

/-- Different branches have different references. -/
theorem ofBranch_inj {a b : BranchName} (h : ofBranch a = ofBranch b) : a = b :=
  BranchName.text_inj ((String.append_right_inj _).1 (RefName.mk.inj h))

/-- Different branches of a remote have different references. -/
theorem ofRemoteBranch_inj {remote : String} {a b : BranchName}
    (h : ofRemoteBranch remote a = ofRemoteBranch remote b) : a = b :=
  BranchName.text_inj ((String.append_right_inj _).1 (RefName.mk.inj h))

end RefName

end WorktreeTracker
