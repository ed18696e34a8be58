import WorktreeTracker.Proofs.PlainReader.References
import WorktreeTracker.Proofs.Resolution

/-!
# The commit that HEAD leads to

When HEAD names a branch, its commit is read from the loose file of the branch, links to the file
followed, or else from the first packed line of the branch.
-/

namespace WorktreeTracker.PlainReader

variable (t : FileTree) (l : Layout)

/-! ## Where the commit of a branch is written -/

/-- The file of the loose reference of a branch. -/
def branchFile (b : BranchName) : Path := l.looseRef (RefName.ofBranch b).text

/-- The loose file of a branch, if there is one, does not name another reference. -/
def IsDirect (b : BranchName) : Prop :=
  ∀ text target, t.readText (branchFile l b) = .ok text →
    RefFile.parse (branchFile l b) text ≠ .ok (.symbolic target)

/-- The id in the loose file of a branch. -/
def looseOid? (b : BranchName) : Option Oid :=
  (t.readText (branchFile l b)).toOption.bind fun text =>
    (RefFile.parse (branchFile l b) text).toOption.bind RefValue.oid?

/-- The ids on the packed lines of a branch, in their order. -/
def packedIds (packed : List (String × Oid)) (b : BranchName) : List Oid :=
  (packed.filter fun e => e.1 = (RefName.ofBranch b).text).map Prod.snd

variable {t l}

/-- The first line of a name is the one that a lookup finds. -/
theorem lookup_eq_head? (packed : List (String × Oid)) (b : BranchName) :
    packed.lookup (RefName.ofBranch b).text = (packedIds packed b).head? := by
  induction packed with
  | nil => rfl
  | cons e rest ih =>
    obtain ⟨name, oid⟩ := e
    rw [List.lookup_cons, packedIds]
    by_cases hname : name = (RefName.ofBranch b).text
    · rw [List.filter_cons_of_pos (by simpa using hname), hname]
      simp
    · rw [List.filter_cons_of_neg (by simpa using hname), ← packedIds, ← ih]
      have hbeq : ((RefName.ofBranch b).text == name) = false := by
        simpa using Ne.symm hname
      rw [hbeq]

/-! ## Reading the commit -/

/-- A file that may be missing is read as what it is. -/
theorem readOptional_eq_ok {path : Path} {found : Option String}
    (h : readOptional t path = .ok found) :
    (∃ text, t.readText path = .ok text ∧ found = some text) ∨
      t.readText path = .error .notFound ∧ found = none := by
  unfold readOptional at h
  cases hread : t.readText path with
  | ok text =>
    rw [hread] at h
    exact .inl ⟨text, rfl, (Except.ok.inj h).symm⟩
  | error fault =>
    rw [hread] at h
    cases fault with
    | notFound => exact .inr ⟨rfl, (Except.ok.inj h).symm⟩
    | _ => cases h

/-- The id in the loose file of a branch is what the file says. -/
theorem looseOid?_eq_some {b : BranchName} {text : String} {oid : Oid}
    (htext : t.readText (branchFile l b) = .ok text)
    (hvalue : RefFile.parse (branchFile l b) text = .ok (.direct oid)) :
    looseOid? t l b = some oid := by
  rw [looseOid?, toOption_eq_some_iff.2 htext, Option.bind_some, toOption_eq_some_iff.2 hvalue,
    Option.bind_some, RefValue.oid?]

/-- An id in the loose file of a branch is what the file says. -/
theorem exists_of_looseOid? {b : BranchName} {oid : Oid} (h : looseOid? t l b = some oid) :
    ∃ text, t.readText (branchFile l b) = .ok text ∧
      RefFile.parse (branchFile l b) text = .ok (.direct oid) := by
  obtain ⟨text, htext, h⟩ := Option.bind_eq_some_iff.1 h
  obtain ⟨value, hvalue, hoid⟩ := Option.bind_eq_some_iff.1 h
  refine ⟨text, toOption_eq_some_iff.1 htext, ?_⟩
  cases value with
  | symbolic target => cases hoid
  | direct other =>
    obtain rfl := Option.some.inj hoid
    exact toOption_eq_some_iff.1 hvalue

/-- A loose file with an id in it is not symbolic. -/
theorem isDirect_of_isSome {b : BranchName} (h : (looseOid? t l b).isSome) : IsDirect t l b := by
  intro text target htext hsymbolic
  obtain ⟨oid, hoid⟩ := Option.isSome_iff_exists.1 h
  obtain ⟨text', htext', hvalue⟩ := exists_of_looseOid? hoid
  obtain rfl := Except.ok.inj (htext.symm.trans htext')
  cases hsymbolic.symm.trans hvalue

/-- A loose file that cannot be read is not symbolic. -/
theorem isDirect_of_error {b : BranchName} {fault : Fault}
    (h : t.readText (branchFile l b) = .error fault) : IsDirect t l b := by
  intro text target htext
  cases h.symm.trans htext

/-- Without a loose file a branch has no id in it. -/
theorem looseOid?_eq_none {b : BranchName} (h : t.readText (branchFile l b) = .error .notFound) :
    looseOid? t l b = none := by
  have hnone : (t.readText (branchFile l b)).toOption = none := by
    rw [h, Except.toOption]
  rw [looseOid?, hnone, Option.bind_none]

/-- A reference without a loose file is looked up among the packed ones. -/
theorem resolveRef_of_missing {name : String}
    (h : t.readText (l.looseRef name) = .error .notFound) :
    resolveRef t l name = packedLookup t l name := by
  have hread : readOptional t (l.looseRef name) = .ok none := by
    rw [readOptional, h]
  rw [resolveRef, symbolicLimit, resolveFrom, hread]
  rfl

/-- The commit of a branch without a symbolic loose file is that of the file, or else that of the
first packed line. -/
theorem resolveRef_eq_ok {b : BranchName} {found : Option Oid} (hdirect : IsDirect t l b)
    (h : resolveRef t l (RefName.ofBranch b).text = .ok found) :
    (∃ oid, looseOid? t l b = some oid ∧ found = some oid) ∨
      t.readText (branchFile l b) = .error .notFound ∧
        ∃ packed, packedRefs t l = .ok packed ∧ found = (packedIds packed b).head? := by
  unfold resolveRef symbolicLimit resolveFrom at h
  obtain ⟨text?, hread, h⟩ := bind_eq_ok.1 h
  rcases readOptional_eq_ok hread with ⟨text, htext, rfl⟩ | ⟨hmissing, rfl⟩
  · -- the file names no other reference, so it has the id itself
    obtain ⟨value, hvalue, h⟩ := bind_eq_ok.1 h
    cases value with
    | symbolic target => exact absurd hvalue (hdirect text target htext)
    | direct oid =>
      refine .inl ⟨oid, ?_, ?_⟩
      · exact looseOid?_eq_some htext hvalue
      · exact (Except.ok.inj h).symm
  · obtain ⟨packed, hpacked, rfl⟩ := map_eq_ok.1 h
    exact .inr ⟨hmissing, packed, hpacked, lookup_eq_head? packed b⟩

/-- An attached HEAD names its branch and has the commit of it. -/
theorem said_of_head {b : BranchName} {found : Option Oid}
    (h : head t l = .ok (.branch b found)) :
    ∃ text, readOptional t l.head = .ok (some text) ∧
      RefFile.parse l.head text = .ok (.symbolic (RefName.ofBranch b).text) ∧
      resolveRef t l (RefName.ofBranch b).text = .ok found := by
  unfold head at h
  obtain ⟨text?, htext, h⟩ := bind_eq_ok.1 h
  cases text? with
  | none => cases h
  | some text =>
    obtain ⟨value, hvalue, h⟩ := bind_eq_ok.1 h
    cases value with
    | direct oid => cases h
    | symbolic target =>
      dsimp only at h
      cases hshort : Text.after? RefName.heads target with
      | none =>
        rw [hshort] at h
        cases h
      | some short =>
        rw [hshort] at h
        obtain ⟨name, hname, h⟩ := bind_eq_ok.1 h
        obtain ⟨oid, hoid, h⟩ := bind_eq_ok.1 h
        obtain ⟨rfl, rfl⟩ := HeadTarget.branch.inj (Except.ok.inj h)
        have htarget : target = (RefName.ofBranch name).text := by
          rw [Text.after?_eq_some_iff.1 hshort, ← BranchName.text_of_ofRef (mapError_eq_ok.1 hname)]
          rfl
        exact ⟨text, htext, htarget ▸ hvalue, htarget ▸ hoid⟩

/-- The commit of an attached HEAD is that of its branch. -/
theorem head_eq_branch {b : BranchName} {found : Option Oid}
    (h : head t l = .ok (.branch b found)) :
    resolveRef t l (RefName.ofBranch b).text = .ok found := by
  obtain ⟨text, -, -, hfound⟩ := said_of_head h
  exact hfound

/-- A HEAD file that names a branch attaches HEAD to it. -/
theorem head_of_symbolic {text : String} {b : BranchName} {found : Option Oid}
    (htext : readOptional t l.head = .ok (some text))
    (hparse : RefFile.parse l.head text = .ok (.symbolic (RefName.ofBranch b).text))
    (hfound : resolveRef t l (RefName.ofBranch b).text = .ok found) :
    head t l = .ok (.branch b found) := by
  have hshort : Text.after? RefName.heads (RefName.ofBranch b).text = some b.text :=
    Text.after?_append _ _
  refine bind_eq_ok.2 ⟨some text, htext, bind_eq_ok.2 ⟨_, hparse, ?_⟩⟩
  dsimp only
  rw [hshort]
  exact bind_eq_ok.2 ⟨b, mapError_eq_ok.2 (BranchName.ofRef_eq_ok b.valid),
    bind_eq_ok.2 ⟨found, hfound, rfl⟩⟩

end WorktreeTracker.PlainReader
