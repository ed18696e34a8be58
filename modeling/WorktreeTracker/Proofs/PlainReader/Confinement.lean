import WorktreeTracker.Locate
import WorktreeTracker.Proofs.FileTree.Below
import WorktreeTracker.Proofs.PlainReader.HeadFailure
import WorktreeTracker.Proofs.WrittenRefs

/-!
# What can influence a read

HEAD is read in the directory of the worktree, and references are read and listed in the shared one.
What a symbolic reference names is joined to the shared directory as it is written, without a check.
So a read depends on the two directories alone as long as the names that it follows stay in the
shared one, and a name that leads out of it hands the result to whoever can write the file there.
-/

namespace WorktreeTracker.PlainReader

variable {t t' : FileTree} {l : Layout}

/-! ## Files of the shared directory -/

theorem readOptional_of_resolve {path : Path} (h : t'.resolve path true = t.resolve path true) :
    readOptional t' path = readOptional t path := by
  rw [readOptional, FileTree.readText_of_resolve h, readOptional]

theorem packedRefs_eq (hfree : t.LinkFree) (h : FileTree.SameIn t t' l.commonDir) :
    packedRefs t' l = packedRefs t l := by
  have hstays : Path.Stays "packed-refs" := by decide
  have hfile : readOptional t' l.packedRefs = readOptional t l.packedRefs :=
    readOptional_of_resolve (h.resolve_eq hfree hstays)
  rw [packedRefs, hfile, packedRefs]

theorem packedLookup_eq (hfree : t.LinkFree) (h : FileTree.SameIn t t' l.commonDir) (name : String) :
    packedLookup t' l name = packedLookup t l name := by
  rw [packedLookup, packedRefs_eq hfree h, packedLookup]

/-- The loose files are the same, in the same order. -/
theorem looseFiles_eq (hfree : t.LinkFree) (h : FileTree.SameIn t t' l.commonDir) {lead : String}
    (hlead : Path.Stays (Text.trimEnding '/' lead)) : looseFiles t' l lead = looseFiles t l lead := by
  rw [looseFiles, looseFiles, looseDirectory, h.resolve_eq hfree hlead]
  cases hfound : t.resolve (l.commonDir / Text.trimEnding '/' lead) true with
  | error fault => rfl
  | ok found =>
    obtain ⟨place, entry⟩ := found
    cases entry with
    | directory =>
      rw [filesUnder, (h.sameBelow hfree hlead hfound).filesBelow_eq, filesUnder]
    | file contents => rfl
    | link target => rfl

/-- The references that are listed depend on the shared directory alone. -/
theorem listRefs_eq (hfree : t.LinkFree) (h : FileTree.SameIn t t' l.commonDir) {lead : String}
    (hlead : Path.Stays (Text.trimEnding '/' lead)) : listRefs t' l lead = listRefs t l lead := by
  rw [listRefs, refEntries, packedRefs_eq hfree h, looseFiles_eq hfree h hlead, listRefs, refEntries]

/-! ## Names that are followed -/

variable (t l) in
/-- A name is looked up when another one is resolved with so many loose files at most: the other one
itself, and then what each symbolic reference names. -/
inductive LooksAt : Nat → String → String → Prop where
  | start {hops : Nat} {name : String} : LooksAt (hops + 1) name name
  | symbolic {hops : Nat} {name text target last : String}
      (h : t.readText (l.looseRef name) = .ok text) (hvalue : RefFile.SaysRef text target)
      (hrest : LooksAt hops target last) : LooksAt (hops + 1) name last

theorem readText_of_readOptional {path : Path} {text : String}
    (h : readOptional t path = .ok (some text)) : t.readText path = .ok text := by
  rcases readOptional_eq_ok h with ⟨other, hother, heq⟩ | ⟨-, hnone⟩
  · obtain rfl := Option.some.inj heq
    exact hother
  · cases hnone

/-- A name is resolved alike when every name that is looked up stays in the shared directory. -/
theorem resolveFrom_eq (hfree : t.LinkFree) (h : FileTree.SameIn t t' l.commonDir) (start : String)
    {hops : Nat} {name : String} (hstays : ∀ n, LooksAt t l hops name n → Path.Stays n) :
    resolveFrom t' l start hops name = resolveFrom t l start hops name := by
  induction hops generalizing name with
  | zero => rfl
  | succ hops ih =>
    have hfile : readOptional t' (l.looseRef name) = readOptional t (l.looseRef name) :=
      readOptional_of_resolve (h.resolve_eq hfree (hstays name .start))
    simp only [resolveFrom, hfile, packedLookup_eq hfree h, bind, Except.bind]
    cases hread : readOptional t (l.looseRef name) with
    | error fault => rfl
    | ok text? =>
      cases text? with
      | none => rfl
      | some text =>
        dsimp only
        cases hparse : RefFile.parse (l.looseRef name) text with
        | error problem => rfl
        | ok value =>
          cases value with
          | direct oid => rfl
          | symbolic target =>
            -- what is looked up after the target is looked up after the name
            exact ih fun n hn => hstays n (.symbolic (readText_of_readOptional hread)
              (RefFile.saysRef_of_parse hparse) hn)

/-- An acceptable name stays in the directory that it is joined to. -/
theorem stays_of_keeps {name : String} (h : NameProblem.Keeps name) : Path.Stays name :=
  ⟨relative_of_keeps h, (areNames_splitOn h).staysBelow 0⟩

/-- An acceptable name is resolved alike when what it is followed to stays in the shared directory. -/
theorem resolveRef_eq (hfree : t.LinkFree) (h : FileTree.SameIn t t' l.commonDir) {name : String}
    (hname : NameProblem.Keeps name)
    (hstays : ∀ n, n ≠ name → LooksAt t l symbolicLimit name n → Path.Stays n) :
    resolveRef t' l name = resolveRef t l name := by
  refine resolveFrom_eq hfree h name fun n hn => ?_
  by_cases heq : n = name
  · rw [heq]
    exact stays_of_keeps hname
  · exact hstays n heq hn

/-- HEAD depends on the directory of the worktree, and on what is found for the branch that it
names. -/
theorem head_eq (hfree : t.LinkFree) (h : FileTree.SameIn t t' l.gitDir)
    (hbranch : ∀ b, Attached t l b →
      resolveRef t' l (RefName.ofBranch b).text = resolveRef t l (RefName.ofBranch b).text) :
    head t' l = head t l := by
  have hstays : Path.Stays "HEAD" := by decide
  have hfile : readOptional t' l.head = readOptional t l.head :=
    readOptional_of_resolve (h.resolve_eq hfree hstays)
  simp only [head, hfile, bind, Except.bind]
  cases hread : readOptional t l.head with
  | error fault => rfl
  | ok text? =>
    cases text? with
    | none => rfl
    | some text =>
      dsimp only
      cases hparse : RefFile.parse l.head text with
      | error problem => rfl
      | ok value =>
        cases value with
        | direct oid => rfl
        | symbolic target =>
          dsimp only
          cases hshort : Text.after? RefName.heads target with
          | none => rfl
          | some short =>
            dsimp only
            cases hname : BranchName.ofRef short with
            | error e => rfl
            | ok b =>
              -- only now a reference is read, that of the branch
              have htarget : target = (RefName.ofBranch b).text := by
                rw [Text.after?_eq_some_iff.1 hshort, ← BranchName.text_of_ofRef hname]
                rfl
              have hattached : Attached t l b :=
                ⟨text, readText_of_readOptional hread, htarget ▸ RefFile.saysRef_of_parse hparse⟩
              rw [htarget, hbranch b hattached]

/-! ## Names that lead out -/

/-- What is written into a file that is met on the way is what the name is resolved to. -/
theorem resolveFrom_rewrite {hops : Nat} {name n : String} (h : LooksAt t l hops name n)
    {place : Location} {old : ByteArray}
    (hfound : t.resolve (l.looseRef n) true = .ok (place, .file old)) (oid : Oid)
    (start : String) :
    resolveFrom (t.rewrite place (linesText [oid.text]).toUTF8) l start hops name =
      .ok (some oid) := by
  have hwritten {path : Path} {old : ByteArray}
      (hpath : t.resolve path true = .ok (place, .file old)) :
      (t.rewrite place (linesText [oid.text]).toUTF8).readText path = .ok (linesText [oid.text]) := by
    rw [FileTree.readText_rewrite hpath, RefFile.decodeText_toUTF8]
  have hid (path : Path) : RefFile.parse path (linesText [oid.text]) = .ok (.direct oid) :=
    RefFile.parse_of_saysId (RefFile.saysId_linesText oid) path
  induction h with
  | start =>
    simp only [resolveFrom, readOptional_of_text (hwritten hfound), hid, bind, Except.bind]
    rfl
  | @symbolic hops name text target last htext hvalue hrest ih =>
    obtain ⟨other, contents, hother, -⟩ := FileTree.readText_eq_ok_iff.1 htext
    by_cases hplace : other = place
    · -- the file is met before the end already
      rw [hplace] at hother
      simp only [resolveFrom, readOptional_of_text (hwritten hother), hid, bind, Except.bind]
      rfl
    · have hsame : (t.rewrite place (linesText [oid.text]).toUTF8).resolve (l.looseRef name) true =
          t.resolve (l.looseRef name) true :=
        FileTree.resolve_rewrite_of_ne (FileTree.entryAt?_of_resolve hfound) hother hplace
      rw [← FileTree.readText_of_resolve hsame] at htext
      simp only [resolveFrom, readOptional_of_text htext, RefFile.parse_of_saysRef hvalue, bind,
        Except.bind]
      exact ih hfound

/-! ## Reads of both directories -/

variable (t l) in
/-- What a name is followed to stays in the shared directory. -/
def FollowedInside (name : String) : Prop :=
  ∀ n, n ≠ name → LooksAt t l symbolicLimit name n → Path.Stays n

variable (t l) in
/-- A name is followed to a regular file in neither of the two directories. -/
def FollowedOutside (name : String) : Prop :=
  ∃ n place contents, LooksAt t l symbolicLimit name n ∧
    t.resolve (l.looseRef n) true = .ok (place, .file contents) ∧
    t.Outside l.gitDir place ∧ t.Outside l.commonDir place

/-- Whoever writes the file that a name is followed to chooses the commit, also of a HEAD that names
the branch, and leaves no trace in the two directories. -/
theorem FollowedOutside.exists_rewrite {name : String} (h : FollowedOutside t l name)
    (hfree : t.LinkFree) (oid : Oid) :
    ∃ t' : FileTree, t'.LinkFree ∧ t.SameIn t' l.gitDir ∧ t.SameIn t' l.commonDir ∧
      resolveRef t' l name = .ok (some oid) ∧
      ∀ b, Attached t l b → name = (RefName.ofBranch b).text →
        head t' l = .ok (.branch b (some oid)) := by
  obtain ⟨n, place, old, hlooks, hfound, hgit, hcommon⟩ := h
  have hfile := FileTree.entryAt?_of_resolve hfound
  have hresolve := resolveFrom_rewrite hlooks hfound oid name
  have hsame : t.SameIn (t.rewrite place (linesText [oid.text]).toUTF8) l.gitDir :=
    hgit.sameIn_rewrite hfile
  refine ⟨_, hfree.rewrite hfile, hsame, hcommon.sameIn_rewrite hfile, hresolve, ?_⟩
  rintro b ⟨text, htext, hvalue⟩ rfl
  have hstays : Path.Stays "HEAD" := by decide
  have hhead : (t.rewrite place (linesText [oid.text]).toUTF8).readText l.head = .ok text := by
    rw [← htext]
    exact FileTree.readText_of_resolve (hsame.resolve_eq hfree hstays)
  rw [head_of_attached ⟨text, hhead, hvalue⟩, resolveRef, hresolve]
  rfl

/-- In a tree without links the references that are listed depend on the shared directory alone, and
so do the commit of a name and HEAD when what they are followed to stays in that directory. A
name that is followed to a regular file outside is resolved to whatever id is written there. -/
theorem reads_confined (hfree : t.LinkFree) :
    (∀ t', t.SameIn t' l.gitDir → t.SameIn t' l.commonDir →
      (∀ lead, lead = RefName.heads ∨ lead = RefName.remotes →
        listRefs t' l lead = listRefs t l lead) ∧
      (∀ name, NameProblem.Keeps name → FollowedInside t l name →
        resolveRef t' l name = resolveRef t l name) ∧
      ((∀ b, Attached t l b → FollowedInside t l (RefName.ofBranch b).text) →
        head t' l = head t l)) ∧
    ∀ name, FollowedOutside t l name → ∀ oid,
      ∃ t' : FileTree, t'.LinkFree ∧ t.SameIn t' l.gitDir ∧ t.SameIn t' l.commonDir ∧
        resolveRef t' l name = .ok (some oid) ∧
        ∀ b, Attached t l b → name = (RefName.ofBranch b).text →
          head t' l = .ok (.branch b (some oid)) := by
  refine ⟨fun t' hgit hcommon => ⟨?_, ?_, ?_⟩, fun name h oid => h.exists_rewrite hfree oid⟩
  · rintro lead (rfl | rfl)
    · exact listRefs_eq hfree hcommon (by decide)
    · exact listRefs_eq hfree hcommon (by decide)
  · exact fun name hname hinside => resolveRef_eq hfree hcommon hname hinside
  · intro hinside
    refine head_eq hfree hgit fun b hb => ?_
    exact resolveRef_eq hfree hcommon (NameProblem.find?_eq_none_iff.1 (find?_ofBranch b)) (hinside b hb)

/-! ## A branch that leads out -/

/-- A clone on a branch whose file names one outside the clone. -/
def outwardClone : FileTree :=
  (onTopic.place ["r", ".git", "refs", "heads", "topic"]
    (.file (linesText ["ref: ../../outside"]).toUTF8)).place ["outside"]
    (.file (linesText [(Oid.ofNumber 1).text]).toUTF8)

theorem linkFree_outwardClone : outwardClone.LinkFree :=
  linkFree_of_entries (by decide +kernel)

theorem attached_outwardClone : Attached outwardClone sharedLayout topic := by
  refine ⟨"ref: refs/heads/topic\n", by decide +kernel, " refs/heads/topic", ?_, ?_⟩ <;>
    decide +kernel

/-- The branch is followed to the file outside. -/
theorem followedOutside_outwardClone :
    FollowedOutside outwardClone sharedLayout "refs/heads/topic" := by
  have htext : outwardClone.readText (sharedLayout.looseRef "refs/heads/topic") =
      .ok (linesText ["ref: ../../outside"]) := by
    decide +kernel
  have hfound : outwardClone.resolve (sharedLayout.looseRef "../../outside") true =
      .ok (["outside"], .file (linesText [(Oid.ofNumber 1).text]).toUTF8) := by
    rfl
  have hanchor : outwardClone.anchor ⟨"/r/.git"⟩ = .ok (["r", ".git"], .directory) := by rfl
  have houtside : outwardClone.Outside ⟨"/r/.git"⟩ ["outside"] := by
    intro dir entry hdir
    obtain ⟨rfl, -⟩ := Prod.mk.inj (Except.ok.inj (hdir.symm.trans hanchor))
    decide
  exact ⟨"../../outside", ["outside"], _,
    .symbolic htext ⟨" ../../outside", by decide +kernel, by decide +kernel⟩ .start, hfound, houtside,
    houtside⟩

/-- Whoever writes the file outside sets the commit of HEAD, and the listing stays as it is. -/
theorem reads_confined_outward :
    ∃ t' : FileTree, outwardClone.SameIn t' ⟨"/r/.git"⟩ ∧
      listRefs t' sharedLayout RefName.heads = listRefs outwardClone sharedLayout RefName.heads ∧
      head t' sharedLayout = .ok (.branch topic (some (.ofNumber 3))) := by
  obtain ⟨hinside, houtside⟩ := reads_confined (l := sharedLayout) linkFree_outwardClone
  obtain ⟨t', -, hgit, hcommon, -, hhead⟩ :=
    houtside "refs/heads/topic" followedOutside_outwardClone (.ofNumber 3)
  exact ⟨t', hgit, (hinside t' hgit hcommon).1 _ (.inl rfl), hhead topic attached_outwardClone rfl⟩

/-- Two trees without links that are the same in the directories of a clone, and in which its branch
and its HEAD have different commits. -/
theorem outside_decides :
    locate outwardClone ⟨"/r"⟩ = .ok sharedLayout ∧ outwardClone.LinkFree ∧
      NameProblem.Keeps "refs/heads/topic" ∧
      resolveRef outwardClone sharedLayout "refs/heads/topic" = .ok (some (.ofNumber 1)) ∧
      head outwardClone sharedLayout = .ok (.branch topic (some (.ofNumber 1))) ∧
      ∃ t' : FileTree, t'.LinkFree ∧ outwardClone.SameIn t' sharedLayout.gitDir ∧
        outwardClone.SameIn t' sharedLayout.commonDir ∧
        resolveRef t' sharedLayout "refs/heads/topic" = .ok (some (.ofNumber 2)) ∧
        head t' sharedLayout = .ok (.branch topic (some (.ofNumber 2))) := by
  have hresolve : resolveRef outwardClone sharedLayout "refs/heads/topic" =
      .ok (some (.ofNumber 1)) := by
    decide +kernel
  have hhead : head outwardClone sharedLayout = .ok (.branch topic (some (.ofNumber 1))) := by
    rw [head_of_attached attached_outwardClone]
    exact congrArg (Except.map (HeadTarget.branch topic)) hresolve
  obtain ⟨t', hfree, hgit, hcommon, hresolve', hhead'⟩ :=
    followedOutside_outwardClone.exists_rewrite linkFree_outwardClone (.ofNumber 2)
  exact ⟨by decide +kernel, linkFree_outwardClone, NameProblem.find?_eq_none_iff.1 (by decide),
    hresolve, hhead, t', hfree, hgit, hcommon, hresolve', hhead' topic attached_outwardClone rfl⟩

end WorktreeTracker.PlainReader
