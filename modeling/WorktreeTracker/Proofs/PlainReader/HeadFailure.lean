import WorktreeTracker.Proofs.PlainReader.Agreement
import WorktreeTracker.Proofs.RefFile

/-!
# How reading HEAD fails

A HEAD that is missing or names nothing is reported apart from metadata that cannot be read. The
report goes by the kind of failure and not by the file that failed: a malformed file on the way from
HEAD to its commit counts like a malformed HEAD, and a HEAD that is no text counts like a refused
access. The ways to fail are listed as derivations, and a read ends in the way that has one.
-/

namespace WorktreeTracker.PlainReader

variable (t : FileTree) (l : Layout)

/-! ## Following a name -/

/-- How reading the commit of a reference ends. -/
inductive Ending where
  /-- The commit is known, or that there is none. -/
  | found (oid : Option Oid)
  /-- A file on the way is malformed, or there are too many. -/
  | malformed
  /-- A file on the way cannot be read. -/
  | refused

/-- How looking a name up in the packed file ends. -/
inductive LooksUp (name : String) : Ending → Prop
  | missing (h : t.readText l.packedRefs = .error .notFound) : LooksUp name (.found none)
  | refused {fault : Fault} (h : t.readText l.packedRefs = .error fault) (hne : fault ≠ .notFound) :
      LooksUp name .refused
  | malformed {text : String} (h : t.readText l.packedRefs = .ok text)
      (hlines : PackedRefs.Malformed text) : LooksUp name .malformed
  | listed {text : String} {packed : List (String × Oid)} (h : t.readText l.packedRefs = .ok text)
      (hlines : PackedRefs.parse l.packedRefs text = .ok packed) :
      LooksUp name (.found (packed.lookup name))

/-- How following a name ends when at most so many loose files are read. -/
inductive Follows : Nat → String → Ending → Prop
  | tooLong {name : String} : Follows 0 name .malformed
  | refused {hops : Nat} {name : String} {fault : Fault}
      (h : t.readText (l.looseRef name) = .error fault) (hne : fault ≠ .notFound) :
      Follows (hops + 1) name .refused
  | malformed {hops : Nat} {name text : String} (h : t.readText (l.looseRef name) = .ok text)
      (hvalue : RefFile.Malformed text) : Follows (hops + 1) name .malformed
  | direct {hops : Nat} {name text : String} {oid : Oid}
      (h : t.readText (l.looseRef name) = .ok text) (hvalue : RefFile.SaysId text oid) :
      Follows (hops + 1) name (.found (some oid))
  | symbolic {hops : Nat} {name text target : String} {ending : Ending}
      (h : t.readText (l.looseRef name) = .ok text) (hvalue : RefFile.SaysRef text target)
      (hrest : Follows hops target ending) : Follows (hops + 1) name ending
  | packed {hops : Nat} {name : String} {ending : Ending}
      (h : t.readText (l.looseRef name) = .error .notFound)
      (hpacked : LooksUp t l name ending) : Follows (hops + 1) name ending

/-- What a read gives that ends in a certain way. -/
inductive Ends : Except ReadError (Option Oid) → Ending → Prop
  | found {oid : Option Oid} : Ends (.ok oid) (.found oid)
  | malformed {path : Path} {problem : String} : Ends (.error (.corrupt path problem)) .malformed
  | refused {problem : String} : Ends (.error (.access problem)) .refused

variable {t l}

/-- A read ends in one way. -/
theorem Ends.unique {result : Except ReadError (Option Oid)} {a b : Ending} (ha : Ends result a)
    (hb : Ends result b) : a = b := by
  cases ha <;> cases hb <;> rfl

theorem readOptional_of_text {path : Path} {text : String} (h : t.readText path = .ok text) :
    readOptional t path = .ok (some text) := by
  rw [readOptional, h]

theorem readOptional_of_missing {path : Path} (h : t.readText path = .error .notFound) :
    readOptional t path = .ok none := by
  rw [readOptional, h]

theorem readOptional_of_fault {path : Path} {fault : Fault} (h : t.readText path = .error fault)
    (hne : fault ≠ .notFound) : readOptional t path = .error (.ofFault path fault) := by
  rw [readOptional, h]
  cases fault with
  | notFound => exact absurd rfl hne
  | _ => rfl

/-- A lookup in the packed file ends in the way that has a derivation. -/
theorem LooksUp.ends {name : String} {ending : Ending} (h : LooksUp t l name ending) :
    Ends (packedLookup t l name) ending := by
  unfold packedLookup packedRefs
  cases h with
  | missing h =>
    rw [readOptional, h]
    exact .found
  | refused h hne =>
    rw [readOptional_of_fault h hne]
    exact .refused
  | @malformed text h hlines =>
    rw [readOptional, h]
    rcases PackedRefs.parse_cases l.packedRefs text with ⟨hnot, -⟩ | ⟨-, problem, hproblem⟩
    · exact absurd hlines hnot
    · show Ends (Except.map _ (PackedRefs.parse l.packedRefs text)) _
      rw [hproblem]
      exact .malformed
  | @listed text packed h hlines =>
    rw [readOptional, h]
    show Ends (Except.map _ (PackedRefs.parse l.packedRefs text)) _
    rw [hlines]
    exact .found

/-- Following a name ends in the way that has a derivation. -/
theorem Follows.ends {hops : Nat} {name : String} {ending : Ending}
    (h : Follows t l hops name ending) (start : String) :
    Ends (resolveFrom t l start hops name) ending := by
  induction h with
  | tooLong => exact .malformed
  | @refused hops name fault h hne =>
    rw [resolveFrom, readOptional_of_fault h hne]
    exact .refused
  | @malformed hops name text h hvalue =>
    obtain ⟨problem, hproblem⟩ := RefFile.parse_of_malformed hvalue (l.looseRef name)
    simp only [resolveFrom, readOptional_of_text h, hproblem, bind, Except.bind]
    exact .malformed
  | direct h hvalue =>
    simp only [resolveFrom, readOptional_of_text h, RefFile.parse_of_saysId hvalue, bind,
      Except.bind]
    exact .found
  | symbolic h hvalue hrest ih =>
    simp only [resolveFrom, readOptional_of_text h, RefFile.parse_of_saysRef hvalue, bind,
      Except.bind]
    exact ih
  | packed h hpacked =>
    simp only [resolveFrom, readOptional_of_missing h, bind, Except.bind]
    exact hpacked.ends

/-- A file is missing, refused or read. -/
theorem readText_cases (t : FileTree) (path : Path) :
    t.readText path = .error .notFound ∨
      (∃ fault, t.readText path = .error fault ∧ fault ≠ .notFound) ∨
      ∃ text, t.readText path = .ok text := by
  cases hread : t.readText path with
  | ok text => exact .inr (.inr ⟨text, rfl⟩)
  | error fault =>
    by_cases hfault : fault = .notFound
    · exact .inl (congrArg Except.error hfault)
    · exact .inr (.inl ⟨fault, rfl, hfault⟩)

/-- A lookup in the packed file ends in some way. -/
theorem exists_looksUp (t : FileTree) (l : Layout) (name : String) :
    ∃ ending, LooksUp t l name ending := by
  rcases readText_cases t l.packedRefs with h | ⟨fault, h, hne⟩ | ⟨text, h⟩
  · exact ⟨_, .missing h⟩
  · exact ⟨_, .refused h hne⟩
  · rcases PackedRefs.parse_cases l.packedRefs text with ⟨-, packed, hpacked⟩ | ⟨hlines, -⟩
    · exact ⟨_, .listed h hpacked⟩
    · exact ⟨_, .malformed h hlines⟩

/-- Following a name ends in some way. -/
theorem exists_follows (t : FileTree) (l : Layout) (hops : Nat) (name : String) :
    ∃ ending, Follows t l hops name ending := by
  induction hops generalizing name with
  | zero => exact ⟨_, .tooLong⟩
  | succ hops ih =>
    rcases readText_cases t (l.looseRef name) with h | ⟨fault, h, hne⟩ | ⟨text, h⟩
    · obtain ⟨ending, hpacked⟩ := exists_looksUp t l name
      exact ⟨ending, .packed h hpacked⟩
    · exact ⟨_, .refused h hne⟩
    · rcases RefFile.says_cases text with ⟨target, hvalue⟩ | ⟨oid, hvalue⟩ | hvalue
      · obtain ⟨ending, hrest⟩ := ih target
        exact ⟨ending, .symbolic h hvalue hrest⟩
      · exact ⟨_, .direct h hvalue⟩
      · exact ⟨_, .malformed h hvalue⟩

/-! ## HEAD -/

/-- The text of HEAD points at something: it has an id or names a local branch. -/
def Points (text : String) : Prop :=
  (∃ oid, RefFile.SaysId text oid) ∨ ∃ b, RefFile.SaysRef text (RefName.ofBranch b).text

variable (t l)

/-- HEAD names a local branch. -/
def Attached (b : BranchName) : Prop :=
  ∃ text, t.readText l.head = .ok text ∧ RefFile.SaysRef text (RefName.ofBranch b).text

/-- There is no file HEAD, or its contents are not a text that points at something. -/
def Headless : Prop :=
  t.readFile l.head = .error .notFound ∨
    ∃ contents, t.readFile l.head = .ok contents ∧
      ∀ text, FileTree.decodeText contents = .ok text → ¬ Points text

/-- How a read of HEAD is reported. -/
inductive Verdict where
  /-- HEAD is known. -/
  | answered
  /-- There is no current branch. -/
  | noCurrentBranch
  /-- The metadata cannot be read. -/
  | unreadable

/-- What is answered for a root, by its verdict. -/
inductive Verdict.Of (root : Path) : Except TrackError Head → Verdict → Prop
  | answered {head : Head} : Of root (.ok head) .answered
  | noCurrentBranch {problem : String} :
      Of root (.error (.noCurrentBranch root problem)) .noCurrentBranch
  | unreadable {problem : String} : Of root (.error (.unreadable root problem)) .unreadable

/-- How reading HEAD is reported: what HEAD says comes first, and then how the branch that it names
is followed. -/
inductive Reported : Verdict → Prop
  | missing (h : t.readText l.head = .error .notFound) : Reported .noCurrentBranch
  | refused {fault : Fault} (h : t.readText l.head = .error fault) (hne : fault ≠ .notFound) :
      Reported .unreadable
  | pointless {text : String} (h : t.readText l.head = .ok text) (hnot : ¬ Points text) :
      Reported .noCurrentBranch
  | detached {text : String} {oid : Oid} (h : t.readText l.head = .ok text)
      (hvalue : RefFile.SaysId text oid) : Reported .answered
  | attached {b : BranchName} {oid : Option Oid} (h : Attached t l b)
      (hbranch : Follows t l symbolicLimit (RefName.ofBranch b).text (.found oid)) :
      Reported .answered
  | branchMalformed {b : BranchName} (h : Attached t l b)
      (hbranch : Follows t l symbolicLimit (RefName.ofBranch b).text .malformed) :
      Reported .noCurrentBranch
  | branchRefused {b : BranchName} (h : Attached t l b)
      (hbranch : Follows t l symbolicLimit (RefName.ofBranch b).text .refused) :
      Reported .unreadable

variable {t l}

/-- What the tracker answers for a root whose HEAD is read with a result. -/
def answer (root : Path) (result : Except ReadError HeadTarget) : Except TrackError Head :=
  ((result.mapError StoreError.ofHeadRead).mapError (TrackError.ofStore root)).map Head.ofTarget

theorem resolveHead_files_eq (w : World) (l : Layout) :
    (resolveHead .files w l).1 = answer l.workDir (head w.tree l) := by
  rw [resolveHead_files]
  rfl

/-- An answer has one verdict. -/
theorem Verdict.Of.unique {root : Path} {given : Except TrackError Head} {a b : Verdict}
    (ha : Of root given a) (hb : Of root given b) : a = b := by
  cases ha <;> cases hb <;> rfl

/-- A rejected name counts as a malformed HEAD. -/
theorem answer_ofInvalid (root : Path) (e : InvalidIdentifier) :
    Verdict.Of root (answer root (.error (.ofInvalid e))) .noCurrentBranch := by
  unfold ReadError.ofInvalid
  cases e.kind with
  | objectId => exact .noCurrentBranch
  | refName => exact .noCurrentBranch
  | branchName => exact .noCurrentBranch

/-- A HEAD that points at nothing is reported as no current branch. -/
theorem answer_pointless {text : String} (h : t.readText l.head = .ok text) (hnot : ¬ Points text) :
    Verdict.Of l.workDir (answer l.workDir (head t l)) .noCurrentBranch := by
  rcases RefFile.says_cases text with ⟨target, hvalue⟩ | ⟨oid, hvalue⟩ | hvalue
  · simp only [head, readOptional_of_text h, RefFile.parse_of_saysRef hvalue, bind, Except.bind]
    cases hshort : Text.after? RefName.heads target with
    | none => exact .noCurrentBranch
    | some short =>
      dsimp only
      cases hname : BranchName.ofRef short with
      | error e => exact answer_ofInvalid l.workDir e
      | ok b =>
        -- an accepted name would be that of a branch
        have htarget : target = (RefName.ofBranch b).text := by
          rw [Text.after?_eq_some_iff.1 hshort, ← BranchName.text_of_ofRef hname]
          rfl
        exact absurd (.inr ⟨b, htarget ▸ hvalue⟩) hnot
  · exact absurd (.inl ⟨oid, hvalue⟩) hnot
  · obtain ⟨problem, hproblem⟩ := RefFile.parse_of_malformed hvalue l.head
    simp only [head, readOptional_of_text h, hproblem, bind, Except.bind]
    exact .noCurrentBranch

/-- A HEAD that names a branch is that branch with the commit that is found for it. -/
theorem head_of_attached {b : BranchName} (h : Attached t l b) :
    head t l = (resolveRef t l (RefName.ofBranch b).text).map (.branch b) := by
  obtain ⟨text, htext, hvalue⟩ := h
  have hshort : Text.after? RefName.heads (RefName.ofBranch b).text = some b.text :=
    Text.after?_append _ _
  simp only [head, readOptional_of_text htext, RefFile.parse_of_saysRef hvalue, hshort,
    BranchName.ofRef_eq_ok b.valid, Except.mapError, bind, Except.bind]
  cases resolveRef t l (RefName.ofBranch b).text <;> rfl

/-- The verdict for a HEAD that names a branch goes by how the branch is read. -/
def Ending.verdict : Ending → Verdict
  | .found _ => .answered
  | .malformed => .noCurrentBranch
  | .refused => .unreadable

/-- A HEAD that names a branch is reported by how following the branch ends. -/
theorem answer_attached {b : BranchName} {ending : Ending} (h : Attached t l b)
    (hbranch : Follows t l symbolicLimit (RefName.ofBranch b).text ending) :
    Verdict.Of l.workDir (answer l.workDir (head t l)) ending.verdict := by
  have hends := hbranch.ends (RefName.ofBranch b).text
  rw [head_of_attached h, resolveRef]
  generalize resolveFrom t l _ _ _ = result at hends
  cases hends with
  | found => exact .answered
  | malformed => exact .noCurrentBranch
  | refused => exact .unreadable

/-- A HEAD is reported in the way that has a derivation. -/
theorem Reported.verdict {v : Verdict} (h : Reported t l v) :
    Verdict.Of l.workDir (answer l.workDir (head t l)) v := by
  cases h with
  | missing h =>
    simp only [head, readOptional_of_missing h, bind, Except.bind]
    exact .noCurrentBranch
  | refused h hne =>
    simp only [head, readOptional_of_fault h hne, bind, Except.bind]
    exact .unreadable
  | pointless h hnot => exact answer_pointless h hnot
  | detached h hvalue =>
    simp only [head, readOptional_of_text h, RefFile.parse_of_saysId hvalue, bind, Except.bind]
    exact .answered
  | attached h hbranch => exact answer_attached h hbranch
  | branchMalformed h hbranch => exact answer_attached h hbranch
  | branchRefused h hbranch => exact answer_attached h hbranch

/-- A HEAD is reported in some way. -/
theorem exists_reported (t : FileTree) (l : Layout) : ∃ v, Reported t l v := by
  rcases readText_cases t l.head with h | ⟨fault, h, hne⟩ | ⟨text, h⟩
  · exact ⟨_, .missing h⟩
  · exact ⟨_, .refused h hne⟩
  · by_cases hpoints : Points text
    · rcases hpoints with ⟨oid, hvalue⟩ | ⟨b, hvalue⟩
      · exact ⟨_, .detached h hvalue⟩
      · have hattached : Attached t l b := ⟨text, h, hvalue⟩
        obtain ⟨ending, hbranch⟩ :=
          exists_follows t l symbolicLimit (RefName.ofBranch b).text
        cases ending with
        | found oid => exact ⟨_, .attached hattached hbranch⟩
        | malformed => exact ⟨_, .branchMalformed hattached hbranch⟩
        | refused => exact ⟨_, .branchRefused hattached hbranch⟩
    · exact ⟨_, .pointless h hpoints⟩

/-- A HEAD is reported in exactly the ways that have a derivation. -/
theorem reported_iff {v : Verdict} :
    Reported t l v ↔ Verdict.Of l.workDir (answer l.workDir (head t l)) v := by
  refine ⟨Reported.verdict, fun hv => ?_⟩
  obtain ⟨v', hreported⟩ := exists_reported t l
  rw [hv.unique hreported.verdict]
  exact hreported

/-! ## A missing HEAD and a branch that cannot be followed -/

/-- The text of a file is that of its contents. -/
theorem readFile_of_text {path : Path} {text : String} (h : t.readText path = .ok text) :
    ∃ contents, t.readFile path = .ok contents ∧ FileTree.decodeText contents = .ok text :=
  bind_eq_ok.1 h

/-- A file is missing exactly when it is missing for a reader of its text. -/
theorem readFile_eq_notFound_iff {path : Path} :
    t.readFile path = .error .notFound ↔ t.readText path = .error .notFound := by
  rw [FileTree.readText]
  cases t.readFile path with
  | error fault => simp [bind, Except.bind]
  | ok contents =>
    show _ ↔ FileTree.decodeText contents = .error .notFound
    rcases decodeText_cases contents with ⟨text, htext⟩ | hnot
    · simp [htext]
    · simp [hnot]

/-- A HEAD that names a branch points at something. -/
theorem Attached.not_headless {b : BranchName} (h : Attached t l b) : ¬ Headless t l := by
  obtain ⟨text, htext, hvalue⟩ := h
  obtain ⟨contents, hfile, hdecode⟩ := readFile_of_text htext
  rintro (hmissing | ⟨other, hother, hnot⟩)
  · cases hmissing.symm.trans hfile
  · obtain rfl := Except.ok.inj (hother.symm.trans hfile)
    exact hnot text hdecode (.inr ⟨b, hvalue⟩)

variable (t l)

/-- The contents of HEAD are no text. -/
def HeadGarbled : Prop :=
  ∃ contents, t.readFile l.head = .ok contents ∧ FileTree.decodeText contents = .error .notText

variable {t l}

/-- A HEAD whose contents are no text is reported as metadata that cannot be read. -/
theorem HeadGarbled.reported (h : HeadGarbled t l) : Reported t l .unreadable := by
  obtain ⟨contents, hfile, hdecode⟩ := h
  have htext : t.readText l.head = .error .notText := by
    rw [FileTree.readText, hfile]
    exact hdecode
  exact .refused htext (by decide)

/-- Reading HEAD is reported in the one way that has a derivation: as known, as no current branch or
as metadata that cannot be read. No current branch stands for a missing or pointless HEAD, except
that a HEAD which is no text counts as unreadable and a malformed file on the way from the branch to
its commit counts as no current branch. -/
theorem resolveHead_verdict (w : World) (l : Layout) :
    (∃ v, Reported w.tree l v) ∧
      (∀ v, Reported w.tree l v ↔ Verdict.Of l.workDir (resolveHead .files w l).1 v) ∧
      ((Verdict.Of l.workDir (resolveHead .files w l).1 .noCurrentBranch ↔ Headless w.tree l) ↔
        ¬ HeadGarbled w.tree l ∧ ∀ b, Attached w.tree l b →
          ¬ Follows w.tree l symbolicLimit (RefName.ofBranch b).text .malformed) := by
  rw [resolveHead_files_eq]
  refine ⟨exists_reported w.tree l, fun v => reported_iff, ?_⟩
  rw [← reported_iff]
  constructor
  · intro h
    constructor
    · intro hgarbled
      obtain ⟨contents, hfile, hdecode⟩ := hgarbled
      have hheadless : Headless w.tree l := by
        refine .inr ⟨contents, hfile, fun text htext => ?_⟩
        cases htext.symm.trans hdecode
      have hunreadable := HeadGarbled.reported ⟨contents, hfile, hdecode⟩
      cases (h.2 hheadless).verdict.unique hunreadable.verdict
    · intro b hattached hmalformed
      exact hattached.not_headless (h.1 (.branchMalformed hattached hmalformed))
  · rintro ⟨hgarbled, hfollows⟩
    constructor
    · intro hreported
      cases hreported with
      | missing h => exact .inl (readFile_eq_notFound_iff.2 h)
      | @pointless text h hnot =>
        obtain ⟨contents, hfile, hdecode⟩ := readFile_of_text h
        refine .inr ⟨contents, hfile, fun other hother => ?_⟩
        obtain rfl := Except.ok.inj (hdecode.symm.trans hother)
        exact hnot
      | branchMalformed hattached hmalformed => exact absurd hmalformed (hfollows _ hattached)
    · rintro (hmissing | ⟨contents, hfile, hnot⟩)
      · exact .missing (readFile_eq_notFound_iff.1 hmissing)
      · rcases decodeText_cases contents with ⟨text, htext⟩ | hdecode
        · have hread : w.tree.readText l.head = .ok text := by
            rw [FileTree.readText, hfile]
            exact htext
          exact .pointless hread (hnot text htext)
        · exact absurd ⟨contents, hfile, hdecode⟩ hgarbled

/-! ## A branch with a malformed packed file -/

/-- A clone on a branch without commits, with a packed file that holds no reference. -/
def packedGarbage : FileTree :=
  onTopic.place ["r", ".git", "packed-refs"] (.file "garbage\n".toUTF8)

/-- A clone with a HEAD that is no text. -/
def headGarbage : FileTree :=
  FileTree.empty.place ["r", ".git", "HEAD"] (.file ⟨#[0xff, 0x0a]⟩)

/-- A malformed packed file is reported as no current branch although HEAD names a branch, and a
HEAD that is no text is reported as metadata that cannot be read. -/
theorem malformed_packed_reported :
    Attached packedGarbage sharedLayout topic ∧ ¬ Headless packedGarbage sharedLayout ∧
      Verdict.Of ⟨"/r"⟩ (resolveHead .files ⟨packedGarbage, .empty⟩ sharedLayout).1
        .noCurrentBranch ∧
      Headless headGarbage sharedLayout ∧
      Verdict.Of ⟨"/r"⟩ (resolveHead .files ⟨headGarbage, .empty⟩ sharedLayout).1 .unreadable := by
  have hattached : Attached packedGarbage sharedLayout topic := by
    refine ⟨"ref: refs/heads/topic\n", by decide +kernel, " refs/heads/topic", ?_, ?_⟩ <;>
      decide +kernel
  have hhead : head packedGarbage sharedLayout =
      .error (.corrupt ⟨"/r/.git/packed-refs"⟩ "line 1: expected '<oid> <refname>'") := by
    decide +kernel
  refine ⟨hattached, hattached.not_headless, ?_, ?_, ?_⟩
  · rw [resolveHead_files_eq, hhead]
    exact .noCurrentBranch
  · refine .inr ⟨⟨#[0xff, 0x0a]⟩, by rfl, fun text htext => ?_⟩
    have hnot : FileTree.decodeText ⟨#[0xff, 0x0a]⟩ = .error .notText := by decide +kernel
    cases htext.symm.trans hnot
  · have hgarbled : HeadGarbled headGarbage sharedLayout :=
      ⟨⟨#[0xff, 0x0a]⟩, by rfl, by decide +kernel⟩
    rw [resolveHead_files_eq]
    exact hgarbled.reported.verdict

end WorktreeTracker.PlainReader
