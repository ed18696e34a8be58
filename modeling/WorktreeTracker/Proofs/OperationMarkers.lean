import WorktreeTracker.Locate
import WorktreeTracker.Proofs.Repository.References

/-!
# Markers of an operation

Both readers tell the operation in progress from files and directories in the metadata of the
worktree. They try the markers in different orders and take different things for one: the plain
reader whatever is there, an opened repository a regular file. So they tell the same of a rebase in a
directory of its own, and of other operations only with the markers that `Agree` lists.
-/

namespace WorktreeTracker

namespace OperationMarkers

variable {t : FileTree} {gitDir : Path} {outer inner : String}

/-! ## Files in a marker -/

/-- A name in a directory that is named from where that directory is. -/
def Nested (outer inner : String) : Prop :=
  Path.Relative outer ∧ Path.Relative inner ∧ outer ≠ "" ∧ Text.endsWith "/" outer = false

instance : Decidable (Nested outer inner) := inferInstanceAs (Decidable (_ ∧ _))

theorem Nested.relative (h : Nested outer inner) : Path.Relative (outer ++ "/" ++ inner) := by
  obtain ⟨houter, -, hne, -⟩ := h
  rw [String.append_assoc, Path.Relative, Path.startsWith_append hne]
  exact houter

theorem Nested.div_div (h : Nested outer inner) :
    gitDir / outer / inner = gitDir / (outer ++ "/" ++ inner) := by
  obtain ⟨houter, hinner, hne, hend⟩ := h
  exact Path.div_div gitDir houter hinner hne hend

/-- Without a directory there is no file in it. -/
theorem Nested.isFile_eq_false (h : Nested outer inner)
    (hnone : t.isDirectory (gitDir / outer) = false) :
    t.isFile (gitDir / (outer ++ "/" ++ inner)) = false := by
  rw [← h.div_div]
  obtain ⟨houter, hinner, hne, hend⟩ := h
  by_contra hfile
  rw [Bool.not_eq_false] at hfile
  refine Bool.false_ne_true (hnone.symm.trans
    (FileTree.isDirectory_of_isPresent_div hinner ?_ ?_ (FileTree.isPresent_of_isFile hfile)))
  · rw [Path.text_div gitDir houter]
    split
    next => exact hne
    next => split <;> simp [hne]
  · rw [Path.text_div gitDir houter]
    split
    next => exact hend
    next => split <;> rw [Path.endsWith_append hne, hend]

/-! ## Markers that tell both readers the same -/

variable (t gitDir) in
/-- No rebase and no mailbox has a directory. -/
structure NoDirectories : Prop where
  /-- There is no directory of a rebase. -/
  merge : t.isDirectory (gitDir / "rebase-merge") = false
  /-- There is no directory of a mailbox. -/
  apply : t.isDirectory (gitDir / "rebase-apply") = false

variable (t gitDir) in
/-- The markers for which both readers tell the same operation. -/
inductive Agree : Prop where
  /-- A rebase has a directory of its own. -/
  | rebase (h : t.isDirectory (gitDir / "rebase-merge") = true)
  /-- The directory of a mailbox says whether a mailbox is applied or a rebase is in progress, and
  not both or neither. -/
  | mailbox (hmerge : t.isDirectory (gitDir / "rebase-merge") = false)
      (happly : t.isDirectory (gitDir / "rebase-apply") = true)
      (h : t.isPresent (gitDir / "rebase-apply/applying") =
        !t.isFile (gitDir / "rebase-apply/rebasing"))
  /-- A merge is marked by a regular file. -/
  | merge (hnone : NoDirectories t gitDir) (h : t.isFile (gitDir / "MERGE_HEAD") = true)
  /-- A cherry-pick is marked by a regular file, and no revert is. -/
  | cherryPick (hnone : NoDirectories t gitDir)
      (hmerge : t.isPresent (gitDir / "MERGE_HEAD") = false)
      (h : t.isFile (gitDir / "CHERRY_PICK_HEAD") = true)
      (hrevert : t.isFile (gitDir / "REVERT_HEAD") = false)
  /-- A revert is marked by a regular file, and nothing is there for a cherry-pick. -/
  | revert (hnone : NoDirectories t gitDir)
      (hmerge : t.isPresent (gitDir / "MERGE_HEAD") = false)
      (hpick : t.isPresent (gitDir / "CHERRY_PICK_HEAD") = false)
      (h : t.isFile (gitDir / "REVERT_HEAD") = true)
  /-- A bisection is marked by a regular file or not at all, and nothing is there for another
  operation. -/
  | bisect (hnone : NoDirectories t gitDir)
      (hmerge : t.isPresent (gitDir / "MERGE_HEAD") = false)
      (hpick : t.isPresent (gitDir / "CHERRY_PICK_HEAD") = false)
      (hrevert : t.isPresent (gitDir / "REVERT_HEAD") = false)
      (h : t.isPresent (gitDir / "BISECT_LOG") = t.isFile (gitDir / "BISECT_LOG"))

end OperationMarkers

open OperationMarkers

/-! ## What each reader tells -/

namespace PlainReader

variable {t : FileTree} {l : Layout}

/-- In the directory of a mailbox the plain reader looks for the file of a mailbox. -/
theorem state_of_mailbox (hmerge : t.isDirectory (l.gitDir / "rebase-merge") = false)
    (happly : t.isDirectory (l.gitDir / "rebase-apply") = true) :
    state t l =
      if t.isPresent (l.gitDir / "rebase-apply/applying") then .applyMailbox
      else rebase t l.gitDir := by
  simp only [state, Layout.marker, hmerge, happly, if_true, Bool.false_eq_true, if_false]
  rfl

/-- Without directories the plain reader looks for a cherry-pick before a revert. -/
theorem state_of_noDirectories (h : NoDirectories t l.gitDir) :
    state t l =
      if t.isPresent (l.gitDir / "MERGE_HEAD") then .merge
      else if t.isPresent (l.gitDir / "CHERRY_PICK_HEAD") then .cherryPick
      else if t.isPresent (l.gitDir / "REVERT_HEAD") then .revert
      else if t.isPresent (l.gitDir / "BISECT_LOG") then .bisect
      else .clean := by
  simp only [state, Layout.marker, h.merge, h.apply, Bool.false_eq_true, if_false]
  rfl

end PlainReader

namespace RepositoryReader

variable {t : FileTree} {l : Layout} {r : OpenRepository}

/-- In the directory of a mailbox an opened repository looks for the file of a rebase. -/
theorem state_of_mailbox (hmerge : t.isDirectory (r.gitDir / "rebase-merge") = false)
    (happly : t.isDirectory (r.gitDir / "rebase-apply") = true) :
    state t r =
      if t.isFile (r.gitDir / "rebase-apply/rebasing") then rebase t r.gitDir
      else .applyMailbox := by
  have hnested : Nested "rebase-merge" "interactive" := by decide
  have hinteractive : t.isFile (r.gitDir / "rebase-merge/interactive") = false :=
    hnested.isFile_eq_false hmerge
  simp [state, hinteractive, hmerge, happly]

/-- Without directories an opened repository looks for a revert before a cherry-pick. -/
theorem state_of_noDirectories (h : NoDirectories t r.gitDir) :
    state t r =
      if t.isFile (r.gitDir / "MERGE_HEAD") then .merge
      else if t.isFile (r.gitDir / "REVERT_HEAD") then .revert
      else if t.isFile (r.gitDir / "CHERRY_PICK_HEAD") then .cherryPick
      else if t.isFile (r.gitDir / "BISECT_LOG") then .bisect
      else .clean := by
  have hnested : Nested "rebase-merge" "interactive" ∧ Nested "rebase-apply" "rebasing" ∧
      Nested "rebase-apply" "applying" := by decide
  have hinteractive : t.isFile (r.gitDir / "rebase-merge/interactive") = false :=
    hnested.1.isFile_eq_false h.merge
  have hrebasing : t.isFile (r.gitDir / "rebase-apply/rebasing") = false :=
    hnested.2.1.isFile_eq_false h.apply
  have happlying : t.isFile (r.gitDir / "rebase-apply/applying") = false :=
    hnested.2.2.isFile_eq_false h.apply
  simp [state, hinteractive, hrebasing, happlying, h.merge, h.apply]

/-! ## The directory of the worktree -/

variable (t l r) in
/-- The directories of the worktree of both readers hold the same: a path below them leads to the
same place. -/
def SharesMarkers : Prop :=
  ∀ rel, Path.Relative rel → t.resolve (r.gitDir / rel) true = t.resolve (l.gitDir / rel) true

/-- A directory of the worktree that is named with a slash at its end is the same. -/
theorem sharesMarkers_of_asDirectory (hne : l.gitDir.text ≠ "")
    (h : r.gitDir = OpenRepository.asDirectory l.gitDir) : SharesMarkers t l r := by
  intro rel hrel
  rw [h, OpenRepository.asDirectory_div hne hrel]

theorem SharesMarkers.isDirectory_eq (h : SharesMarkers t l r) (name : String)
    (hname : Path.Relative name) :
    t.isDirectory (r.gitDir / name) = t.isDirectory (l.gitDir / name) :=
  FileTree.isDirectory_of_resolve (h name hname)

theorem SharesMarkers.isFile_eq (h : SharesMarkers t l r) (name : String)
    (hname : Path.Relative name) : t.isFile (r.gitDir / name) = t.isFile (l.gitDir / name) :=
  FileTree.isFile_of_resolve (h name hname)

/-- The progress of a rebase is read from the same files. -/
theorem SharesMarkers.rebase_eq (h : SharesMarkers t l r) :
    rebase t r.gitDir = rebase t l.gitDir := by
  have hcount (outer inner : String) (hnested : Nested outer inner) :
      readCount t (r.gitDir / outer / inner) = readCount t (l.gitDir / outer / inner) := by
    rw [hnested.div_div, hnested.div_div, readCount,
      FileTree.readText_of_resolve (h _ hnested.relative), readCount]
  simp only [rebase, rebaseProgress]
  rw [h.isDirectory_eq "rebase-merge" (by decide), h.isDirectory_eq "rebase-apply" (by decide),
    hcount "rebase-merge" "msgnum" (by decide), hcount "rebase-merge" "end" (by decide),
    hcount "rebase-apply" "next" (by decide), hcount "rebase-apply" "last" (by decide)]

/-- The operation is told from what is in the directory of the worktree, however that is named. -/
theorem SharesMarkers.state_eq (h : SharesMarkers t l r) :
    state t r = state t { r with gitDir := l.gitDir } := by
  simp only [state, h.rebase_eq, h.isFile_eq "rebase-merge/interactive" (by decide),
    h.isDirectory_eq "rebase-merge" (by decide), h.isFile_eq "rebase-apply/rebasing" (by decide),
    h.isFile_eq "rebase-apply/applying" (by decide), h.isDirectory_eq "rebase-apply" (by decide),
    h.isFile_eq "MERGE_HEAD" (by decide), h.isFile_eq "REVERT_HEAD" (by decide),
    h.isFile_eq "CHERRY_PICK_HEAD" (by decide), h.isFile_eq "BISECT_LOG" (by decide)]

/-! ## Both readers -/

/-- In the directory of a rebase both readers tell the rebase. -/
theorem state_same_of_rebase (hdir : r.gitDir = l.gitDir)
    (hmerge : t.isDirectory (l.gitDir / "rebase-merge") = true) :
    PlainReader.state t l = state t r := by
  simp [PlainReader.state, state, Layout.marker, hdir, hmerge]

/-- In the directory of a mailbox both readers tell the same when there is one of the two files. -/
theorem state_same_iff_of_mailbox (hdir : r.gitDir = l.gitDir)
    (hmerge : t.isDirectory (l.gitDir / "rebase-merge") = false)
    (happly : t.isDirectory (l.gitDir / "rebase-apply") = true) :
    PlainReader.state t l = state t r ↔ Agree t l.gitDir := by
  have hrebase : rebase t l.gitDir ≠ .applyMailbox := nofun
  have hagree : Agree t l.gitDir ↔ t.isPresent (l.gitDir / "rebase-apply/applying") =
      !t.isFile (l.gitDir / "rebase-apply/rebasing") := by
    constructor
    · rintro (h | ⟨-, -, h⟩ | ⟨⟨-, hnone⟩, -⟩ | ⟨⟨-, hnone⟩, -⟩ | ⟨⟨-, hnone⟩, -⟩ | ⟨⟨-, hnone⟩, -⟩)
      · cases hmerge.symm.trans h
      · exact h
      all_goals cases happly.symm.trans hnone
    · exact .mailbox hmerge happly
  rw [PlainReader.state_of_mailbox hmerge happly, hagree,
    state_of_mailbox (by rw [hdir, hmerge]) (by rw [hdir, happly]), hdir]
  cases t.isPresent (l.gitDir / "rebase-apply/applying") with
  | true =>
    cases t.isFile (l.gitDir / "rebase-apply/rebasing") with
    | true => simp [hrebase.symm]
    | false => simp
  | false =>
    cases t.isFile (l.gitDir / "rebase-apply/rebasing") with
    | true => simp
    | false => simp [hrebase]

/-- Without directories both readers tell the same when the files are those of one operation. -/
theorem state_same_iff_of_noDirectories (hdir : r.gitDir = l.gitDir)
    (hnone : NoDirectories t l.gitDir) :
    PlainReader.state t l = state t r ↔ Agree t l.gitDir := by
  have hpresent {name : String} (h : t.isFile (l.gitDir / name) = true) :
      t.isPresent (l.gitDir / name) = true :=
    FileTree.isPresent_of_isFile h
  have hfile {name : String} (h : t.isPresent (l.gitDir / name) = false) :
      t.isFile (l.gitDir / name) = false :=
    Bool.eq_false_iff.2 fun hfile => Bool.false_ne_true (h.symm.trans (hpresent hfile))
  rw [PlainReader.state_of_noDirectories hnone, state_of_noDirectories (by rwa [hdir]), hdir]
  constructor
  · -- the first marker that is there is what the plain reader tells, so it is a regular file
    intro hsame
    cases hmerge : t.isPresent (l.gitDir / "MERGE_HEAD") with
    | true => exact .merge hnone (by grind)
    | false =>
      cases hpick : t.isPresent (l.gitDir / "CHERRY_PICK_HEAD") with
      | true => exact .cherryPick hnone hmerge (by grind) (by grind)
      | false =>
        cases hrevert : t.isPresent (l.gitDir / "REVERT_HEAD") with
        | true => exact .revert hnone hmerge hpick (by grind)
        | false => exact .bisect hnone hmerge hpick hrevert (by grind)
  · rintro (h | ⟨-, h, -⟩ | ⟨-, h⟩ | ⟨-, hmerge, h, hrevert⟩ | ⟨-, hmerge, hpick, h⟩ |
      ⟨-, hmerge, hpick, hrevert, h⟩)
    · cases hnone.merge.symm.trans h
    · cases hnone.apply.symm.trans h
    · simp [h, hpresent h]
    · simp [h, hpresent h, hmerge, hfile hmerge, hrevert]
    · simp [h, hpresent h, hmerge, hfile hmerge, hpick]
    · simp [h, hmerge, hfile hmerge, hpick, hfile hpick, hrevert, hfile hrevert]

/-- Both readers tell the same operation, with the same progress, exactly for the markers of `Agree`.
They differ on a directory `rebase-apply` with both files that say what it is for or with neither,
on `CHERRY_PICK_HEAD` next to `REVERT_HEAD`, and on a marker that is no regular file. -/
theorem state_same_iff (h : SharesMarkers t l r) :
    PlainReader.state t l = state t r ↔ Agree t l.gitDir := by
  rw [h.state_eq]
  cases hmerge : t.isDirectory (l.gitDir / "rebase-merge") with
  | true => exact iff_of_true (state_same_of_rebase rfl hmerge) (.rebase hmerge)
  | false =>
    cases happly : t.isDirectory (l.gitDir / "rebase-apply") with
    | true => exact state_same_iff_of_mailbox rfl hmerge happly
    | false => exact state_same_iff_of_noDirectories rfl ⟨hmerge, happly⟩

/-! ## Markers of one clone -/

/-- A clone with the given markers of operations. -/
def markedClone (markers : List (Location × Entry)) : FileTree :=
  let own : List (Location × Entry) :=
    [([".git", "HEAD"], .file "ref: refs/heads/main\n".toUTF8), ([".git", "objects"], .directory),
      ([".git", "refs"], .directory)]
  (own ++ markers).foldl (fun t e => t.place ("r" :: e.1) e.2) .empty

/-- The directories of the clone. -/
def markedLayout : Layout := ⟨⟨"/r"⟩, ⟨"/r/.git"⟩, ⟨"/r/.git"⟩⟩

/-- The clone as an opened repository. -/
def markedRepository : OpenRepository := ⟨⟨"/r/.git/"⟩, ⟨"/r/.git/"⟩, ⟨"/r/"⟩, []⟩

/-- A rebase that uses the directory of a mailbox. -/
def appliedRebase : FileTree :=
  markedClone
    [([".git", "rebase-apply", "rebasing"], .file "".toUTF8),
      ([".git", "rebase-apply", "next"], .file "3\n".toUTF8),
      ([".git", "rebase-apply", "last"], .file "7\n".toUTF8)]

/-- The rebase has the file that says what it is, so an opened repository tells it like the plain
reader. -/
theorem state_same_appliedRebase :
    openAt appliedRebase ⟨"/r"⟩ = .ok markedRepository ∧
      PlainReader.state appliedRebase markedLayout = .rebase (some 3) (some 7) ∧
      state appliedRebase markedRepository = .rebase (some 3) (some 7) := by
  have hplain : PlainReader.state appliedRebase markedLayout = .rebase (some 3) (some 7) := by
    decide +kernel
  have hsame := (state_same_iff (t := appliedRebase) (l := markedLayout) (r := markedRepository)
    (sharesMarkers_of_asDirectory (by decide) (by decide))).2
      (.mailbox (by decide +kernel) (by decide +kernel) (by decide +kernel))
  exact ⟨by decide +kernel, hplain, hsame.symm.trans hplain⟩

/-- A directory of a mailbox that says nothing is a rebase for the plain reader and a mailbox for an
opened repository. A cherry-pick marked together with a revert is a cherry-pick for the one and a
revert for the other. -/
theorem state_differs :
    (∃ t, locate t ⟨"/r"⟩ = .ok markedLayout ∧ openAt t ⟨"/r"⟩ = .ok markedRepository ∧
      PlainReader.state t markedLayout = .rebase none none ∧
      state t markedRepository = .applyMailbox) ∧
    ∃ t, locate t ⟨"/r"⟩ = .ok markedLayout ∧ openAt t ⟨"/r"⟩ = .ok markedRepository ∧
      PlainReader.state t markedLayout = .cherryPick ∧ state t markedRepository = .revert := by
  refine ⟨⟨markedClone [([".git", "rebase-apply"], .directory)], ?_⟩,
    ⟨markedClone [([".git", "CHERRY_PICK_HEAD"], .file "".toUTF8),
      ([".git", "REVERT_HEAD"], .file "".toUTF8)], ?_⟩⟩
  · exact ⟨by decide +kernel, by decide +kernel, by decide +kernel, by decide +kernel⟩
  · exact ⟨by decide +kernel, by decide +kernel, by decide +kernel, by decide +kernel⟩

end RepositoryReader

end WorktreeTracker
