import WorktreeTracker.Proofs.FileTree.Walked
import WorktreeTracker.Proofs.Locate.Directories
import WorktreeTracker.Proofs.PlainReader.LooseFile

/-!
# Directories named by relative paths

The files of a linked worktree may name its directories by relative paths. Such a path is put after
the directory of the file and normalized before it is looked for, so it is followed to the directory
that it names exactly when normalizing keeps where it leads: the path that comes out starts at the
root directory, or it climbs no two levels above its start. An absolute root is always safe.
-/

namespace WorktreeTracker

open WorktreeTracker.Path Locate

namespace Locate

/-- The marker file of `root` names the directory at `own`. -/
structure MarkerNames (t : FileTree) (root : Path) (target : String) (own : Location) : Prop where
  read : ∃ text, t.readText (root / markerName) = .ok text ∧ gitDirTarget? text = some target
  leads : t.resolve (root.join ⟨target⟩) true = .ok (own, .directory)

/-- The file `commondir` in `gitDir` names the directory at `shared`. -/
structure CommonDirNames (t : FileTree) (gitDir : Path) (target : String) (shared : Location) :
    Prop where
  read : ∃ text, t.readText (gitDir / "commondir") = .ok text ∧ Text.trim text = target
  nonempty : target ≠ ""
  leads : t.resolve (gitDir.join ⟨target⟩) true = .ok (shared, .directory)

/-- Normalizing keeps where `target` leads after `base`: no levels are lost that count where the path
starts, and something is left of it. -/
def Followed (t : FileTree) (base : Path) (target : String) : Prop :=
  (base.join ⟨target⟩).KeepsPlace (t.start (base.join ⟨target⟩)) ∧
    (resolveTarget base target).text ≠ ""

instance (t : FileTree) (base : Path) (target : String) : Decidable (Followed t base target) :=
  inferInstanceAs (Decidable (_ ∧ _))

variable {t : FileTree} {root gitDir : Path} {target : String} {own shared : Location}

/-- From an absolute path, and to one, every path is followed, and to an absolute path. -/
theorem followed_of_isAbsolute (h : root.isAbsolute = true ∨ (Path.mk target).isAbsolute = true) :
    Followed t root target ∧ (resolveTarget root target).isAbsolute = true := by
  have hjoined : (root.join ⟨target⟩).isAbsolute = true := by
    cases htarget : (Path.mk target).isAbsolute with
    | true => rwa [join, htarget, Bool.true_or, if_pos rfl]
    | false =>
      rw [htarget] at h
      exact (root.isAbsolute_div htarget).trans (h.resolve_right Bool.false_ne_true)
  have habsolute : (resolveTarget root target).isAbsolute = true :=
    (root.join ⟨target⟩).normalize_cases.1.trans hjoined
  refine ⟨⟨.inl hjoined, fun hempty => ?_⟩, habsolute⟩
  rw [isAbsolute, hempty] at habsolute
  cases habsolute

/-- The directory that is found for a marker file is the normalized path of the one that it names. -/
theorem MarkerNames.eq_of_readMarker (h : MarkerNames t root target own) {found : Path}
    (hfound : readMarker t root (root / markerName) = .ok found) :
    found = resolveTarget root target := by
  obtain ⟨text, htext, htarget⟩ := h.read
  obtain ⟨text', target', htext', htarget', -, hnamed⟩ := readMarker_eq_ok.1 hfound
  obtain rfl := Except.ok.inj (htext.symm.trans htext')
  obtain rfl := Option.some.inj (htarget.symm.trans htarget')
  exact hnamed

/-- A root with a marker file is located by what its files name. -/
theorem MarkerNames.locate_eq_ok_iff (h : MarkerNames t root target own) {l : Layout} :
    locate t root = .ok l ↔ l.workDir = root ∧
      readMarker t root (root / markerName) = .ok l.gitDir ∧
      readCommonDir t l.gitDir = .ok l.commonDir := by
  rw [locate_eq_ok]
  constructor
  · rintro (⟨hentry, -⟩ | ⟨gitDir, commonDir, hgitDir, hcommonDir, rfl⟩)
    · obtain ⟨text, htext, -⟩ := h.read
      obtain ⟨place, contents, hfound, -⟩ := FileTree.readText_eq_ok_iff.1 htext
      rw [FileTree.entry, hfound] at hentry
      cases hentry
    · exact ⟨rfl, hgitDir, hcommonDir⟩
  · rintro ⟨rfl, hgitDir, hcommonDir⟩
    exact .inr ⟨l.gitDir, l.commonDir, hgitDir, hcommonDir, rfl⟩

/-- The directory that a marker file names is found exactly when normalizing keeps where it is. -/
theorem MarkerNames.readMarker_iff (hfree : t.LinkFree) (h : MarkerNames t root target own) :
    (∃ found, readMarker t root (root / markerName) = .ok found ∧
        t.resolve found true = .ok (own, .directory)) ↔ Followed t root target := by
  rw [Followed, resolveTarget, ← hfree.resolve_normalize_iff h.leads, ← resolveTarget]
  constructor
  · rintro ⟨found, hfound, hleads⟩
    rw [← h.eq_of_readMarker hfound]
    exact hleads
  · intro hleads
    obtain ⟨text, htext, htarget⟩ := h.read
    have hdirectory := FileTree.isDirectory_iff.2 ⟨own, hleads⟩
    exact ⟨_, readMarker_eq_ok.2 ⟨text, target, htext, htarget, hdirectory, rfl⟩, hleads⟩

/-- The directory that a file `commondir` names is found exactly when normalizing keeps where it
is. -/
theorem CommonDirNames.readCommonDir_iff (hfree : t.LinkFree)
    (h : CommonDirNames t gitDir target shared) :
    (∃ found, readCommonDir t gitDir = .ok found ∧
        t.resolve found true = .ok (shared, .directory)) ↔ Followed t gitDir target := by
  obtain ⟨text, htext, rfl⟩ := h.read
  rw [Followed, resolveTarget, ← hfree.resolve_normalize_iff h.leads, ← resolveTarget]
  constructor
  · rintro ⟨found, hfound, hleads⟩
    rcases readCommonDir_eq_ok.1 hfound with ⟨hmissing, -⟩ | ⟨text', htext', -, -, hnamed⟩
    · cases htext.symm.trans hmissing
    · obtain rfl := Except.ok.inj (htext.symm.trans htext')
      rw [← hnamed]
      exact hleads
  · intro hleads
    have hdirectory := FileTree.isDirectory_iff.2 ⟨shared, hleads⟩
    exact ⟨_, readCommonDir_eq_ok.2 (.inr ⟨text, htext, h.nonempty, hdirectory, rfl⟩), hleads⟩

end Locate

/-- What normalizing keeps. A path leads by its components where it led exactly when it starts at the
root directory, climbs one level at most, or starts so close to the root directory that the lost levels
do not count. So in a tree without links a root that is located has the directories that its files
name exactly when normalizing keeps the paths to them, and for an absolute root it always does. -/
theorem locate_named_iff (t : FileTree) :
    (∀ (p : Path) (here : Location),
      p.normalize.placeFrom here = p.placeFrom here ↔ p.KeepsPlace here) ∧
    (∀ (base : Path) (target : String),
      base.isAbsolute = true ∨ (Path.mk target).isAbsolute = true →
        Followed t base target ∧ (resolveTarget base target).isAbsolute = true) ∧
    ∀ (root : Path) (target : String) (own : Location), t.LinkFree →
      MarkerNames t root target own →
      (t.readText (resolveTarget root target / "commondir") = .error .notFound →
        ((∃ l, locate t root = .ok l ∧ t.resolve l.gitDir true = .ok (own, .directory) ∧
            t.resolve l.commonDir true = .ok (own, .directory)) ↔ Followed t root target)) ∧
      ∀ (target' : String) (shared : Location),
        CommonDirNames t (resolveTarget root target) target' shared →
        ((∃ l, locate t root = .ok l ∧ t.resolve l.gitDir true = .ok (own, .directory) ∧
            t.resolve l.commonDir true = .ok (shared, .directory)) ↔
          Followed t root target ∧ Followed t (resolveTarget root target) target') := by
  refine ⟨placeFrom_normalize_iff, fun base target => followed_of_isAbsolute, ?_⟩
  intro root target own hfree hmarker
  refine ⟨fun hmissing => ?_, fun target' shared hnamed => ?_⟩
  · rw [← hmarker.readMarker_iff hfree]
    constructor
    · rintro ⟨l, hl, hgitDir, -⟩
      exact ⟨l.gitDir, (hmarker.locate_eq_ok_iff.1 hl).2.1, hgitDir⟩
    · rintro ⟨found, hfound, hleads⟩
      rw [← hmarker.eq_of_readMarker hfound] at hmissing
      have hcommonDir : readCommonDir t found = .ok found :=
        readCommonDir_eq_ok.2 (.inl ⟨hmissing, rfl⟩)
      exact ⟨⟨root, found, found⟩, hmarker.locate_eq_ok_iff.2 ⟨rfl, hfound, hcommonDir⟩, hleads,
        hleads⟩
  · rw [← hmarker.readMarker_iff hfree, ← hnamed.readCommonDir_iff hfree]
    constructor
    · rintro ⟨l, hl, hgitDir, hcommonDir⟩
      obtain ⟨-, hfound, hshared⟩ := hmarker.locate_eq_ok_iff.1 hl
      refine ⟨⟨l.gitDir, hfound, hgitDir⟩, l.commonDir, ?_, hcommonDir⟩
      rwa [hmarker.eq_of_readMarker hfound] at hshared
    · rintro ⟨⟨found, hfound, hgitDir⟩, common, hshared, hcommonDir⟩
      rw [← hmarker.eq_of_readMarker hfound] at hshared
      exact ⟨⟨root, found, common⟩, hmarker.locate_eq_ok_iff.2 ⟨rfl, hfound, hshared⟩, hgitDir,
        hcommonDir⟩

/-- A worktree whose marker goes up from it by more levels than it is below the working directory. -/
def distantWorktree : FileTree where
  entries := [
    (["a"], .directory), (["a", "b"], .directory), (["a", "b", "w"], .directory),
    (["a", "b", "w", ".git"], .file "gitdir: ../../../g\n".toUTF8), (["g"], .directory)]
  workingDirectory := ["a", "b"]
  named := by decide

theorem linkFree_linkedWorktree : linkedWorktree.LinkFree :=
  PlainReader.linkFree_of_entries (by decide +kernel)

theorem linkFree_distantWorktree : distantWorktree.LinkFree :=
  PlainReader.linkFree_of_entries (by decide +kernel)

/-- From a relative root both directories of the linked worktree are found. From an absolute root the
directory far above the other worktree is found. -/
theorem locate_named_worktrees :
    (∃ l, locate linkedWorktree ⟨"w"⟩ = .ok l ∧
      linkedWorktree.resolve l.gitDir true =
        .ok (["r", ".git", "worktrees", "w"], .directory) ∧
      linkedWorktree.resolve l.commonDir true = .ok (["r", ".git"], .directory)) ∧
    ∃ l, locate distantWorktree ⟨"/a/b/w"⟩ = .ok l ∧
      distantWorktree.resolve l.gitDir true = .ok (["g"], .directory) ∧
      distantWorktree.resolve l.commonDir true = .ok (["g"], .directory) := by
  have hmarker : MarkerNames linkedWorktree ⟨"w"⟩ "../r/.git/worktrees/w"
      ["r", ".git", "worktrees", "w"] :=
    ⟨⟨"gitdir: ../r/.git/worktrees/w\n", by decide +kernel, by decide +kernel⟩, rfl⟩
  have hcommon : CommonDirNames linkedWorktree ⟨"r/.git/worktrees/w"⟩ "../.." ["r", ".git"] :=
    ⟨⟨"../..\n", by decide +kernel, by decide +kernel⟩, by decide, rfl⟩
  have htarget : resolveTarget ⟨"w"⟩ "../r/.git/worktrees/w" = ⟨"r/.git/worktrees/w"⟩ := by
    decide +kernel
  have hdistant : MarkerNames distantWorktree ⟨"/a/b/w"⟩ "../../../g" ["g"] :=
    ⟨⟨"gitdir: ../../../g\n", by decide +kernel, by decide +kernel⟩, rfl⟩
  constructor
  · obtain ⟨-, -, hnamed⟩ := locate_named_iff linkedWorktree
    obtain ⟨-, hboth⟩ := hnamed _ _ _ linkFree_linkedWorktree hmarker
    rw [htarget] at hboth
    exact (hboth _ _ hcommon).2 ⟨by decide +kernel, by decide +kernel⟩
  · obtain ⟨-, habsolute, hnamed⟩ := locate_named_iff distantWorktree
    obtain ⟨halone, -⟩ := hnamed _ _ _ linkFree_distantWorktree hdistant
    exact (halone (by decide +kernel)).2 (habsolute _ _ (.inl (by decide +kernel))).1

/-- Two levels are lost where no names match them: normalized, the path stays where it starts. So from
a relative root the directory that the marker names is looked for in the working directory. -/
theorem locate_named_lost :
    (Path.mk "../..").placeFrom ["a", "b"] = [] ∧
      (Path.mk "../..").normalize.placeFrom ["a", "b"] = ["a", "b"] ∧
      distantWorktree.LinkFree ∧ MarkerNames distantWorktree ⟨"w"⟩ "../../../g" ["g"] ∧
      locate distantWorktree ⟨"w"⟩ =
        .error (.corrupt ⟨"w/.git"⟩ "gitdir does not exist: g") := by
  have hmarker : MarkerNames distantWorktree ⟨"w"⟩ "../../../g" ["g"] :=
    ⟨⟨"gitdir: ../../../g\n", by decide +kernel, by decide +kernel⟩, rfl⟩
  exact ⟨by decide +kernel, by decide +kernel, linkFree_distantWorktree, hmarker,
    by decide +kernel⟩

end WorktreeTracker
