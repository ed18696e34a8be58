import WorktreeTracker.Proofs.Locate

/-!
# Located directories are there

Whatever the files are, a root that is located has its metadata in directories that are there. Each of
them is the directory that was looked for: the marker itself, or the one that a line of a file names.
The shared directory is normalized once more after it was looked for, which changes nothing.
-/

namespace WorktreeTracker

open Locate

variable {t : FileTree}

/-- A marker that is a directory is no marker file, and the other way round. -/
theorem isDirectory_marker_of_readMarker {root marker gitDir : Path}
    (h : readMarker t root marker = .ok gitDir) : t.isDirectory marker = false := by
  obtain ⟨text, -, htext, -⟩ := readMarker_eq_ok.1 h
  obtain ⟨contents, hentry⟩ := FileTree.entry_of_readText htext
  rw [FileTree.isDirectory, hentry]

/-- The directory that a marker file names is there. -/
theorem isDirectory_of_readMarker {root marker gitDir : Path}
    (h : readMarker t root marker = .ok gitDir) : t.isDirectory gitDir = true := by
  obtain ⟨text, target, -, -, hdirectory, rfl⟩ := readMarker_eq_ok.1 h
  exact hdirectory

/-- The shared directory of a worktree whose metadata is there is there. -/
theorem isDirectory_of_readCommonDir {gitDir commonDir : Path}
    (hgitDir : t.isDirectory gitDir = true) (h : readCommonDir t gitDir = .ok commonDir) :
    t.isDirectory commonDir = true := by
  rcases readCommonDir_eq_ok.1 h with ⟨-, hsame⟩ | ⟨text, -, -, hdirectory, hnamed⟩
  · rw [hsame]
    exact hgitDir
  · rw [hnamed]
    exact hdirectory

/-- The shared directory of a worktree is its own one without a file `commondir`. -/
theorem commonDir_of_readCommonDir {gitDir commonDir : Path}
    (h : readCommonDir t gitDir = .ok commonDir) :
    (t.isFile (gitDir / "commondir") = false → commonDir = gitDir) ∧
      (t.isFile (gitDir / "commondir") = true →
        ∃ text, t.readText (gitDir / "commondir") = .ok text ∧
          commonDir = resolveTarget gitDir (Text.trim text)) := by
  rcases readCommonDir_eq_ok.1 h with ⟨hmissing, hsame⟩ | ⟨text, htext, -, -, hnamed⟩
  · refine ⟨fun _ => hsame, fun hfile => ?_⟩
    obtain ⟨place, contents, hfound⟩ := FileTree.isFile_iff.1 hfile
    cases hfound.symm.trans (FileTree.readText_eq_notFound_iff.1 hmissing)
  · refine ⟨fun hnone => ?_, fun _ => ⟨text, htext, hnamed⟩⟩
    obtain ⟨place, contents, hfound, -⟩ := FileTree.readText_eq_ok_iff.1 htext
    rw [FileTree.isFile_iff.2 ⟨place, contents, hfound⟩] at hnone
    cases hnone

/-- What locating a root gives. The working directory is the root, and both metadata directories are
there. When the marker is a directory it is both of them. Otherwise the metadata of the worktree is in
the directory that the marker names, and the shared metadata is there, too, or in the directory that
the file `commondir` names when there is one. Each is the path that was looked for, since normalizing
a normalized path changes nothing. -/
theorem locate_directories {root : Path} {l : Layout} (h : locate t root = .ok l) :
    l.workDir = root ∧ t.isDirectory l.gitDir = true ∧ t.isDirectory l.commonDir = true ∧
      (t.isDirectory (root / markerName) = true → l.gitDir = root / markerName) ∧
      (t.isDirectory (root / markerName) = false →
        ∃ text target, t.readText (root / markerName) = .ok text ∧
          gitDirTarget? text = some target ∧ l.gitDir = resolveTarget root target) ∧
      (t.isDirectory (root / markerName) = true ∨ t.isFile (l.gitDir / "commondir") = false →
        l.gitDir = l.commonDir) ∧
      (t.isDirectory (root / markerName) = false → t.isFile (l.gitDir / "commondir") = true →
        ∃ text, t.readText (l.gitDir / "commondir") = .ok text ∧
          l.commonDir = resolveTarget l.gitDir (Text.trim text)) ∧
      ∀ p : Path, p.normalize.normalize = p.normalize := by
  rcases locate_eq_ok.1 h with ⟨hentry, rfl⟩ | ⟨gitDir, commonDir, hgitDir, hcommonDir, rfl⟩
  · have hmarker : t.isDirectory (root / markerName) = true := by
      rw [FileTree.isDirectory, hentry]
    refine ⟨rfl, hmarker, hmarker, fun _ => rfl, fun hfile => ?_, fun _ => rfl, fun hfile => ?_,
      Path.normalize_normalize⟩
    · rw [hmarker] at hfile
      cases hfile
    · rw [hmarker] at hfile
      cases hfile
  · have hmarker := isDirectory_marker_of_readMarker hgitDir
    have hthere := isDirectory_of_readMarker hgitDir
    obtain ⟨hsame, hnamed⟩ := commonDir_of_readCommonDir hcommonDir
    obtain ⟨text, target, htext, htarget, -, hresolved⟩ := readMarker_eq_ok.1 hgitDir
    refine ⟨rfl, hthere, isDirectory_of_readCommonDir hthere hcommonDir, fun hclone => ?_,
      fun _ => ⟨text, target, htext, htarget, hresolved⟩, fun hnone => ?_, fun _ => hnamed,
      Path.normalize_normalize⟩
    · rw [hmarker] at hclone
      cases hclone
    · refine (hsame (hnone.resolve_left ?_)).symm
      rw [hmarker]
      exact Bool.false_ne_true

/-- A clone with a linked worktree. Both files of the worktree name their directories by relative
paths that go up first. -/
def linkedWorktree : FileTree where
  entries := [
    (["r"], .directory), (["r", ".git"], .directory), (["r", ".git", "worktrees"], .directory),
    (["r", ".git", "worktrees", "w"], .directory),
    (["r", ".git", "worktrees", "w", "commondir"], .file "../..\n".toUTF8),
    (["w"], .directory), (["w", ".git"], .file "gitdir: ../r/.git/worktrees/w\n".toUTF8)]
  workingDirectory := []
  named := by decide

/-- The shared directory of the worktree is that of the clone, and it is there. -/
theorem locate_directories_worktree :
    locate linkedWorktree ⟨"/w"⟩ = .ok ⟨⟨"/w"⟩, ⟨"/r/.git/worktrees/w"⟩, ⟨"/r/.git"⟩⟩ ∧
      linkedWorktree.isDirectory ⟨"/r/.git/worktrees/w"⟩ = true ∧
      linkedWorktree.isDirectory ⟨"/r/.git"⟩ = true ∧
      ∃ text, linkedWorktree.readText ⟨"/r/.git/worktrees/w/commondir"⟩ = .ok text ∧
        resolveTarget ⟨"/r/.git/worktrees/w"⟩ (Text.trim text) = ⟨"/r/.git"⟩ := by
  have hlocate : locate linkedWorktree ⟨"/w"⟩ =
      .ok ⟨⟨"/w"⟩, ⟨"/r/.git/worktrees/w"⟩, ⟨"/r/.git"⟩⟩ := by decide +kernel
  obtain ⟨-, hgitDir, hcommonDir, -, -, -, hnamed, -⟩ := locate_directories hlocate
  obtain ⟨text, htext, hresolved⟩ := hnamed (by decide +kernel) (by decide +kernel)
  exact ⟨hlocate, hgitDir, hcommonDir, text, htext, hresolved.symm⟩

end WorktreeTracker
