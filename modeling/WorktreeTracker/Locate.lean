import WorktreeTracker.Failure
import WorktreeTracker.Layout

/-!
# Locating the metadata of a root

The marker `.git` must sit directly in the root. A directory is the metadata of a primary clone. A
file names the metadata of a linked worktree, which in turn names the shared metadata in its file
`commondir`. Directories above the root are never searched.
-/

namespace WorktreeTracker

namespace Locate

/-- The name of the marker in a root. -/
def markerName : String := ".git"

/-- What the line of a marker file that names a directory starts with. -/
def gitDirLead : String := "gitdir:"

/-- The directory that `target` names when it is read in a file of `base`. -/
def resolveTarget (base : Path) (target : String) : Path :=
  (base.join ⟨target⟩).normalize

/-- The directory named in the text of a marker file. -/
def gitDirTarget? (text : String) : Option String := do
  let target ← (Text.lines text).findSome? fun line => Text.after? gitDirLead (Text.trim line)
  let target := Text.trim target
  guard (!target.isEmpty)
  return target

/-- The directory that the marker file of `root` names. -/
def readMarker (t : FileTree) (root marker : Path) : Except ReadError Path := do
  let text ← (t.readText marker).mapError (ReadError.ofFault marker)
  match gitDirTarget? text with
  | none => throw (.corrupt marker "expected 'gitdir: <path>'")
  | some target =>
    let gitDir := resolveTarget root target
    unless t.isDirectory gitDir do
      throw (.corrupt marker s!"gitdir does not exist: {gitDir}")
    return gitDir

/-- The shared directory of the worktree with metadata in `gitDir`. -/
def readCommonDir (t : FileTree) (gitDir : Path) : Except ReadError Path :=
  let file := gitDir / "commondir"
  match t.readText file with
  | .error .notFound => .ok gitDir
  | .error fault => .error (.ofFault file fault)
  | .ok text =>
    let target := Text.trim text
    let commonDir := resolveTarget gitDir target
    if target.isEmpty then .error (.corrupt file "empty commondir")
    else if t.isDirectory commonDir then .ok commonDir.normalize
    else .error (.corrupt file s!"commondir does not exist: {commonDir}")

end Locate

/-- The directories of the working directory `root`. -/
def locate (t : FileTree) (root : Path) : Except ReadError Layout :=
  let marker := root / Locate.markerName
  match t.entry marker with
  | .error .notFound => .error (.notARepository root)
  | .error fault => .error (.ofFault marker fault)
  | .ok .directory => .ok ⟨root, marker, marker⟩
  | .ok _ => do
    let gitDir ← Locate.readMarker t root marker
    let commonDir ← Locate.readCommonDir t gitDir
    return ⟨root, gitDir, commonDir⟩

end WorktreeTracker
