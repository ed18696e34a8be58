import WorktreeTracker.Path

/-!
# Layout of a tracked root

The three directories of a root: its working directory, the metadata of its own worktree and the
metadata that all worktrees of a repository share. HEAD and the markers of an operation are read
from the worktree's directory, references and configuration from the shared one.
-/

namespace WorktreeTracker

/-- Whether a root is a primary clone or a linked worktree. -/
inductive Context where
  /-- The root of a primary clone. -/
  | primary
  /-- The root of a linked worktree. -/
  | worktree
deriving DecidableEq, Repr

/-- How a context is shown in tables. -/
def Context.display : Context → String
  | .primary => "primary"
  | .worktree => "worktree"

/-- How a context is written in JSON. -/
def Context.jsonName : Context → String
  | .primary => "normal"
  | .worktree => "worktree"

/-- The directories of a tracked root. -/
structure Layout where
  /-- The working directory, which is the root itself. -/
  workDir : Path
  /-- The metadata of this worktree. -/
  gitDir : Path
  /-- The metadata shared by every worktree of the repository. -/
  commonDir : Path
deriving DecidableEq, Repr

namespace Layout

/-- Whether the three directories of two layouts have the same components. -/
def same (a b : Layout) : Bool :=
  a.workDir.same b.workDir && a.gitDir.same b.gitDir && a.commonDir.same b.commonDir

/-- Whether the root is a linked worktree: its metadata is apart from the shared one. -/
def isWorktree (l : Layout) : Bool :=
  !l.gitDir.same l.commonDir

/-- The context that the directories show. -/
def context (l : Layout) : Context :=
  if l.isWorktree then .worktree else .primary

/-! ## Files of the worktree -/

/-- The file HEAD. -/
def head (l : Layout) : Path := l.gitDir / "HEAD"

/-- The file or directory that marks an operation in progress. -/
def marker (l : Layout) (name : String) : Path := l.gitDir / name

/-! ## Files shared by the worktrees -/

/-- The directory of loose references. -/
def refs (l : Layout) : Path := l.commonDir / "refs"

/-- The file of a loose reference by its full name. -/
def looseRef (l : Layout) (name : String) : Path := l.commonDir / name

/-- The file of packed references. -/
def packedRefs (l : Layout) : Path := l.commonDir / "packed-refs"

/-- The configuration of the repository. -/
def config (l : Layout) : Path := l.commonDir / "config"

/-- The settings of the tracker for this repository. -/
def trackerSettings (l : Layout) : Path := l.commonDir / "worktrack" / "config.toml"

end Layout

end WorktreeTracker
