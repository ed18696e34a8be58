import WorktreeTracker.Name
import WorktreeTracker.ObjectId

/-!
# What a store reads

The answers of the three reads of a refresh: where HEAD points, the listing of branches and remotes,
and the operation in progress.
-/

namespace WorktreeTracker

/-! ## HEAD and references -/

/-- Where the HEAD of a worktree points. -/
inductive HeadTarget where
  /-- A local branch, with its commit unless it has none yet. -/
  | branch (name : BranchName) (oid : Option Oid)
  /-- A commit. -/
  | detached (oid : Oid)
deriving DecidableEq

/-- The branch that a local branch tracks, as configured. -/
structure Tracking where
  /-- The name of the remote. -/
  remote : String
  /-- The name of the branch on the remote. -/
  branch : BranchName
deriving DecidableEq

/-- A local branch as listed. -/
structure LocalRef where
  /-- The short name. -/
  name : BranchName
  /-- The commit. -/
  oid : Oid
  /-- The branch it tracks, when one is configured. -/
  tracking : Option Tracking
deriving DecidableEq

/-- A remote-tracking branch as listed. -/
structure RemoteRef where
  /-- The name of the remote. -/
  remote : String
  /-- The name of the branch on the remote. -/
  name : BranchName
  /-- The commit. -/
  oid : Oid
deriving DecidableEq

/-- A configured remote. -/
structure Remote where
  /-- The name of the remote. -/
  name : String
  /-- The addresses to fetch from. -/
  urls : List String
deriving DecidableEq, Repr

/-- Everything that a catalog of branches is built from. -/
structure Listing where
  /-- The local branches. -/
  locals : List LocalRef
  /-- The remote-tracking branches. -/
  tracked : List RemoteRef
  /-- The configured remotes. -/
  remotes : List Remote
deriving DecidableEq

/-- The listing of a repository without branches and remotes. -/
def Listing.empty : Listing := ⟨[], [], []⟩

/-- The branch that a merge setting names, with or without `refs/heads/` in front. -/
def mergeBranch? (merge : String) : Option BranchName :=
  (BranchName.ofRef ((Text.after? RefName.heads merge).getD merge)).toOption

/-- The tracked branch that the settings of a local branch name. The remote `.` stands for the
repository itself, which has no remote-tracking branches. -/
def Tracking.ofSettings? (remote merge : Option String) : Option Tracking := do
  let remote ← remote
  let merge ← merge
  guard (remote ≠ ".")
  let branch ← mergeBranch? merge
  return ⟨remote, branch⟩

/-! ## Operations -/

/-- The operation in progress in a worktree. -/
inductive OperationState where
  /-- No operation. -/
  | clean
  /-- A rebase, with the current step and the number of steps when they are known. -/
  | rebase (current total : Option Nat)
  /-- A merge. -/
  | merge
  /-- A cherry-pick. -/
  | cherryPick
  /-- A revert. -/
  | revert
  /-- A bisection. -/
  | bisect
  /-- The application of mailed patches. -/
  | applyMailbox
deriving DecidableEq, Repr

namespace OperationState

/-- Whether an operation is in progress. -/
def inProgress (s : OperationState) : Bool :=
  s ≠ .clean

/-- The name of the operation. -/
def name : OperationState → String
  | .clean => "clean"
  | .rebase _ _ => "rebase"
  | .merge => "merge"
  | .cherryPick => "cherry-pick"
  | .revert => "revert"
  | .bisect => "bisect"
  | .applyMailbox => "apply-mailbox"

/-- The name of the operation, with the progress of a rebase when both counts are known. -/
def display : OperationState → String
  | .rebase (some current) (some total) => s!"rebase ({current}/{total})"
  | s => s.name

end OperationState

end WorktreeTracker
