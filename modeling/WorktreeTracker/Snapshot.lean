import WorktreeTracker.Branch
import WorktreeTracker.Failure
import WorktreeTracker.Fingerprint
import WorktreeTracker.Layout
import WorktreeTracker.Listing

/-!
# Snapshots

A snapshot is one view of a tracked root and never changes. A root starts with the stale snapshot; a
refresh makes a fresh one, whose fingerprint covers its branches, its HEAD and the operation in
progress.
-/

namespace WorktreeTracker

/-! ## HEAD -/

/-- The current branch and commit of a worktree. Attached to a branch without commits, only the
branch is there; detached, only the commit. -/
structure Head where
  /-- The branch that is checked out. -/
  branch : Option BranchName
  /-- The commit that HEAD leads to. -/
  revision : Option Oid
deriving DecidableEq

namespace Head

/-- The HEAD of a snapshot that was never refreshed. -/
def unknown : Head := ⟨none, none⟩

/-- The branch and commit that HEAD points at. -/
def ofTarget : HeadTarget → Head
  | .branch name oid => ⟨some name, oid⟩
  | .detached oid => ⟨none, some oid⟩

/-- Whether HEAD holds a commit instead of a branch. -/
def isDetached (h : Head) : Bool :=
  h.branch.isNone && h.revision.isSome

/-- The branch that is checked out in `root`; without one, the reason. No other branch ever stands
in for it. -/
def requireBranch (h : Head) (root : Path) : Except TrackError BranchName :=
  match h.branch with
  | some name => .ok name
  | none =>
    .error (.noCurrentBranch root (match h.revision with
      | some oid => s!"HEAD is detached at {oid.short 7}"
      | none => "HEAD is missing"))

/-- How a fingerprint records HEAD. -/
def fingerprintValue (h : Head) : String :=
  match h.branch, h.revision with
  | some b, some o => s!"ref: {b} {o}"
  | some b, none => s!"ref: {b}"
  | none, some o => o.text
  | none, none => ""

end Head

/-! ## Snapshots -/

/-- One view of a tracked root. -/
structure Snapshot where
  /-- The directories of the root. -/
  layout : Layout
  /-- Whether a refresh made the snapshot. -/
  isFresh : Bool
  /-- The branches. -/
  branches : BranchCollection
  /-- The current branch and commit. -/
  head : Head
  /-- The operation in progress. -/
  state : OperationState
  /-- The configured remotes. -/
  remotes : List Remote
  /-- The fingerprint, absent while stale. -/
  fingerprint : Option Fingerprint
deriving DecidableEq

namespace Snapshot

/-- The snapshot that a root starts with. -/
def stale (layout : Layout) : Snapshot where
  layout
  isFresh := false
  branches := .empty
  head := .unknown
  state := .clean
  remotes := []
  fingerprint := none

/-- The entry of a local branch in a fingerprint. -/
def localFingerprint (entry : LocalBranch × LocalEntry) : String × String :=
  let tracking := (entry.2.tracking.map fun b => " " ++ b.display).getD ""
  ((RefName.ofBranch entry.1.name).text, entry.2.oid.text ++ tracking)

/-- The entry of a remote-tracking branch in a fingerprint. -/
def trackedFingerprint (entry : RemoteBranch × Oid) : String × String :=
  ((RefName.ofRemoteBranch entry.1.remote entry.1.name).text, entry.2.text)

/-- The named values that a fingerprint is computed from. -/
def fingerprintEntries (branches : BranchCollection) (head : Head) (state : OperationState) :
    List (String × String) :=
  branches.locals.entries.map localFingerprint ++
    branches.tracked.entries.map trackedFingerprint ++
    [("HEAD", head.fingerprintValue), ("STATE", state.display)]

/-- The snapshot that a refresh makes. -/
def fresh (layout : Layout) (branches : BranchCollection) (head : Head) (state : OperationState)
    (remotes : List Remote) : Snapshot where
  layout
  isFresh := true
  branches
  head
  state
  remotes
  fingerprint := some (.compute (fingerprintEntries branches head state))

/-- The tracked root. -/
def root (s : Snapshot) : Path := s.layout.workDir

/-- The name of the branch that is checked out. -/
def currentBranchName (s : Snapshot) : Option String :=
  s.head.branch.map BranchName.text

/-- The branch that is checked out, when it is in the collection. -/
def currentBranch (s : Snapshot) : Option Branch :=
  (s.currentBranchName.bind s.branches.findLocal?).map .ofLocal

/-- The branch that is checked out, or why there is none. -/
def requireBranch (s : Snapshot) : Except TrackError BranchName :=
  s.head.requireBranch s.root

/-- Whether the snapshot `next` differs from the one before it in branches, HEAD or operation. -/
def changed (previous next : Snapshot) : Bool :=
  previous.fingerprint ≠ next.fingerprint

end Snapshot

end WorktreeTracker
