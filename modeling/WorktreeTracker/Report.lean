import WorktreeTracker.CommandLine
import WorktreeTracker.JsonText
import WorktreeTracker.Snapshot
import WorktreeTracker.Table

/-!
# Reports

What the commands show of a snapshot: one row for a root, or one row for each of its branches. Each
row can be shown as cells of a table or written as a value.
-/

namespace WorktreeTracker

/-! ## Status of a root -/

/-- What is reported of a root. -/
structure StatusRow where
  /-- The root. -/
  root : Path
  /-- Whether the root is a primary clone or a linked worktree. -/
  context : Context
  /-- The branch that is checked out. -/
  branch : Option String
  /-- The commit that HEAD leads to. -/
  revision : Option Oid
  /-- The operation in progress. -/
  state : String
  /-- The number of branches of both kinds. -/
  branches : Nat
deriving DecidableEq

namespace StatusRow

/-- The row of a snapshot. -/
def ofSnapshot (s : Snapshot) : StatusRow where
  root := s.root
  context := s.layout.context
  branch := s.currentBranchName
  revision := s.head.revision
  state := s.state.display
  branches := s.branches.size

/-- The cells of a row. -/
def cells (r : StatusRow) : List String :=
  [r.root.text, r.context.display, r.branch.getD "(detached)", Oid.formatRevision r.revision, r.state]

/-- A row as a value. -/
def toValue (r : StatusRow) : Value :=
  .table [
    ("root", .text r.root.text),
    ("context", .text r.context.jsonName),
    ("branch", .ofText? r.branch),
    ("revision", .ofText? (r.revision.map Oid.text)),
    ("state", .text r.state),
    ("branches", .int r.branches)]

end StatusRow

/-! ## Branches of a root -/

/-- What is reported of a branch. -/
structure BranchRow where
  /-- The name as shown. -/
  name : String
  /-- Whether the branch is a remote-tracking branch. -/
  isRemote : Bool
  /-- The commit. -/
  hash : Oid
  /-- Whether the branch is checked out. -/
  current : Bool
  /-- The branch that it tracks. -/
  tracking : Option String
deriving DecidableEq

namespace BranchRow

/-- The row of a local branch, with the name of the branch that is checked out. -/
def ofLocal (current : Option String) (entry : LocalBranch × LocalEntry) : BranchRow where
  name := entry.1.display
  isRemote := false
  hash := entry.2.oid
  current := current = some entry.1.display
  tracking := entry.2.tracking.map RemoteBranch.display

/-- The row of a remote-tracking branch. -/
def ofRemote (entry : RemoteBranch × Oid) : BranchRow where
  name := entry.1.display
  isRemote := true
  hash := entry.2
  current := false
  tracking := none

/-- The rows of the branches of a snapshot, local ones first, each kind in order. -/
def collect (s : Snapshot) (scope : BranchScope) : List BranchRow :=
  let locals := if scope.includesLocals then
    s.branches.locals.entries.map (ofLocal s.currentBranchName) else []
  let tracked := if scope.includesTracked then s.branches.tracked.entries.map ofRemote else []
  locals ++ tracked

/-- The cells of a row: the current branch has a star. -/
def cells (r : BranchRow) : List String :=
  let marker := if r.current then "* " else "  "
  [marker ++ r.name, r.hash.short Oid.shortLength] ++
    (r.tracking.map fun name => "[" ++ name ++ "]").toList

/-- A row as a value. A branch that tracks none has no such field. -/
def toValue (r : BranchRow) : Value :=
  .table ([
    ("name", .text r.name),
    ("kind", .text (if r.isRemote then "remote" else "local")),
    ("hash", .text r.hash.text),
    ("current", .bool r.current)] ++ (r.tracking.map fun name => ("upstream", .text name)).toList)

end BranchRow

end WorktreeTracker
