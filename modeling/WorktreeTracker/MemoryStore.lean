import WorktreeTracker.Branch
import WorktreeTracker.Failure
import WorktreeTracker.Layout
import WorktreeTracker.Listing

/-!
# The store in memory

Repositories with several worktrees, held without files. Branches, remotes and tracked branches
belong to the shared directory; HEAD and the operation in progress belong to a worktree. The calls
of a fixture follow the commands of git. Every read is recorded, and one kind of read can be made to
fail.
-/

namespace WorktreeTracker

/-! ## Contents -/

/-- The HEAD of a worktree in memory. -/
inductive MemoryHead where
  /-- A branch is checked out. -/
  | attached (name : BranchName)
  /-- A commit is checked out. -/
  | detached (oid : Oid)
deriving DecidableEq

/-- What the worktrees of a repository share. -/
structure SharedRefs where
  /-- The local branches with their commits and the branches they track. -/
  locals : OrderedMap BranchName (Oid × Option Tracking)
  /-- The remote-tracking branches with their commits. -/
  tracked : OrderedMap RemoteBranch Oid
  /-- The configured remotes. -/
  remotes : List Remote
  /-- Local branches that are listed besides, even under a name that is listed already. -/
  extra : List LocalRef
deriving DecidableEq

namespace SharedRefs

/-- The shared part of a new repository. -/
def empty : SharedRefs := ⟨.empty, .empty, [], []⟩

/-- The commit of a local branch. -/
def commit? (r : SharedRefs) (name : BranchName) : Option Oid :=
  (r.locals.find? name).map Prod.fst

/-- The branch that a local branch tracks. -/
def tracking? (r : SharedRefs) (name : BranchName) : Option Tracking :=
  (r.locals.find? name).bind Prod.snd

/-- The branches with `name` moved to a commit; the branch it tracks stays. -/
def moveBranch (r : SharedRefs) (name : BranchName) (oid : Oid) : SharedRefs :=
  { r with locals := r.locals.insert name (oid, r.tracking? name) }

/-- Everything that the worktrees sharing this part list. -/
def listing (r : SharedRefs) : Listing where
  locals := (r.locals.entries.map fun (name, oid, tracking) => ⟨name, oid, tracking⟩) ++ r.extra
  tracked := r.tracked.entries.map fun (branch, oid) => ⟨branch.remote, branch.name, oid⟩
  remotes := r.remotes

end SharedRefs

/-- A worktree in memory. -/
structure MemoryWorktree where
  /-- Its directories. -/
  layout : Layout
  /-- Its HEAD, unless that is missing. -/
  head : Option MemoryHead
  /-- The operation in progress. -/
  state : OperationState
deriving DecidableEq

/-- A kind of read of a store. -/
inductive ReadKind where
  /-- Locating the directories of a root. -/
  | locate
  /-- Listing branches and remotes. -/
  | refs
  /-- Reading HEAD. -/
  | head
  /-- Reading the operation in progress. -/
  | state
deriving DecidableEq, Repr

namespace ReadKind

/-- Every kind of read. -/
def all : List ReadKind := [.locate, .refs, .head, .state]

/-- The name of a kind of read. -/
def name : ReadKind → String
  | .locate => "locate"
  | .refs => "refs"
  | .head => "head"
  | .state => "state"

/-- The kind of read of the given name. -/
def ofName? (name : String) : Option ReadKind :=
  all.find? fun kind => kind.name = name

end ReadKind

/-- A store that holds repositories in memory. -/
structure MemoryStore where
  /-- What worktrees share, by the shared directory. -/
  shared : OrderedMap Path.Key SharedRefs
  /-- The worktrees by their root. -/
  worktrees : OrderedMap Path.Key MemoryWorktree
  /-- The number of commits made so far. -/
  commits : Nat
  /-- The kind of read that fails, and how. -/
  failing : Option (ReadKind × StoreError)
  /-- The reads so far with the roots they were for, the last one first. -/
  reads : List (ReadKind × Path)
  /-- The largest number of listings of a root that were read at the same time. -/
  peakReads : OrderedMap Path.Key Nat
deriving DecidableEq

/-- A call of a fixture that makes no sense. -/
inductive FixtureError where
  /-- The root was never added. -/
  | unknownRoot (root : Path)
  /-- The name is no name of a branch. -/
  | invalidName (error : InvalidIdentifier)
  /-- The branch to push does not exist. -/
  | unknownBranch (name : BranchName)
deriving DecidableEq

/-- The message shown for a call that makes no sense. -/
def FixtureError.message : FixtureError → String
  | .unknownRoot root => s!"unknown root {root}"
  | .invalidName e => s!"invalid fixture branch name: {e.message}"
  | .unknownBranch name => s!"cannot push unknown branch {name}"

namespace MemoryStore

/-- The store without repositories. -/
def empty : MemoryStore := ⟨.empty, .empty, 0, none, [], .empty⟩

/-! ## Looking up -/

/-- The worktree at a root. -/
def worktree (m : MemoryStore) (root : Path) : Except FixtureError MemoryWorktree :=
  match m.worktrees.find? root.components with
  | some w => .ok w
  | none => .error (.unknownRoot root)

/-- What the worktrees with the given shared directory share. -/
def sharedOf (m : MemoryStore) (commonDir : Path) : SharedRefs :=
  (m.shared.find? commonDir.components).getD .empty

/-- The branch of the given name. -/
def branchNamed (name : String) : Except FixtureError BranchName :=
  (BranchName.create name).mapError .invalidName

/-- The commit that the HEAD of a worktree leads to. -/
def revision (m : MemoryStore) (w : MemoryWorktree) : Option Oid :=
  match w.head with
  | none => none
  | some (.detached oid) => some oid
  | some (.attached name) => (m.sharedOf w.layout.commonDir).commit? name

/-- The commit that the HEAD of a root leads to. -/
def headRevision (m : MemoryStore) (root : Path) : Except FixtureError (Option Oid) :=
  (m.worktree root).map m.revision

/-! ## Changing -/

/-- Puts a worktree at its root. -/
def setWorktree (m : MemoryStore) (root : Path) (w : MemoryWorktree) : MemoryStore :=
  { m with worktrees := m.worktrees.insert root.components w }

/-- Changes the worktree at a root. -/
def updateWorktree (m : MemoryStore) (root : Path) (f : MemoryWorktree → MemoryWorktree) :
    Except FixtureError MemoryStore :=
  (m.worktree root).map fun w => m.setWorktree root (f w)

/-- Changes what the worktrees with the given shared directory share. -/
def updateShared (m : MemoryStore) (commonDir : Path) (f : SharedRefs → SharedRefs) : MemoryStore :=
  { m with shared := m.shared.insert commonDir.components (f (m.sharedOf commonDir)) }

/-- Changes what the worktree at a root shares with others. -/
def updateSharedOf (m : MemoryStore) (root : Path) (f : SharedRefs → SharedRefs) :
    Except FixtureError MemoryStore :=
  (m.worktree root).map fun w => m.updateShared w.layout.commonDir f

/-! ## Fixture calls -/

/-- Adds a primary clone at a root with the branch `master`, which has no commit, checked out. -/
def addRepository (m : MemoryStore) (root : Path) : Layout × MemoryStore :=
  let gitDir := root / ".git"
  let layout : Layout := ⟨root, gitDir, gitDir⟩
  (layout, (m.updateShared gitDir id).setWorktree root ⟨layout, some (.attached .master), .clean⟩)

/-- Adds a linked worktree of `primary` at `root` with a branch checked out, which is made at the
commit of the primary when there is no such branch. -/
def addWorktree (m : MemoryStore) (primary root : Path) (name : String) :
    Except FixtureError (Layout × MemoryStore) := do
  let branch ← branchNamed name
  let w ← m.worktree primary
  let commonDir := w.layout.commonDir
  let layout : Layout :=
    ⟨root, commonDir / "worktrees" / (root.fileName?.getD name), commonDir⟩
  let added := m.updateShared commonDir fun r =>
    match m.revision w with
    | some oid => { r with locals := r.locals.insertIfNew branch (oid, none) }
    | none => r
  return (layout, added.setWorktree root ⟨layout, some (.attached branch), .clean⟩)

/-- Makes a commit on whatever the HEAD of a root points at. Its number is used up even when there
is no such root. -/
def commit (m : MemoryStore) (root : Path) : Except FixtureError Oid × MemoryStore :=
  let oid := Oid.ofNumber (m.commits + 1)
  let counted := { m with commits := m.commits + 1 }
  match counted.worktree root with
  | .error e => (.error e, counted)
  | .ok w =>
    let committed := match w.head with
      | some (.attached name) =>
        counted.updateShared w.layout.commonDir fun r => r.moveBranch name oid
      | _ => counted.setWorktree root { w with head := some (.detached oid) }
    (.ok oid, committed)

/-- Moves a local branch to a commit. -/
def setBranch (m : MemoryStore) (root : Path) (name : String) (oid : Oid) :
    Except FixtureError MemoryStore := do
  let w ← m.worktree root
  let branch ← branchNamed name
  return m.updateShared w.layout.commonDir fun r => r.moveBranch branch oid

/-- Deletes a local branch. -/
def deleteBranch (m : MemoryStore) (root : Path) (name : String) :
    Except FixtureError MemoryStore := do
  let w ← m.worktree root
  let branch ← branchNamed name
  return m.updateShared w.layout.commonDir fun r => { r with locals := r.locals.erase branch }

/-- Lists a local branch besides the others, even when its name is listed already. -/
def pushRawLocal (m : MemoryStore) (root : Path) (name : String) (oid : Oid) :
    Except FixtureError MemoryStore := do
  let w ← m.worktree root
  let branch ← branchNamed name
  return m.updateShared w.layout.commonDir fun r =>
    { r with extra := r.extra ++ [⟨branch, oid, none⟩] }

/-- Makes a branch at the current commit and checks it out. -/
def checkoutNewBranch (m : MemoryStore) (root : Path) (name : String) :
    Except FixtureError MemoryStore := do
  let w ← m.worktree root
  let branch ← branchNamed name
  let m := match m.revision w with
    | some oid => m.updateShared w.layout.commonDir fun r =>
        { r with locals := r.locals.insert branch (oid, none) }
    | none => m
  return m.setWorktree root { w with head := some (.attached branch) }

/-- Checks a branch out. -/
def checkout (m : MemoryStore) (root : Path) (name : String) : Except FixtureError MemoryStore := do
  let branch ← branchNamed name
  m.updateWorktree root fun w => { w with head := some (.attached branch) }

/-- Detaches HEAD at its commit; without one HEAD is gone. -/
def detachHead (m : MemoryStore) (root : Path) : Except FixtureError MemoryStore :=
  m.updateWorktree root fun w => { w with head := (m.revision w).map .detached }

/-- Removes HEAD. -/
def removeHead (m : MemoryStore) (root : Path) : Except FixtureError MemoryStore :=
  m.updateWorktree root fun w => { w with head := none }

/-- Sets the operation in progress. -/
def setState (m : MemoryStore) (root : Path) (state : OperationState) :
    Except FixtureError MemoryStore :=
  m.updateWorktree root fun w => { w with state }

/-- Configures a remote, after the ones that are configured already. -/
def addRemote (m : MemoryStore) (root : Path) (name url : String) :
    Except FixtureError MemoryStore :=
  m.updateSharedOf root fun r =>
    { r with remotes := (r.remotes.filter fun remote => remote.name ≠ name) ++ [⟨name, [url]⟩] }

/-- Takes a remote out of the configuration; its remote-tracking branches stay. -/
def removeRemote (m : MemoryStore) (root : Path) (name : String) :
    Except FixtureError MemoryStore :=
  m.updateSharedOf root fun r =>
    { r with remotes := r.remotes.filter fun remote => remote.name ≠ name }

/-- Moves a remote-tracking branch to a commit. -/
def setRemoteBranch (m : MemoryStore) (root : Path) (remote name : String) (oid : Oid) :
    Except FixtureError MemoryStore := do
  let w ← m.worktree root
  let branch ← branchNamed name
  return m.updateShared w.layout.commonDir fun r =>
    { r with tracked := r.tracked.insert ⟨remote, branch⟩ oid }

/-- Pushes a local branch: the branch of that name on the remote gets its commit and is tracked by
it from now on. -/
def push (m : MemoryStore) (root : Path) (remote name : String) :
    Except FixtureError MemoryStore := do
  let w ← m.worktree root
  let branch ← branchNamed name
  match (m.sharedOf w.layout.commonDir).commit? branch with
  | none => throw (.unknownBranch branch)
  | some oid =>
    return m.updateShared w.layout.commonDir fun r =>
      { r with
        locals := r.locals.insert branch (oid, some ⟨remote, branch⟩)
        tracked := r.tracked.insert ⟨remote, branch⟩ oid }

/-- Makes one kind of read fail from now on. -/
def failOn (m : MemoryStore) (kind : ReadKind) (error : StoreError) : MemoryStore :=
  { m with failing := some (kind, error) }

/-- Lets every kind of read succeed again. -/
def clearFailure (m : MemoryStore) : MemoryStore :=
  { m with failing := none }

/-- The reads so far, in order. -/
def operations (m : MemoryStore) : List (ReadKind × Path) := m.reads.reverse

/-- The largest number of listings of a root that were read at the same time. -/
def peak (m : MemoryStore) (root : Path) : Nat :=
  (m.peakReads.find? root.components).getD 0

/-! ## Reading -/

/-- The store after a read of a root was recorded. -/
def record (m : MemoryStore) (kind : ReadKind) (root : Path) : MemoryStore :=
  { m with reads := (kind, root) :: m.reads }

/-- The failure that a kind of read was given. -/
def injected? (m : MemoryStore) (kind : ReadKind) : Option StoreError :=
  match m.failing with
  | some (k, e) => if k = kind then some e else none
  | none => none

/-- The worktree that a read is for, unless the read was made to fail. -/
def checkRead (m : MemoryStore) (kind : ReadKind) (root : Path) : Except StoreError MemoryWorktree :=
  match m.injected? kind, m.worktrees.find? root.components with
  | some e, _ => .error e
  | none, some w => .ok w
  | none, none => .error (.notARepository root)

/-- The directories of the worktree at a root. -/
def locate (m : MemoryStore) (root : Path) : Except StoreError Layout × MemoryStore :=
  ((m.checkRead .locate root).map MemoryWorktree.layout, m.record .locate root)

/-- The branches and remotes listed for a worktree. -/
def readRefs (m : MemoryStore) (l : Layout) : Except StoreError Listing × MemoryStore :=
  let recorded := m.record .refs l.workDir
  match m.checkRead .refs l.workDir with
  | .error e => (.error e, recorded)
  | .ok _ =>
    let peakReads := recorded.peakReads.alter l.workDir.components fun n => max (n.getD 0) 1
    (.ok ((m.sharedOf l.commonDir).listing), { recorded with peakReads })

/-- Where the HEAD of a worktree points. -/
def readHead (m : MemoryStore) (l : Layout) : Except StoreError HeadTarget × MemoryStore :=
  let target : Except StoreError HeadTarget := do
    let w ← m.checkRead .head l.workDir
    match w.head with
    | none => throw (.missingHead s!"{l.head} does not exist")
    | some (.detached oid) => return .detached oid
    | some (.attached name) =>
      return .branch name ((m.sharedOf w.layout.commonDir).commit? name)
  (target, m.record .head l.workDir)

/-- The operation in progress in a worktree. -/
def readState (m : MemoryStore) (l : Layout) : Except StoreError OperationState × MemoryStore :=
  ((m.checkRead .state l.workDir).map MemoryWorktree.state, m.record .state l.workDir)

end MemoryStore

end WorktreeTracker
