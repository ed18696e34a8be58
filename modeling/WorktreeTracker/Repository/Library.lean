import WorktreeTracker.Failure
import WorktreeTracker.Listing

/-!
# What a git library answers

The repository reader asks a full implementation of git about a repository that it has opened. The
answers are fields of a structure, and the reader is what is made of them: where HEAD points, the
branches with the commits that the library follows them to, and the remotes. Nothing is known here
about where the answers come from.
-/

namespace WorktreeTracker

/-! ## Answers -/

/-- Why something cannot be looked up in a repository. -/
inductive LookupFailure where
  /-- There is no such thing. -/
  | notFound
  /-- It is asked for by a name or in a form that it cannot have. -/
  | invalidSpec
  /-- It is locked by another process. -/
  | locked (problem : String)
  /-- It is there but damaged, or cannot be read. -/
  | damaged (problem : String)
deriving DecidableEq, Repr

namespace LookupFailure

/-- The error for a failed lookup of `subject`. -/
def toReadError (subject : String) : LookupFailure → ReadError
  | .notFound => .refNotFound subject
  | .invalidSpec => .invalidOid subject
  | .locked problem => .access s!"repository is locked: {problem}"
  | .damaged problem => .internal s!"{subject}: {problem}"

/-- What went wrong. -/
def problem : LookupFailure → String
  | .notFound => "not found"
  | .invalidSpec => "not a valid name"
  | .locked problem => problem
  | .damaged problem => problem

end LookupFailure

/-- What a reference of the library points at. -/
inductive RefTarget where
  /-- Another reference, its name as bytes that need not be text. -/
  | symbolic (target : List Char)
  /-- An object, with the object that its tag stands for when that is known. -/
  | direct (oid : Oid) (peeled : Option Oid)
deriving DecidableEq

namespace RefTarget

/-- The name of the reference that a symbolic one points at, when it is text. -/
def symbolic? : RefTarget → Option String
  | .symbolic target => Text.decode? target
  | .direct _ _ => none

/-- The object that a reference points at itself. -/
def oid? : RefTarget → Option Oid
  | .symbolic _ => none
  | .direct oid _ => some oid

end RefTarget

/-- A reference that the library hands out. -/
structure FoundRef where
  /-- The full name, when it is text. -/
  name : Option String
  /-- What the reference points at. -/
  target : RefTarget
deriving DecidableEq

/-- The branch that the name of a reference is for, with that name: what follows `lead` in it. -/
def FoundRef.branchBelow? (lead : String) (found : FoundRef) : Option (String × BranchName) := do
  let name ← found.name
  let short ← Text.after? lead name
  let branch ← (BranchName.ofRef short).toOption
  return (name, branch)

/-- The branches that are asked for. -/
inductive BranchKind where
  /-- The branches of the repository itself. -/
  | own
  /-- The branches that were fetched from remotes. -/
  | tracked
deriving DecidableEq, Repr

/-- What the names of the branches start with. -/
def BranchKind.lead : BranchKind → String
  | .own => RefName.heads
  | .tracked => RefName.remotes

/-- What a git library answers about the remotes of a repository. -/
structure GitRemotes where
  /-- The remote that the local branch of a reference is set to track, when it is text. -/
  upstreamRemote : String → Except LookupFailure (Option String)
  /-- The branch of the remote that the local branch of a reference is set to track, when it is
  text. -/
  upstreamMerge : String → Except LookupFailure (Option String)
  /-- The one remote that fetches a reference. -/
  owner : String → Option String
  /-- The names of the remotes, those that are text. -/
  names : Except String (List (Option String))
  /-- The one address of a remote, when it is text. -/
  url : String → Except LookupFailure (Option String)

/-- What a git library answers about a repository. -/
structure GitLibrary extends GitRemotes where
  /-- The metadata of the worktree. -/
  gitDir : Path
  /-- What the reference of the given name points at. -/
  find : String → Except LookupFailure RefTarget
  /-- The commit that a reference leads to. -/
  peel : RefTarget → Except LookupFailure Oid
  /-- The branches of a kind, one after the other; each may fail to be read. -/
  branches : BranchKind → Except String (List (Except String FoundRef))

/-! ## Remotes -/

namespace GitRemotes

variable (g : GitRemotes)

/-- The remote of the given name. -/
def remote (name : String) : Except ReadError Remote :=
  match g.url name with
  | .ok url => .ok ⟨name, url.toList⟩
  | .error failure => .error (failure.toReadError name)

/-- The configured remotes, those with a name that is text. -/
def remotes : Except ReadError (List Remote) := do
  let names ← g.names.mapError .internal
  (names.filterMap id).mapM g.remote

/-- What a setting of the reference `name` says; `none` when it is not set. -/
def optional (name : String) :
    Except LookupFailure (Option String) → Except ReadError (Option (Option String))
  | .ok value => .ok (some value)
  | .error .notFound => .ok none
  | .error failure => .error (failure.toReadError name)

/-- The branch that the local branch of a reference is set to track. -/
def tracking (name : String) : Except ReadError (Option Tracking) := do
  match ← optional name (g.upstreamRemote name) with
  | none => return none
  | some remote =>
    match ← optional name (g.upstreamMerge name) with
    | none => return none
    | some merge => return Tracking.ofSettings? remote merge

end GitRemotes

namespace GitLibrary

variable (g : GitLibrary)

/-! ## HEAD and references -/

/-- The commit that the reference of the given name leads to. -/
def follow (name : String) (target : RefTarget) : Except ReadError Oid :=
  (g.peel target).mapError (·.toReadError name)

/-- The commit that a reference leads to, `none` when there is no such reference. -/
def resolveRef (name : String) : Except ReadError (Option Oid) :=
  match g.find name with
  | .error .notFound => .ok none
  | .error failure => .error (failure.toReadError name)
  | .ok target => (g.follow name target).map some

/-- Where the HEAD of the worktree points. -/
def head : Except ReadError HeadTarget :=
  match g.find "HEAD" with
  | .error .notFound => .error (.refNotFound "HEAD")
  | .error failure => .error (.corrupt (g.gitDir / "HEAD") failure.problem)
  | .ok (.direct oid _) => .ok (.detached oid)
  | .ok (.symbolic target) => do
    match Text.decode? target with
    | none => throw (.internal "HEAD has no target")
    | some target =>
      match Text.after? RefName.heads target with
      | none => throw (.invalidRefName s!"HEAD points outside refs/heads/: {target}")
      | some short =>
        let name ← (BranchName.ofRef short).mapError ReadError.ofInvalid
        return .branch name (← g.resolveRef target)

/-! ## Branches -/

/-- What is made of the branches of a kind, those left out for which it is nothing. -/
def collect {α : Type} (kind : BranchKind) (make : FoundRef → Except ReadError (Option α)) :
    Except ReadError (List α) := do
  let entries ← (g.branches kind).mapError .internal
  let found ← entries.mapM fun entry => entry.mapError .internal >>= make
  return found.filterMap id

/-- The local branch of a listed reference, unless its name is not acceptable. -/
def localBranch (found : FoundRef) : Except ReadError (Option LocalRef) :=
  match found.branchBelow? RefName.heads with
  | none => .ok none
  | some (name, branch) => do
    let oid ← g.follow name found.target
    let tracking ← g.tracking name
    return some ⟨branch, oid, tracking⟩

/-- The local branches with their commits and the branches they track. -/
def localBranches : Except ReadError (List LocalRef) :=
  g.collect .own g.localBranch

/-- The remote and the name of the remote-tracking branch that a listed reference is for, with the
name of the reference. Symbolic references are for none. -/
def trackedName? (found : FoundRef) : Option (String × String × BranchName) := do
  guard found.target.symbolic?.isNone
  let name ← found.name
  let remote ← g.owner name
  let (name, branch) ← found.branchBelow? (RefName.remotes ++ remote ++ "/")
  return (name, remote, branch)

/-- The remote-tracking branch of a listed reference. -/
def trackedBranch (found : FoundRef) : Except ReadError (Option RemoteRef) :=
  match g.trackedName? found with
  | none => .ok none
  | some (name, remote, branch) =>
    (g.follow name found.target).map fun oid => some ⟨remote, branch, oid⟩

/-- The remote-tracking branches of remotes, symbolic references left out. -/
def trackedBranches : Except ReadError (List RemoteRef) :=
  g.collect .tracked g.trackedBranch

/-- Everything that a catalog of branches is built from. -/
def listing : Except ReadError Listing := do
  return ⟨← g.localBranches, ← g.trackedBranches, ← g.remotes⟩

end GitLibrary

end WorktreeTracker
