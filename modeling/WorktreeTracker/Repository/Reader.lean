import WorktreeTracker.PlainReader
import WorktreeTracker.Repository.Open

/-!
# The repository reader

Reads HEAD, references, remotes and the operation in progress of an opened repository. The reference
and object databases and the configuration give the answers that the reader asks for. Unlike the
plain reader it follows every branch to a commit, so a branch that points at anything else is an
error.
-/

namespace WorktreeTracker

namespace RepositoryReader

/-- Opens the repository of `root` for reading. -/
def openAt (t : FileTree) (root : Path) : Except ReadError OpenRepository :=
  (openRepository t root).mapError fun failure =>
    match failure with
    | .notFound => .notARepository root
    | .unusable problem => .corrupt root problem

/-! ## Answers of the configuration -/

section

variable (settings : List GitConfig.Setting)

/-- The value of a variable that has one and is text; an empty value counts as none. -/
def setting? (key : String) : Option String :=
  (OpenRepository.valueOf? settings key).filter (!·.isEmpty)

/-- What the local branch of a reference is set to under the given key. -/
def branchSetting (key name : String) : Except LookupFailure (Option String) :=
  match Text.after? RefName.heads name with
  | none => .error (.damaged "the reference is no local branch")
  | some short =>
    match setting? settings s!"branch.{short}.{key}" with
    | some value => .ok (some value)
    | none => .error .notFound

/-- What the configuration answers about remotes. -/
def answers : GitRemotes where
  upstreamRemote := branchSetting settings "remote"
  upstreamMerge := branchSetting settings "merge"
  owner := RemoteTable.owner? settings
  names := .ok ((RemoteTable.names settings).map Text.decode?)
  url name := (RemoteTable.lookup settings name).map fun found => Text.decode? found.url

end

variable (t : FileTree) (r : OpenRepository)

/-- The directories of the repository. -/
def layout : Layout := ⟨r.workDir, r.gitDir, r.commonDir⟩

/-! ## References and remotes -/

/-- What the reference of the given name points at. -/
def find (name : String) : Except LookupFailure RefTarget :=
  match RefDatabase.lookupName? name with
  | none => .error .invalidSpec
  | some looked => RefDatabase.lookup t r.gitDir r.commonDir looked

/-- The references whose names start with `lead`. -/
def listed (lead : String) : Except LookupFailure (List (String × RefTarget)) :=
  (RefDatabase.all t r.gitDir r.commonDir).map (List.filter fun e => Text.startsWith lead e.1)

/-- The branches of a kind. -/
def branches (kind : BranchKind) : Except String (List (Except String FoundRef)) :=
  ((listed t r kind.lead).map (List.map fun e => .ok ⟨some e.1, e.2⟩)).mapError
    LookupFailure.problem

/-- What the databases and the configuration of the repository answer. -/
def library : GitLibrary where
  toGitRemotes := answers r.settings
  gitDir := r.gitDir
  find := find t r
  peel := RefDatabase.peelToCommit t r.gitDir r.commonDir
  branches := branches t r

/-- The commit that a reference leads to, `none` when there is no such reference. -/
def resolveRef (name : String) : Except ReadError (Option Oid) :=
  (library t r).resolveRef name

/-- Where the HEAD of the worktree points. -/
def head : Except ReadError HeadTarget :=
  (library t r).head

/-- The local branches with their commits and the branches they track. -/
def localBranches : Except ReadError (List LocalRef) :=
  (library t r).localBranches

/-- The remote-tracking branches of configured remotes, symbolic references left out. -/
def trackedBranches : Except ReadError (List RemoteRef) :=
  (library t r).trackedBranches

/-- The configured remotes, by increasing name. -/
def remotes : Except ReadError (List Remote) :=
  (answers r.settings).remotes

/-- Everything that a catalog of branches is built from. -/
def listing : Except ReadError Listing :=
  (library t r).listing

/-! ## Operations -/

/-- The operation in progress, told from the files in the directory of the worktree. -/
def state : OperationState :=
  let file (name : String) : Bool := t.isFile (r.gitDir / name)
  let directory (name : String) : Bool := t.isDirectory (r.gitDir / name)
  if file "rebase-merge/interactive" then OperationMarkers.rebase t r.gitDir
  else if directory "rebase-merge" then OperationMarkers.rebase t r.gitDir
  else if file "rebase-apply/rebasing" then OperationMarkers.rebase t r.gitDir
  else if file "rebase-apply/applying" then .applyMailbox
  else if directory "rebase-apply" then .applyMailbox
  else if file "MERGE_HEAD" then .merge
  else if file "REVERT_HEAD" then .revert
  else if file "CHERRY_PICK_HEAD" then .cherryPick
  else if file "BISECT_LOG" then .bisect
  else .clean

end RepositoryReader

end WorktreeTracker
