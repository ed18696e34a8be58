import WorktreeTracker.GitConfig
import WorktreeTracker.Layout
import WorktreeTracker.Listing
import WorktreeTracker.OrderedMap
import WorktreeTracker.RefFile

/-!
# The plain reader

Reads HEAD, references, configuration and operation markers straight from the files of a located
root. Only these small files are opened, never an object, so a reference names whatever id is
written in it. A loose reference wins over its packed entry.
-/

namespace WorktreeTracker

namespace PlainReader

variable (t : FileTree) (l : Layout)

/-- The text of a file, `none` when there is no such file. -/
def readOptional (path : Path) : Except ReadError (Option String) :=
  match t.readText path with
  | .ok text => .ok (some text)
  | .error .notFound => .ok none
  | .error fault => .error (.ofFault path fault)

/-! ## Packed references -/

/-- The packed references, in the order of their lines. -/
def packedRefs : Except ReadError (List (String × Oid)) := do
  match ← readOptional t l.packedRefs with
  | some text => PackedRefs.parse l.packedRefs text
  | none => return []

/-- The packed id of a reference, that of its first line. -/
def packedLookup (name : String) : Except ReadError (Option Oid) :=
  (packedRefs t l).map (List.lookup name)

/-! ## Resolving -/

/-- The number of reference files that are read to resolve one name. -/
def symbolicLimit : Nat := 5

/-- The id that `name` leads to, reading at most `hops` loose files. The refusal of a chain that is
longer names the file of `start`. -/
def resolveFrom (start : String) : (hops : Nat) → (name : String) → Except ReadError (Option Oid)
  | 0, _ => .error (.corrupt (l.looseRef start) "symbolic ref chain too deep")
  | hops + 1, name => do
    let file := l.looseRef name
    match ← readOptional t file with
    | none => packedLookup t l name
    | some text =>
      match ← RefFile.parse file text with
      | .direct oid => return some oid
      | .symbolic target => resolveFrom start hops target

/-- The id that a reference of the shared store leads to, symbolic loose references followed. -/
def resolveRef (name : String) : Except ReadError (Option Oid) :=
  resolveFrom t l name symbolicLimit name

/-- Where the HEAD of the worktree points. -/
def head : Except ReadError HeadTarget := do
  match ← readOptional t l.head with
  | none => throw (.refNotFound "HEAD")
  | some text =>
    match ← RefFile.parse l.head text with
    | .direct oid => return .detached oid
    | .symbolic target =>
      match Text.after? RefName.heads target with
      | none => throw (.invalidRefName s!"HEAD points outside refs/heads/: {target}")
      | some short =>
        let name ← (BranchName.ofRef short).mapError ReadError.ofInvalid
        return .branch name (← resolveRef t l target)

/-! ## Listing references -/

/-- References by full name, with `none` for a symbolic one. -/
abbrev RefTable := OrderedMap String (Option Oid)

/-- Whether a file is passed over as a lock: its name has a part before the ending `.lock`. -/
def isLock (file : String) : Bool :=
  (Text.before? ".lock" file).any (!·.isEmpty)

/-- A text with slashes for its backslashes. -/
def slashed (s : String) : String :=
  String.ofList (s.toList.map fun c => if c = '\\' then '/' else c)

/-- The reference in the file at `path`, unless the file is passed over. -/
def looseEntry? (path : Path) (contents : ByteArray) :
    Except ReadError (Option (String × Option Oid)) :=
  if path.fileName?.any isLock then .ok none
  else
    match l.commonDir.after? path with
    | none => .ok none
    | some relative => do
      let text ← (FileTree.decodeText contents).mapError (ReadError.ofFault path)
      let value ← RefFile.parse path text
      return some (slashed relative, value.oid?)

/-- The packed references whose name starts with `lead`. -/
def packedEntries (lead : String) (packed : List (String × Oid)) : List (String × Option Oid) :=
  (packed.filter fun entry => Text.startsWith lead entry.1).map fun (name, oid) => (name, some oid)

/-- The directory of the loose references whose name starts with `lead`. -/
def looseDirectory (lead : String) : Path :=
  l.commonDir / Text.trimEnding '/' lead

/-- The regular files below what was found at `directory`, by their path; none when that is no
directory. -/
def filesUnder (directory : Path) : Except Fault FileTree.Found → List (Path × ByteArray)
  | .ok (location, .directory) =>
    (t.filesBelow location).map fun (names, contents) =>
      (directory / "/".intercalate names, contents)
  | _ => []

/-- The regular files in the directory of the loose references whose name starts with `lead`, by
their path. -/
def looseFiles (lead : String) : List (Path × ByteArray) :=
  filesUnder t (looseDirectory l lead) (t.resolve (looseDirectory l lead) true)

/-- The references whose name starts with `lead`, in the order they are found: the lines of the packed
file and then the loose files. A name that is found again has what was found last. -/
def refEntries (lead : String) : Except ReadError (List (String × Option Oid)) := do
  let packed ← packedRefs t l
  let loose ← (looseFiles t l lead).mapM fun (path, contents) => looseEntry? l path contents
  return packedEntries lead packed ++ loose.filterMap id

/-- The reference that an entry of a table stands for: a direct one with an acceptable name. -/
def directRef? (entry : String × Option Oid) : Option (RefName × Oid) := do
  let oid ← entry.2
  let name ← (RefName.create entry.1).toOption
  return (name, oid)

/-- The direct references of a table that have an acceptable name. -/
def directRefs (table : RefTable) : List (RefName × Oid) :=
  table.entries.filterMap directRef?

/-- The direct references whose name starts with `lead`, by increasing name. A symbolic loose
reference hides its packed entry and is not listed. -/
def listRefs (lead : String) : Except ReadError (List (RefName × Oid)) :=
  (refEntries t l lead).map fun entries => directRefs (.ofList entries)

/-! ## Configuration -/

/-- The variables of the configuration; none when it is no regular file. -/
def config : Except ReadError (List GitConfig.Setting) :=
  if t.isFile l.config then (GitConfig.load t l.config).mapError (.corrupt l.config)
  else .ok []

/-- The value of a variable of the configuration. -/
def configValue (settings : List GitConfig.Setting) (key : String) :
    Except ReadError (Option String) :=
  match GitConfig.last? settings key with
  | none => .ok none
  | some value =>
    match Text.decode? value with
    | some text => .ok (some text)
    | none => .error (.corrupt l.config "configuration value is not valid utf8")

/-- The remote that a variable belongs to, with the address when it is a fetch address. -/
def remoteSetting? (setting : GitConfig.Setting) : Option (String × Option String) :=
  match GitConfig.remoteOf? "url" setting.key with
  | some name => (Text.decode? name).map (·, setting.value.bind Text.decode?)
  | none => do
    let name ← GitConfig.remoteOf? "pushurl" setting.key
    let name ← Text.decode? name
    return (name, none)

/-- The remotes with one more address for the remote `name`, which is added at the end when it is
new. -/
def addUrl (name : String) (url : Option String) : List Remote → List Remote
  | [] => [⟨name, url.toList⟩]
  | remote :: rest =>
    if remote.name = name then { remote with urls := remote.urls ++ url.toList } :: rest
    else remote :: addUrl name url rest

/-- The remotes that variables set an address for, in the order they are first named. -/
def remotesOf (settings : List GitConfig.Setting) : List Remote :=
  (settings.filterMap remoteSetting?).foldl (fun remotes (name, url) => addUrl name url remotes) []

/-- The configured remotes. -/
def remotes : Except ReadError (List Remote) :=
  (config t l).map remotesOf

/-- The branch that a local branch is configured to track. -/
def tracking (settings : List GitConfig.Setting) (branch : BranchName) :
    Except ReadError (Option Tracking) := do
  let remote ← configValue l settings s!"branch.{branch}.remote"
  let merge ← configValue l settings s!"branch.{branch}.merge"
  return Tracking.ofSettings? remote merge

/-! ## Listing branches -/

/-- How the branch that a local branch tracks is looked up. -/
abbrev Upstream := BranchName → Except ReadError (Option Tracking)

/-- The local branch of a listed reference, unless its short name is not acceptable. -/
def localBranch (upstream : Upstream) (name : RefName) (oid : Oid) :
    Except ReadError (Option LocalRef) :=
  match (name.after? RefName.heads).bind fun short => (BranchName.ofRef short).toOption with
  | none => .ok none
  | some branch => (upstream branch).map fun tracking => some ⟨branch, oid, tracking⟩

/-- The local branches with their commits and the branches they are looked up to track. -/
def localBranchesOf (upstream : Upstream) : Except ReadError (List LocalRef) := do
  let refs ← listRefs t l RefName.heads
  let branches ← refs.mapM fun (name, oid) => localBranch upstream name oid
  return branches.filterMap id

/-- The local branches with their commits and the branches they track. -/
def localBranches : Except ReadError (List LocalRef) := do
  localBranchesOf t l (tracking l (← config t l))

/-- The names of the remotes, longest first, names of one length in the order of the remotes. -/
def byLength (remotes : List Remote) : List String :=
  (remotes.map Remote.name).mergeSort fun a b => b.utf8ByteSize ≤ a.utf8ByteSize

/-- The first of the named remotes that owns a reference, with the rest of its name. -/
def owner? (names : List String) (rest : String) : Option (String × String) :=
  names.findSome? fun remote =>
    ((Text.after? remote rest).bind (Text.after? "/")).map (remote, ·)

/-- The remote-tracking branch of a listed reference, when a remote owns it. -/
def trackedBranch? (names : List String) (name : RefName) (oid : Oid) : Option RemoteRef := do
  let rest ← name.after? RefName.remotes
  let (remote, short) ← owner? names rest
  let branch ← (BranchName.ofRef short).toOption
  return ⟨remote, branch, oid⟩

/-- The remote-tracking branches of the given remotes. The remote with the longest matching name
owns a reference, so a remote with a slash in its name keeps its branches. -/
def trackedBranchesOf (remotes : List Remote) : Except ReadError (List RemoteRef) := do
  let refs ← listRefs t l RefName.remotes
  return refs.filterMap fun (name, oid) => trackedBranch? (byLength remotes) name oid

/-- The remote-tracking branches of configured remotes. -/
def trackedBranches : Except ReadError (List RemoteRef) := do
  trackedBranchesOf t l (← remotes t l)

/-- Everything that a catalog of branches is built from, when the configuration names the given
remotes and tracked branches. -/
def listingOf (remotes : List Remote) (upstream : Upstream) : Except ReadError Listing := do
  return ⟨← localBranchesOf t l upstream, ← trackedBranchesOf t l remotes, remotes⟩

/-- Everything that a catalog of branches is built from. -/
def listing : Except ReadError Listing := do
  let settings ← config t l
  listingOf t l (remotesOf settings) (tracking l settings)

end PlainReader

/-! ## Operation markers -/

namespace OperationMarkers

variable (t : FileTree)

/-- The count in a progress file; `none` when it cannot be read or is no count. -/
def readCount (path : Path) : Option Nat :=
  (t.readText path).toOption.bind fun text => Text.count? (Text.trim text)

/-- The current step and the number of steps of the rebase recorded in `gitDir`. -/
def rebaseProgress (gitDir : Path) : Option Nat × Option Nat :=
  let merge := gitDir / "rebase-merge"
  let apply := gitDir / "rebase-apply"
  if t.isDirectory merge then (readCount t (merge / "msgnum"), readCount t (merge / "end"))
  else if t.isDirectory apply then (readCount t (apply / "next"), readCount t (apply / "last"))
  else (none, none)

/-- The rebase recorded in `gitDir`. -/
def rebase (gitDir : Path) : OperationState :=
  let (current, total) := rebaseProgress t gitDir
  .rebase current total

end OperationMarkers

/-- The operation in progress, told from the markers in the directory of the worktree. -/
def PlainReader.state (t : FileTree) (l : Layout) : OperationState :=
  let marked (name : String) : Bool := t.isPresent (l.marker name)
  if t.isDirectory (l.marker "rebase-merge") then OperationMarkers.rebase t l.gitDir
  else if t.isDirectory (l.marker "rebase-apply") then
    if marked "rebase-apply/applying" then .applyMailbox else OperationMarkers.rebase t l.gitDir
  else if marked "MERGE_HEAD" then .merge
  else if marked "CHERRY_PICK_HEAD" then .cherryPick
  else if marked "REVERT_HEAD" then .revert
  else if marked "BISECT_LOG" then .bisect
  else .clean

end WorktreeTracker
