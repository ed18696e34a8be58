import WorktreeTracker.Report
import WorktreeTracker.Tracker

/-!
# The program

One run of the program as a function: from the file system, the environment and the arguments to the
exit code and what is printed. Nothing is written to the file system.
-/

namespace WorktreeTracker

/-- What a run of the program starts from. -/
structure Process where
  /-- The file system with the current directory. -/
  tree : FileTree
  /-- The environment. -/
  environment : Environment
  /-- The arguments after the name of the program. -/
  arguments : List String

/-- What a run of the program ends with. -/
structure Outcome where
  /-- The exit code. -/
  code : Nat
  /-- The text printed as output. -/
  output : String
  /-- The errors printed, in order. -/
  errors : List String
deriving DecidableEq, Repr

/-- An error together with what it was met in and what caused it. -/
structure Failure where
  /-- The messages from the outermost to the innermost. -/
  chain : List String
deriving DecidableEq, Repr

namespace Failure

/-- The failure with a single message. -/
def ofMessage (message : String) : Failure := ⟨[message]⟩

/-- The failure of loading settings. -/
def ofSettings (e : SettingsError) : Failure := ⟨e.message :: e.cause?.toList⟩

/-- The failure of the tracker. -/
def ofTrack (e : TrackError) : Failure := ⟨e.message :: e.cause?.toList⟩

/-- The failure as met while doing something. -/
def within (doing : String) (f : Failure) : Failure := ⟨doing :: f.chain⟩

/-- The message of the whole chain. -/
def message (f : Failure) : String := ": ".intercalate f.chain

end Failure

/-! ## Context -/

/-- What a command works with. -/
structure RunContext where
  /-- The directory that relative paths are seen from. -/
  cwd : Path
  /-- How much is printed. -/
  verbosity : Verbosity
  /-- The configuration of the user. -/
  configuration : Configuration
  /-- The backend to read with. -/
  backend : StoreKind

namespace RunContext

/-- The tracker that a command works with. -/
def tracker (c : RunContext) : Tracker :=
  .create .standard ⟨c.backend, c.configuration.eventCapacity⟩

/-- A path seen from the directory of the context. -/
def resolve (c : RunContext) (p : Path) : Path := c.cwd.join p

/-- A report followed by a line end, unless reports are left out. -/
def printed (c : RunContext) (report : String) : String :=
  if c.verbosity = .quiet then "" else report ++ "\n"

end RunContext

/-- The backend to read with: a flag wins over the configuration. -/
def chooseBackend (flag : Option String) (c : Configuration) : Except String StoreKind :=
  match flag with
  | none => .ok c.backend
  | some name => StoreKind.choose name

/-! ## Commands -/

/-- What a command prints and the failure that it ends with. -/
structure CommandResult where
  /-- The output. -/
  output : String
  /-- The errors printed on the way. -/
  errors : List String
  /-- The failure at the end. -/
  failure : Option Failure

/-- A command that prints nothing but its failure. -/
def CommandResult.failed (f : Failure) : CommandResult := ⟨"", [], some f⟩

/-- Registers roots one after the other; the first failure ends it. -/
def registerAll (k : Tracker) (w : World) : List Path → Except Failure (List HandleId × Tracker × World)
  | [] => .ok ([], k, w)
  | root :: rest =>
    match k.register w root with
    | (.error e, _, _) => .error ((Failure.ofTrack e).within s!"cannot track {root}")
    | (.ok id, k, w) => (registerAll k w rest).map fun (ids, k, w) => (id :: ids, k, w)

/-- The result of each root by the order in which the roots were asked for: the snapshot to report
or the error to print. A root that is asked for again is reported from its handle. -/
def assignResults (k : Tracker) (results : OrderedMap Path.Key (Except TrackError Snapshot)) :
    List HandleId → List (Except TrackError Snapshot)
  | [] => []
  | id :: rest =>
    match k.handle? id with
    | none => assignResults k results rest
    | some handle =>
      let key := handle.root.components
      match results.find? key with
      | some result => result :: assignResults k (results.erase key) rest
      | none => .ok handle.snapshot :: assignResults k results rest

/-- The roots that a status report is about. -/
def statusRoots (c : RunContext) (paths : List Path) : List Path :=
  if !paths.isEmpty then paths.map c.resolve
  else if !c.configuration.roots.isEmpty then c.configuration.roots.map c.resolve
  else [c.cwd]

/-- Reports on the given roots, on the configured roots or on the current directory. -/
def runStatus (c : RunContext) (w : World) (paths : List Path) (json : Bool) : CommandResult :=
  match registerAll c.tracker w (statusRoots c paths) with
  | .error f => .failed f
  | .ok (ids, k, w) =>
    let (results, k, _) := k.refreshAll w
    let byRoot := OrderedMap.ofList (results.map fun (root, result) => (root.components, result))
    let assigned := assignResults k byRoot ids
    let rows := assigned.filterMap fun result => result.toOption.map StatusRow.ofSnapshot
    let errors := assigned.filterMap fun result => match result with
      | .ok _ => none
      | .error e => some e.message
    let output :=
      if json then JsonText.format (.list (rows.map StatusRow.toValue)) ++ "\n"
      else if rows.isEmpty then ""
      else c.printed (Table.format (rows.map StatusRow.cells))
    let failure :=
      if errors.isEmpty then none
      else some (Failure.ofMessage s!"{errors.length} of {ids.length} roots could not be read")
    ⟨output, errors, failure⟩

/-- Lists the branches of the given root or of the current directory, unless they make a table that
cannot be shown. -/
def runBranches (c : RunContext) (w : World) (path : Option Path) (scope : BranchScope)
    (json : Bool) : Except Table.Error CommandResult :=
  let root := (path.map c.resolve).getD c.cwd
  match c.tracker.register w root with
  | (.error e, _, _) => .ok (.failed ((Failure.ofTrack e).within s!"cannot track {root}"))
  | (.ok _, k, w) =>
    match k.refresh w root with
    | (.error e, _, _) => .ok (.failed (.ofTrack e))
    | (.ok snapshot, _, _) =>
      let rows := BranchRow.collect snapshot scope
      let output :=
        if json then .ok (JsonText.format (.list (rows.map BranchRow.toValue)) ++ "\n")
        else if rows.isEmpty then .ok ""
        else (Table.render (rows.map BranchRow.cells)).map c.printed
      output.map fun text => ⟨text, [], none⟩

/-- Runs a command. There is no result when a table cannot be shown. A status report always has one:
its cells are roots and branches that were looked up, and no path is as long as the widest padding. -/
def runCommand (c : RunContext) (w : World) : Command → Except Table.Error CommandResult
  | .status paths json => .ok (runStatus c w paths json)
  | .branches path remote all json => runBranches c w path (.ofFlags remote all) json

/-! ## Running -/

/-- The version line of the program. -/
def versionLine : String := "wtrack 0.1.0\n"

/-- The help text of the program. -/
def helpText : String :=
  "Usage: wtrack [OPTIONS] <COMMAND>\n\n" ++
    "Commands:\n" ++
    "  status    Show branch, revision and operation state of one or more roots\n" ++
    "  branches  List branches with their commits\n" ++
    "  help      Print this message\n\n" ++
    "Options:\n" ++
    "      --cwd <CWD>       Run as if wtrack was started in this directory\n" ++
    "      --debug           Enable debug logging\n" ++
    "  -q, --quiet           Minimal output\n" ++
    "      --backend <NAME>  Metadata store backend (libgit or files)\n" ++
    "      --config <PATH>   Read the global config from this file\n" ++
    "  -h, --help            Print help\n" ++
    "  -V, --version         Print version\n"

/-- The outcome of a run that is cut off: nothing is printed as an error of the program. -/
def Outcome.cutOff : Outcome := ⟨101, "", []⟩

/-- The outcome of a command line that is not run. -/
def usageOutcome : UsageError → Outcome
  | .displayHelp => ⟨0, helpText, []⟩
  | .displayVersion => ⟨0, versionLine, []⟩
  | e => ⟨2, "", [s!"usage ({e.name})"]⟩

/-- The context of an invocation. -/
def contextOf (p : Process) (i : Invocation) : Except Failure RunContext := do
  let loaded := match i.config with
    | some path => Configuration.loadFrom p.tree path
    | none => Configuration.load p.tree p.environment
  let configuration ← loaded.mapError fun e =>
    (Failure.ofSettings e).within "failed to load configuration"
  let backend ← (chooseBackend i.backend configuration).mapError Failure.ofMessage
  return {
    cwd := i.cwd.getD (.ofLocation p.tree.workingDirectory)
    verbosity := .ofFlags i.quiet i.debug
    configuration
    backend }

/-- Runs the program. -/
def run (p : Process) : Outcome :=
  match CommandLine.parse p.arguments with
  | .error e => usageOutcome e
  | .ok invocation =>
    match contextOf p invocation with
    | .error f => ⟨1, "", [f.message]⟩
    | .ok context =>
      match runCommand context ⟨p.tree, .empty⟩ invocation.command with
      | .error _ => .cutOff
      | .ok result =>
        match result.failure with
        | none => ⟨0, result.output, result.errors⟩
        | some f => ⟨1, result.output, result.errors ++ [f.message]⟩

end WorktreeTracker
