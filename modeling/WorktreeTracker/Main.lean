import WorktreeTracker.Program

/-!
# The command line program

Loads what a run can read from the file system into a `FileTree`, runs the program on it and prints
the outcome. Only this module has effects. Of a repository its metadata is loaded, and with it the
configuration files that it includes and the directories that it borrows objects from.
-/

namespace WorktreeTracker

/-! ## What a run reads -/

/-- The settings files that an invocation may read. -/
def Invocation.settingsFiles (i : Invocation) (env : Environment) : List Path :=
  match i.config with
  | some path => [path]
  | none => Configuration.candidates env

/-- The roots that an invocation is about. -/
def Invocation.roots (i : Invocation) (c : RunContext) : List Path :=
  match i.command with
  | .status paths _ => statusRoots c paths
  | .branches path _ _ _ => [(path.map c.resolve).getD c.cwd]

/-- The roots that a run is about, as far as its settings can be read. -/
def Process.roots (p : Process) : List Path :=
  match CommandLine.parse p.arguments with
  | .error _ => []
  | .ok i => ((contextOf p i).map i.roots).toOption.getD []

/-- The settings files that a run may read. -/
def Process.settingsFiles (p : Process) : List Path :=
  match CommandLine.parse p.arguments with
  | .error _ => []
  | .ok i => i.settingsFiles p.environment

/-- The directories of metadata that the marker file of a root leads to in a tree. -/
def linkedMetadata (t : FileTree) (root : Path) : List Path :=
  let target := (t.readText (root / Locate.markerName)).toOption.bind Locate.gitDirTarget?
  match target with
  | none => []
  | some target =>
    let gitDir := Locate.resolveTarget root target
    let shared := (t.readText (gitDir / "commondir")).toOption.map fun text =>
      Locate.resolveTarget gitDir (Text.trim text)
    gitDir :: shared.toList

/-- The files that a configuration file includes, and those that they include in turn. -/
def includedFiles (t : FileTree) : (depth : Nat) → (file : Path) → List Path
  | 0, _ => []
  | depth + 1, file =>
    let settings := (t.readFile file).toOption.bind fun contents =>
      (GitConfig.parse contents).toOption
    let named := (settings.getD []).filterMap fun setting => do
      guard (setting.key = GitConfig.includeKey)
      let target ← setting.value.bind Text.decode?
      return (GitConfig.directoryOf file).join ⟨target⟩
    named.flatMap fun included => included :: includedFiles t depth included

/-- What the metadata of a root names outside of it. -/
def namedElsewhere (t : FileTree) (root : Path) : List Path :=
  (root / Locate.markerName :: linkedMetadata t root).flatMap fun metadata =>
    includedFiles t GitConfig.includeLimit (metadata / "config") ++
      ObjectStore.alternates t (ObjectStore.borrowLimit + 1) true (metadata / "objects")

/-! ## Loading -/

/-- A tree that is being loaded, with the directories that were entered. -/
structure Loading where
  /-- The tree. -/
  tree : FileTree
  /-- The directories that were entered. -/
  entered : List String

/-- The names of directories that are not entered. -/
def skippedNames : List String := ["hooks"]

/-- The kind of the entry at an absolute path, a link not followed. -/
def kindOf (path : Path) : IO (Option IO.FS.FileType) := do
  let file := (← IO.currentDir) / path.text
  try
    let metadata ← file.symlinkMetadata
    return some metadata.type
  catch _ => return none

/-- The absolute path without links that leads to the same place. -/
def realPath? (path : Path) : IO (Option Path) := do
  let file := (← IO.currentDir) / path.text
  try
    let real ← IO.FS.realPath file
    return some ⟨real.toString⟩
  catch _ => return none

/-- The contents of the file at an absolute path. -/
def contentsOf? (path : Path) : IO (Option ByteArray) := do
  let file := (← IO.currentDir) / path.text
  try
    let contents ← IO.FS.readBinFile file
    return some contents
  catch _ => return none

/-- The names in the directory at an absolute path. -/
def namesIn (path : Path) : IO (List String) := do
  let file := (← IO.currentDir) / path.text
  try
    let entries ← file.readDir
    return entries.toList.map fun entry => entry.fileName
  catch _ => return []

/-- Loads the entry at an absolute path and everything below it. -/
partial def loadBelow (s : Loading) (path : Path) : IO Loading := do
  match ← kindOf path with
  | some .dir =>
    if s.entered.contains path.text then return s
    let s : Loading := ⟨s.tree.put path .directory, path.text :: s.entered⟩
    let names ← namesIn path
    (names.filter (!skippedNames.contains ·)).foldlM (fun s name => loadBelow s (path / name)) s
  | some .symlink =>
    match ← realPath? path with
    | none => return s
    | some real =>
      let s ← loadBelow s real
      return { s with tree := s.tree.put path (.link real.text) }
  | some _ =>
    match ← contentsOf? path with
    | none => return s
    | some contents => return { s with tree := s.tree.put path (.file contents) }
  | none => return s

/-- Loads the directory at an absolute path without its entries. -/
def loadDirectory (s : Loading) (path : Path) : IO Loading := do
  match ← kindOf path with
  | some .dir => return { s with tree := s.tree.put path .directory }
  | some .symlink =>
    match ← realPath? path with
    | none => return s
    | some real =>
      return { s with tree := (s.tree.put real .directory).put path (.link real.text) }
  | _ => return s

/-- The absolute form of a path. -/
def Loading.absolute (s : Loading) (path : Path) : Path :=
  (Path.ofLocation s.tree.workingDirectory).join path

/-- Loads the directories above an absolute path. -/
def loadAbove (s : Loading) (path : Path) : IO Loading := do
  let components := path.components
  let above := (List.range components.length).map fun n => Path.ofComponents (components.take n)
  above.tail.foldlM loadDirectory s

/-- Loads the entry at a path, everything below it and the directories above it. -/
def load (s : Loading) (path : Path) : IO Loading := do
  loadBelow (← loadAbove s (s.absolute path)) (s.absolute path)

/-- Loads what is read of a root. -/
def loadRoot (s : Loading) (root : Path) : IO Loading := do
  let s ← load s (root / Locate.markerName)
  let s ← (linkedMetadata s.tree root).foldlM load s
  let s ← (linkedMetadata s.tree root).foldlM load s
  -- what a file or directory names is known once it is loaded itself
  let rounds := max GitConfig.includeLimit (ObjectStore.borrowLimit + 1)
  (List.range rounds).foldlM (fun s _ => (namedElsewhere s.tree root).foldlM load s) s

/-! ## Running -/

/-- Prints an outcome and gives its exit code. -/
def Outcome.print (o : Outcome) : IO UInt32 := do
  IO.print o.output
  for message in o.errors do
    IO.eprintln s!"error: {message}"
  return o.code.toUInt32

/-- Runs the program on the file system, the environment and the given arguments. -/
def runProgram (arguments : List String) : IO UInt32 := do
  let environment : Environment := {
    settingsFile := ← IO.getEnv "WORKTRACK_CONFIG"
    configHome := ← IO.getEnv "XDG_CONFIG_HOME"
    home := ← IO.getEnv "HOME" }
  let current := (Path.mk (← IO.currentDir).toString).components.filterMap fun component =>
    match component with
    | .name text => some text
    | _ => none
  let start : Loading := ⟨{ FileTree.empty with workingDirectory := current }, []⟩
  let start ← loadAbove start (.ofLocation (current ++ [Locate.markerName]))
  let process : Process := ⟨start.tree, environment, arguments⟩
  let settings ← process.settingsFiles.foldlM load start
  let loaded ← { process with tree := settings.tree }.roots.foldlM loadRoot settings
  (run { process with tree := loaded.tree }).print

end WorktreeTracker

/-- The command line program. -/
def main (arguments : List String) : IO UInt32 := WorktreeTracker.runProgram arguments
