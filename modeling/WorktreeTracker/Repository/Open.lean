import WorktreeTracker.Layout
import WorktreeTracker.Repository.RemoteTable

/-!
# Opening a repository

Finds the metadata of a working directory the way a full implementation of git does: the directory
or file `.git`, or else the directory itself, must hold HEAD and lead to objects and references. The
configuration is then read and decides whether the repository can be used and whether it has a
working directory at all.
-/

namespace WorktreeTracker

/-- A repository that was opened. The paths of directories end in a slash. -/
structure OpenRepository where
  /-- The metadata of the worktree. -/
  gitDir : Path
  /-- The metadata shared by the worktrees. -/
  commonDir : Path
  /-- The working directory. -/
  workDir : Path
  /-- The variables of the configuration. -/
  settings : List GitConfig.Setting
deriving DecidableEq

namespace OpenRepository

/-- Why a repository cannot be opened. -/
inductive OpenFailure where
  /-- There is no repository with a working directory. -/
  | notFound
  /-- There is one, but it cannot be used. -/
  | unusable (problem : String)
deriving DecidableEq, Repr

/-- The path with a slash at its end. -/
def asDirectory (p : Path) : Path :=
  if Text.endsWith "/" p.text then p else ⟨p.text ++ "/"⟩

/-- The canonical path of a directory, ended by a slash. -/
def canonical (t : FileTree) (p : Path) : Except OpenFailure Path :=
  match t.canonicalPath p with
  | .ok path => .ok (asDirectory path)
  | .error .notFound => .error .notFound
  | .error .notADirectory => .error .notFound
  | .error fault => .error (.unusable fault.message)

/-- The text of a file without the blanks at its end. -/
def readTrimmed (t : FileTree) (file : Path) : Except OpenFailure String :=
  match t.readText file with
  | .ok text => .ok (String.ofList (Text.dropTrailing Text.isSpace text.toList))
  | .error fault => .error (.unusable fault.message)

/-! ## Finding the metadata -/

/-- The shared directory of the metadata in `gitDir`. -/
def sharedDir (t : FileTree) (gitDir : Path) : Except OpenFailure Path := do
  let file := gitDir / "commondir"
  if t.isFile file then canonical t (gitDir.join ⟨← readTrimmed t file⟩)
  else return asDirectory gitDir

/-- The shared directory of `gitDir` when that holds the metadata of a repository. -/
def metadataAt? (t : FileTree) (gitDir : Path) : Except OpenFailure (Option Path) := do
  if !t.isFile (gitDir / "HEAD") then return none
  let commonDir ← sharedDir t gitDir
  if t.isDirectory (commonDir / "objects") && t.isDirectory (commonDir / "refs") then
    return some commonDir
  return none

/-- The directory that the file `.git` of `root` names. -/
def linkedDir (t : FileTree) (root marker : Path) : Except OpenFailure Path := do
  let text ← readTrimmed t marker
  match Text.after? "gitdir:" text with
  | none => throw (.unusable "the .git file is malformed")
  | some "" => throw (.unusable "the .git file is malformed")
  | some target =>
    canonical t (root.join ⟨String.ofList (target.toList.dropWhile Text.isSpace)⟩)

/-- Where the metadata of a working directory is. -/
structure Located where
  /-- The metadata of the worktree. -/
  gitDir : Path
  /-- The metadata shared by the worktrees. -/
  commonDir : Path
  /-- The directory in which the metadata, or the file that leads to it, was found. -/
  foundIn : Path

/-- Finds the metadata of the working directory `root`, which is given by its canonical path. -/
def find (t : FileTree) (root : Path) : Except OpenFailure Located := do
  let marker := root / ".git"
  if t.isFile marker then
    let gitDir ← linkedDir t root marker
    match ← metadataAt? t gitDir with
    | some commonDir => return ⟨gitDir, commonDir, asDirectory root⟩
    | none => throw .notFound
  let atMarker ← if t.isDirectory marker then metadataAt? t marker else pure none
  match atMarker with
  | some commonDir => return ⟨asDirectory marker, commonDir, asDirectory root⟩
  | none =>
    let atRoot ← if t.isDirectory root then metadataAt? t root else pure none
    match atRoot with
    | some commonDir =>
      return ⟨asDirectory root, commonDir, asDirectory (.ofComponents root.components.dropLast)⟩
    | none => throw .notFound

/-! ## Configuration -/

/-- The last value set for a variable as text. -/
def valueOf? (settings : List GitConfig.Setting) (key : String) : Option String :=
  (GitConfig.last? settings key).bind Text.decode?

/-- The whole number that a value writes, with a suffix for powers of 1024. -/
def integer? (value : String) : Option Int := do
  let (sign, digits) : Int × List Char := match value.toList with
    | '-' :: rest => (-1, rest)
    | rest => (1, rest)
  let number := digits.takeWhile Char.isDigit
  guard (!number.isEmpty)
  let n ← Text.decimalFrom? 0 number
  let scale ← match (digits.drop number.length).map Text.lowerAscii with
    | [] => some 1
    | ['k'] => some 1024
    | ['m'] => some (1024 * 1024)
    | ['g'] => some (1024 * 1024 * 1024)
    | _ => none
  return sign * (n * scale : Nat)

/-- The truth value that a variable has; one without a value is true. -/
def flag? (settings : List GitConfig.Setting) (key : String) : Except OpenFailure (Option Bool) :=
  match settings.reverse.find? fun s => s.key = Text.encode key with
  | none => .ok none
  | some ⟨_, none⟩ => .ok (some true)
  | some ⟨_, some value⟩ =>
    let text := Text.lower ((Text.decode? value).getD "?")
    if ["true", "yes", "on"].contains text then .ok (some true)
    else if ["false", "no", "off", ""].contains text then .ok (some false)
    else match integer? text with
      | some n => .ok (some (n ≠ 0))
      | none => .error (.unusable s!"failed to parse the value of {key}")

/-- The extensions of the repository format that are understood. -/
def knownExtensions : List String :=
  ["extensions.noop", "extensions.objectformat", "extensions.preciousobjects",
    "extensions.worktreeconfig"]

/-- Checks that the format of the repository is understood. -/
def checkFormat (settings : List GitConfig.Setting) : Except OpenFailure Unit :=
  let version := (valueOf? settings "core.repositoryformatversion").map integer?
  let extensions := settings.filter fun s =>
    (Text.charsAfter? (Text.encode "extensions.") s.key).isSome
  match version with
  | none => .ok ()
  | some none => .error (.unusable "the repository format is not a number")
  | some (some version) =>
    if version < 0 ∨ 1 < version then .error (.unusable s!"unsupported repository version {version}")
    else if version = 1 ∧ extensions.any fun s => !knownExtensions.any (Text.encode · = s.key) then
      .error (.unusable "unsupported extension")
    else if version = 1 ∧ (valueOf? settings "extensions.objectformat").any (· ≠ "sha1") then
      .error (.unusable "unknown object format")
    else .ok ()

/-! ## The working directory -/

/-- Whether the metadata is that of a linked worktree. -/
def isWorktree (t : FileTree) (l : Located) : Bool :=
  l.gitDir.text ≠ l.commonDir.text && t.isPresent (l.gitDir / "gitdir")

/-- The directory that holds the entry at a path, ended by a slash. -/
def parentOf (p : Path) : Path :=
  asDirectory (.ofComponents p.components.dropLast)

/-- The working directory that the metadata belongs to. -/
def workDirOf (t : FileTree) (settings : List GitConfig.Setting) (l : Located) :
    Except OpenFailure Path := do
  if isWorktree t l then
    let link ← readTrimmed t (l.gitDir / "gitdir")
    return parentOf (l.gitDir.join ⟨link⟩)
  match valueOf? settings "core.worktree" with
  | some path => return (canonical t (l.gitDir.join ⟨path⟩)).toOption.getD l.foundIn
  | none => return l.foundIn

end OpenRepository

/-- Opens the repository whose working directory is exactly `root`. -/
def openRepository (t : FileTree) (root : Path) :
    Except OpenRepository.OpenFailure OpenRepository := do
  let canonicalRoot ← OpenRepository.canonical t root
  let located ← OpenRepository.find t (.ofComponents canonicalRoot.components)
  let settings ← (GitConfig.load t (located.commonDir / "config")).mapError .unusable
  OpenRepository.checkFormat settings
  if (← OpenRepository.flag? settings "core.bare").getD false then throw .notFound
  let workDir ← OpenRepository.workDirOf t settings located
  return ⟨located.gitDir, located.commonDir, workDir, settings⟩

end WorktreeTracker
