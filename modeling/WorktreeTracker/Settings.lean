import WorktreeTracker.Failure
import WorktreeTracker.SettingsText
import WorktreeTracker.StoreKind

/-!
# Settings

The settings of a user and those of one repository. Both are decoded from a table in which every key
must be known, then checked value by value. A file that is not there sets nothing; a file that
cannot be read, parsed or accepted is an error.
-/

namespace WorktreeTracker

/-! ## Decoding -/

namespace Value

/-- An optional text. -/
def optionalText : Value → Except DecodeError (Option String)
  | .null => .ok none
  | .text s => .ok (some s)
  | _ => .error .shape

/-- An optional count. -/
def optionalCount : Value → Except DecodeError (Option Nat)
  | .null => .ok none
  | .int n => if 0 ≤ n ∧ n.toNat ≤ Text.maxCount then .ok (some n.toNat) else .error .shape
  | _ => .error .shape

/-- A text. -/
def requiredText : Value → Except DecodeError String
  | .text s => .ok s
  | _ => .error .shape

/-- An optional list of texts. -/
def optionalTexts : Value → Except DecodeError (Option (List String))
  | .null => .ok none
  | .list items => (items.mapM requiredText).map some
  | _ => .error .shape

/-- The values of the named fields of a table, or of a list that gives the first of them in order.
A field that is left out is absent; a field that is not named is refused. -/
def fields (names : List String) : Value → Except DecodeError (List Value)
  | .table entries =>
    if entries.all fun e => names.contains e.1 then
      .ok (names.map fun name => (entries.lookup name).getD .null)
    else .error .shape
  | .list items =>
    if items.length ≤ names.length then
      .ok (items ++ List.replicate (names.length - items.length) .null)
    else .error .shape
  | _ => .error .shape

end Value

/-! ## Settings of a user -/

/-- The settings of a user. -/
structure UserSettings where
  /-- The backend to read with. -/
  backend : Option String
  /-- The number of events kept for a subscriber. -/
  eventCapacity : Option Nat
  /-- The level of log messages. -/
  logLevel : Option String
  /-- The roots to report on when none is given. -/
  roots : Option (List Path)
deriving DecidableEq, Repr

namespace UserSettings

/-- The settings that set nothing. -/
def empty : UserSettings := ⟨none, none, none, none⟩

/-- The keys of the settings. -/
def keys : List String := ["backend", "event_capacity", "log_level", "roots"]

/-- The accepted levels of log messages. -/
def logLevels : List String := ["trace", "debug", "info", "warn", "error"]

/-- The settings written as a value. -/
def ofValue (v : Value) : Except DecodeError UserSettings := do
  match ← v.fields keys with
  | [backend, eventCapacity, logLevel, roots] =>
    let roots ← roots.optionalTexts
    return {
      backend := ← backend.optionalText
      eventCapacity := ← eventCapacity.optionalCount
      logLevel := ← logLevel.optionalText
      roots := roots.map (·.map Path.mk) }
  | _ => throw .shape

end UserSettings

/-- Checks that a backend named in settings may be chosen there. -/
def checkBackend (backend : Option String) : Except SettingsError Unit :=
  match backend with
  | none => .ok ()
  | some name => (StoreKind.choose name).mapError .invalidValue |>.map fun _ => ()

namespace UserSettings

/-- Checks that a level of log messages is accepted. -/
def checkLogLevel (level : Option String) : Except SettingsError Unit :=
  match level with
  | none => .ok ()
  | some level =>
    let levels := ", ".intercalate logLevels
    if logLevels.contains level then .ok ()
    else .error (.invalidValue s!"invalid log_level '{level}', must be one of: {levels}")

/-- Checks the settings; the first value that is not acceptable is reported. -/
def validate (s : UserSettings) : Except SettingsError Unit := do
  checkBackend s.backend
  if s.eventCapacity = some 0 then
    throw (.invalidValue "event_capacity must be greater than zero")
  checkLogLevel s.logLevel

end UserSettings

/-! ## Settings of a repository -/

/-- The settings of one repository, shared by its worktrees. -/
structure RepositorySettings where
  /-- The backend to read this repository with. -/
  backend : Option String
  /-- The only remotes whose branches count. -/
  remotes : Option (List String)
deriving DecidableEq, Repr

namespace RepositorySettings

/-- The settings that set nothing. -/
def empty : RepositorySettings := ⟨none, none⟩

/-- The keys of the settings. -/
def keys : List String := ["backend", "remotes"]

/-- The settings written as a value. -/
def ofValue (v : Value) : Except DecodeError RepositorySettings := do
  match ← v.fields keys with
  | [backend, remotes] =>
    return { backend := ← backend.optionalText, remotes := ← remotes.optionalTexts }
  | _ => throw .shape

/-- Checks that the name of a remote keeps the rules of new branch names. -/
def checkRemote (remote : String) : Except SettingsError Unit :=
  match BranchName.create remote with
  | .ok _ => .ok ()
  | .error e => .error (.invalidValue s!"invalid remote name '{remote}': {e.message}")

/-- Checks the settings; the first value that is not acceptable is reported. -/
def validate (s : RepositorySettings) : Except SettingsError Unit := do
  checkBackend s.backend
  (s.remotes.getD []).forM checkRemote

end RepositorySettings

/-! ## Files -/

/-- Reads and decodes a settings file. -/
def readSettings {α : Type} (decode : Value → Except DecodeError α) (t : FileTree) (path : Path) :
    Except SettingsError α := do
  let text ← (t.readText path).mapError (.unreadable path)
  match SettingsText.parse? text with
  | none => throw (.unparsable path "the file is not a list of settings")
  | some value =>
    (decode value).mapError fun _ => .unparsable path "a setting is unknown or not of its type"

/-- The settings of the repository in the file at `path`, when there is one. -/
def RepositorySettings.load (t : FileTree) (path : Path) :
    Except SettingsError (Option RepositorySettings) := do
  if !t.isPresent path then return none
  let settings ← readSettings RepositorySettings.ofValue t path
  settings.validate
  return some settings

/-- The settings of a user with the file they come from. -/
structure Configuration where
  /-- The settings. -/
  settings : UserSettings
  /-- The file, when one was loaded. -/
  loadedFrom : Option Path
deriving DecidableEq, Repr

/-- The environment variables that settings are looked for with. -/
structure Environment where
  /-- The value of `WORKTRACK_CONFIG`. -/
  settingsFile : Option String
  /-- The value of `XDG_CONFIG_HOME`. -/
  configHome : Option String
  /-- The value of `HOME`. -/
  home : Option String
deriving DecidableEq, Repr

namespace Configuration

/-- The configuration without a file. -/
def default : Configuration := ⟨.empty, none⟩

/-- The number of events kept for a subscriber when nothing is set. -/
def defaultEventCapacity : Nat := 64

/-- The configuration in the file at `path`. -/
def loadFrom (t : FileTree) (path : Path) : Except SettingsError Configuration := do
  let settings ← readSettings UserSettings.ofValue t path
  settings.validate
  return ⟨settings, some path⟩

/-- The files that may hold the settings of the user, the first one that is there counts. -/
def candidates (env : Environment) : List Path :=
  (env.settingsFile.map Path.mk).toList ++
    (env.configHome.map fun d => (Path.mk d) / "worktrack/config.toml").toList ++
    ((env.home.filter (!·.isEmpty)).map fun d => (Path.mk d) / ".worktrack/config.toml").toList

/-- The configuration of the user, the default one when there is no file. -/
def load (t : FileTree) (env : Environment) : Except SettingsError Configuration :=
  match (candidates env).find? t.isPresent with
  | some path => loadFrom t path
  | none => .ok default

/-- The backend to read with. -/
def backend (c : Configuration) : StoreKind :=
  (c.settings.backend.bind StoreKind.ofName?).getD .libgit

/-- The number of events kept for a subscriber. -/
def eventCapacity (c : Configuration) : Nat :=
  c.settings.eventCapacity.getD defaultEventCapacity

/-- The level of log messages. -/
def logLevel (c : Configuration) : String :=
  c.settings.logLevel.getD "warn"

/-- The roots to report on when none is given. -/
def roots (c : Configuration) : List Path :=
  c.settings.roots.getD []

end Configuration

end WorktreeTracker
