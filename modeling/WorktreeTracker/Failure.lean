import WorktreeTracker.FileTree
import WorktreeTracker.Identifier

/-!
# Failures

The errors of each layer and the maps between them. Reading metadata gives a `ReadError`, a store
narrows it to a `StoreError`, and the tracker names the root it concerns in a `TrackError`. The maps
decide how a failure is classified, so they are total functions on these types.
-/

namespace WorktreeTracker

/-! ## Reading metadata -/

/-- Why the metadata of a repository cannot be read. -/
inductive ReadError where
  /-- There is no repository at the path. -/
  | notARepository (path : Path)
  /-- The metadata at the path is malformed. -/
  | corrupt (path : Path) (problem : String)
  /-- The reference does not exist. -/
  | refNotFound (name : String)
  /-- The text is no object id. -/
  | invalidOid (text : String)
  /-- The name is not acceptable for a reference. -/
  | invalidRefName (problem : String)
  /-- The file system refuses an access. -/
  | access (problem : String)
  /-- The metadata is consistent on the surface but cannot be used. -/
  | internal (problem : String)
deriving DecidableEq, Repr

namespace ReadError

/-- The message shown for the error. -/
def message : ReadError → String
  | .notARepository path => s!"not a git repository: {path}"
  | .corrupt path problem => s!"corrupt repository metadata at {path}: {problem}"
  | .refNotFound name => s!"ref not found: {name}"
  | .invalidOid text => s!"invalid object id: {text}"
  | .invalidRefName problem => s!"invalid ref name: {problem}"
  | .access problem => s!"repository access error: {problem}"
  | .internal problem => s!"git error: {problem}"

/-- The refusal of an access to a path. -/
def ofFault (path : Path) (fault : Fault) : ReadError :=
  .access s!"{path}: {fault.message}"

/-- The error for a rejected identifier. -/
def ofInvalid (e : InvalidIdentifier) : ReadError :=
  match e.kind with
  | .objectId => .invalidOid e.detail
  | .refName => .invalidRefName e.detail
  | .branchName => .invalidRefName e.detail

end ReadError

/-! ## Reading through a store -/

/-- Why a store gives no answer for a root. -/
inductive StoreError where
  /-- There is no repository at the path. -/
  | notARepository (path : Path)
  /-- The metadata is there but cannot be read. -/
  | unreadable (problem : String)
  /-- HEAD is missing or cannot be parsed. -/
  | missingHead (problem : String)
deriving DecidableEq, Repr

namespace StoreError

/-- The message shown for the error. -/
def message : StoreError → String
  | .notARepository path => s!"not a git repository: {path}"
  | .unreadable problem => s!"cannot read repository metadata: {problem}"
  | .missingHead problem => s!"HEAD is missing or unreadable: {problem}"

/-- The store error for a failed read. -/
def ofRead : ReadError → StoreError
  | .notARepository path => .notARepository path
  | e => .unreadable e.message

/-- The store error for a failed read of HEAD: a HEAD that is absent or malformed counts as missing,
anything else is a failed read. -/
def ofHeadRead (e : ReadError) : StoreError :=
  match e with
  | .refNotFound _ => .missingHead e.message
  | .corrupt _ _ => .missingHead e.message
  | .invalidOid _ => .missingHead e.message
  | .invalidRefName _ => .missingHead e.message
  | .notARepository _ => ofRead e
  | .access _ => ofRead e
  | .internal _ => ofRead e

end StoreError

/-! ## Settings -/

/-- Why settings cannot be used. -/
inductive SettingsError where
  /-- The file cannot be read. -/
  | unreadable (path : Path) (fault : Fault)
  /-- The file cannot be parsed. -/
  | unparsable (path : Path) (problem : String)
  /-- A value is not acceptable. -/
  | invalidValue (problem : String)
deriving DecidableEq, Repr

/-- The message shown for the error. -/
def SettingsError.message : SettingsError → String
  | .unreadable path fault => s!"failed to read config file '{path}': {fault.message}"
  | .unparsable path problem => s!"failed to parse config file '{path}': {problem}"
  | .invalidValue problem => s!"invalid config value: {problem}"

/-- What caused the error, when that is an error of its own. -/
def SettingsError.cause? : SettingsError → Option String
  | .unreadable _ fault => some fault.message
  | .unparsable _ _ => none
  | .invalidValue _ => none

/-! ## Tracking -/

/-- Why the tracker cannot do what it is asked. -/
inductive TrackError where
  /-- There is no repository at the root. -/
  | notARepository (root : Path)
  /-- The metadata of the root cannot be read. -/
  | unreadable (root : Path) (problem : String)
  /-- HEAD is detached, missing or malformed where a branch is needed. -/
  | noCurrentBranch (root : Path) (problem : String)
  /-- The root is not registered. -/
  | notRegistered (root : Path)
  /-- No store of this name is available. -/
  | unknownBackend (name : String)
  /-- The settings of the repository cannot be used. -/
  | settings (error : SettingsError)
deriving DecidableEq, Repr

namespace TrackError

/-- The message shown for the error. -/
def message : TrackError → String
  | .notARepository root => s!"not a git repository: {root}"
  | .unreadable root problem => s!"failed to read repository at {root}: {problem}"
  | .noCurrentBranch root problem => s!"no current branch in {root}: {problem}"
  | .notRegistered root => s!"repository not registered: {root}"
  | .unknownBackend name => s!"unknown backend '{name}'"
  | .settings e => e.message

/-- The error of the tracker for a store that gives no answer for `root`. -/
def ofStore (root : Path) : StoreError → TrackError
  | .notARepository _ => .notARepository root
  | .unreadable problem => .unreadable root problem
  | .missingHead problem => .noCurrentBranch root problem

/-- The root that the error concerns. -/
def root? : TrackError → Option Path
  | .notARepository root => some root
  | .unreadable root _ => some root
  | .noCurrentBranch root _ => some root
  | .notRegistered root => some root
  | .unknownBackend _ => none
  | .settings _ => none

/-- What caused the error, when that is an error of its own. -/
def cause? : TrackError → Option String
  | .settings e => e.cause?
  | _ => none

end TrackError

end WorktreeTracker
