import WorktreeTracker.Text

/-!
# Kinds of stores

The backends that metadata can be read through, and the names they are chosen by.
-/

namespace WorktreeTracker

/-- A backend that reads metadata. -/
inductive StoreKind where
  /-- Opens the repository and follows its object database. -/
  | libgit
  /-- Reads the files of the repository directly. -/
  | files
  /-- Holds repositories in memory. -/
  | memory
deriving DecidableEq, Repr

namespace StoreKind

/-- Every backend, in the order they are listed. -/
def all : List StoreKind := [.libgit, .files, .memory]

/-- The name that settings and the command line use. -/
def name : StoreKind → String
  | .libgit => "libgit"
  | .files => "files"
  | .memory => "memory"

/-- The backend of the given name in any case. No other letter has an ASCII letter of these names as
its whole lower-case form, so lowering ASCII letters is enough. -/
def ofName? (name : String) : Option StoreKind :=
  all.find? fun kind => kind.name = Text.lower name

/-- Whether settings may choose the backend. -/
def isConfigurable : StoreKind → Bool
  | .libgit => true
  | .files => true
  | .memory => false

/-- The names of the backends that settings may choose. -/
def configurableNames : List String :=
  (all.filter isConfigurable).map name

/-- The refusal of a name that is no backend to be chosen. -/
def refusal (name : String) : String :=
  let names := ", ".intercalate configurableNames
  s!"invalid backend '{name}', must be one of: {names}"

/-- The backend of the given name when it may be chosen, or the refusal. -/
def choose (name : String) : Except String StoreKind :=
  match (ofName? name).filter isConfigurable with
  | some kind => .ok kind
  | none => .error (refusal name)

end StoreKind

end WorktreeTracker
