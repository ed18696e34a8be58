import WorktreeTracker.Name
import WorktreeTracker.ObjectId

/-!
# Structured values

The values that settings are decoded from and reports are written as. Identifiers are written as
texts and read back through the checks of new identifiers.
-/

namespace WorktreeTracker

/-- A structured value. -/
inductive Value where
  /-- The absent value. -/
  | null
  /-- A truth value. -/
  | bool (b : Bool)
  /-- A whole number. -/
  | int (n : Int)
  /-- A number that is not whole, as written. -/
  | real (text : String)
  /-- A text. -/
  | text (s : String)
  /-- A list of values. -/
  | list (items : List Value)
  /-- A list of named values. -/
  | table (fields : List (String × Value))
deriving Inhabited

namespace Value

/-- The value of an optional text. -/
def ofText? : Option String → Value
  | some s => .text s
  | none => .null

end Value

/-- Why a value cannot be decoded. -/
inductive DecodeError where
  /-- The value has the wrong shape. -/
  | shape
  /-- The text is no identifier of the kind that is asked for. -/
  | identifier (error : InvalidIdentifier)
deriving DecidableEq, Repr

namespace DecodeError

/-- Decodes a text by a check of identifiers. -/
def ofCheck {α : Type} (check : String → Except InvalidIdentifier α) : Value → Except DecodeError α
  | .text s => (check s).mapError .identifier
  | _ => .error .shape

end DecodeError

/-! ## Identifiers -/

/-- The value that a branch name is written as. -/
def BranchName.toValue (name : BranchName) : Value := .text name.text

/-- Reads a branch name back under the rules for new branches. -/
def BranchName.ofValue : Value → Except DecodeError BranchName := DecodeError.ofCheck BranchName.create

/-- The value that an object id is written as. -/
def Oid.toValue (oid : Oid) : Value := .text oid.text

/-- Reads an object id back. -/
def Oid.ofValue : Value → Except DecodeError Oid := DecodeError.ofCheck Oid.create

/-- The value that a ref name is written as. -/
def RefName.toValue (name : RefName) : Value := .text name.text

/-- Reads a ref name back. -/
def RefName.ofValue : Value → Except DecodeError RefName := DecodeError.ofCheck RefName.create

end WorktreeTracker
