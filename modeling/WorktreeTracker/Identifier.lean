/-!
# Rejected identifiers

The one error that checking a branch name, an object id or a ref name can give.
-/

namespace WorktreeTracker

/-- The identifiers that are checked when they are made. -/
inductive IdentifierKind where
  /-- The short name of a branch. -/
  | branchName
  /-- The hexadecimal id of an object. -/
  | objectId
  /-- The full name of a reference. -/
  | refName
deriving DecidableEq, Repr

/-- What an identifier of this kind is called in a message. -/
def IdentifierKind.noun : IdentifierKind → String
  | .branchName => "branch name"
  | .objectId => "object id"
  | .refName => "ref name"

/-- A text that is no identifier of the given kind, and why. -/
structure InvalidIdentifier where
  /-- The identifier that was asked for. -/
  kind : IdentifierKind
  /-- The rule that the text breaks. -/
  detail : String
deriving DecidableEq, Repr

/-- The message shown for a rejected identifier. -/
def InvalidIdentifier.message (e : InvalidIdentifier) : String :=
  s!"invalid {e.kind.noun}: {e.detail}"

end WorktreeTracker
