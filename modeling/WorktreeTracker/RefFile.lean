import WorktreeTracker.Failure
import WorktreeTracker.ObjectId

/-!
# Reference files

The text of HEAD, of a loose reference and of the file of packed references, as the plain reader
understands them.
-/

namespace WorktreeTracker

/-- What a reference file says. -/
inductive RefValue where
  /-- The name of another reference. -/
  | symbolic (target : String)
  /-- An object id. -/
  | direct (oid : Oid)
deriving DecidableEq

/-- The id that a reference file says, unless it names another reference. -/
def RefValue.oid? : RefValue → Option Oid
  | .symbolic _ => none
  | .direct oid => some oid

namespace RefFile

/-- What the line of a symbolic reference starts with. -/
def symbolicLead : String := "ref:"

/-- What the first line of the reference file at `path` says. -/
def parse (path : Path) (text : String) : Except ReadError RefValue :=
  let line := Text.trim (Text.firstLine text)
  match Text.after? symbolicLead line with
  | some target => .ok (.symbolic (Text.trim target))
  | none =>
    match Oid.create line with
    | .ok oid => .ok (.direct oid)
    | .error e => .error (.corrupt path e.message)

end RefFile

namespace PackedRefs

/-- Whether a trimmed line carries no reference: it is empty, a comment or the id that an annotated
tag stands for. -/
def isSkipped (line : String) : Bool :=
  line.isEmpty || Text.startsWith "#" line || Text.startsWith "^" line

/-- The reference on one trimmed line. -/
def parseLine (line : String) : Except String (String × Oid) :=
  match Text.cut? ' ' line with
  | none => .error "expected '<oid> <refname>'"
  | some (id, name) =>
    match Oid.create id with
    | .ok oid => .ok (Text.trim name, oid)
    | .error e => .error e.message

/-- The references on the lines of the file at `path`, the first of them numbered `number`. -/
def parseLines (path : Path) : (number : Nat) → List String → Except ReadError (List (String × Oid))
  | _, [] => .ok []
  | number, line :: rest =>
    let line := Text.trim line
    if isSkipped line then parseLines path (number + 1) rest
    else
      match parseLine line with
      | .error problem => .error (.corrupt path s!"line {number}: {problem}")
      | .ok entry => (parseLines path (number + 1) rest).map (entry :: ·)

/-- The references in the text of the packed file at `path`, in the order of its lines. -/
def parse (path : Path) (text : String) : Except ReadError (List (String × Oid)) :=
  parseLines path 1 (Text.lines text)

end PackedRefs

end WorktreeTracker
