import WorktreeTracker.Name
import WorktreeTracker.OrderedMap
import WorktreeTracker.Repository.Object

/-!
# The reference database

References as an opened repository sees them: a loose file wins over the packed entry, a damaged
loose file is an error of its own, and a symbolic reference is followed a bounded number of times.
Names are checked by the rules of lookups, which differ from those for listing in a few corners.
-/

namespace WorktreeTracker

namespace RefDatabase

/-! ## Names -/

/-- Whether a name consists of capital letters and inner underscores. -/
def isCapital (name : String) : Bool :=
  let cs := name.toList
  !cs.isEmpty && cs.all (fun c => ('A' ≤ c && c ≤ 'Z') || c == '_') &&
    cs.head? != some '_' && cs.getLast? != some '_'

/-- The characters that a name never holds, apart from blanks and control characters. -/
def reservedChars : List Char := ['~', '^', ':', '\\', '?', '[']

/-- Whether a character may stand in a name that is looked up; a star only in a pattern. -/
def isNameChar (isPattern : Bool) (c : Char) : Bool :=
  0x20 < c.toNat && !reservedChars.contains c && (isPattern || c != '*')

/-- Whether a component of a name may be looked up. -/
def isSegment (isPattern : Bool) (segment : String) : Bool :=
  !Text.startsWith "." segment && segment.toList.all (isNameChar isPattern) &&
    !Text.occursIn "..".toList segment.toList && !Text.occursIn "@\x7b".toList segment.toList &&
    !Text.endsWith ".lock" segment

/-- What a name may look like. -/
structure NameRules where
  /-- Whether one star is accepted. -/
  pattern : Bool
  /-- Whether a name without a slash need not be in capitals. -/
  shorthand : Bool

/-- The components of a name that may be used under the given rules; repeated slashes count as
one. -/
def segments? (rules : NameRules) (name : String) : Option (List String) := do
  guard (!Text.startsWith "/" name)
  let segments := (Text.splitOn '/' name).filter (!·.isEmpty)
  guard (segments.all (isSegment rules.pattern))
  guard (name.toList.count '*' ≤ 1)
  guard (!Text.endsWith "." name && !Text.endsWith "/" name)
  match segments with
  | [] => none
  | [single] =>
    guard (rules.shorthand || isCapital single || (rules.pattern && single = "*"))
    return [single]
  | first :: rest =>
    guard (!isCapital first)
    return first :: rest

/-- The name under which a reference is looked up. -/
def lookupName? (name : String) : Option String :=
  (segments? ⟨false, false⟩ name).map ("/".intercalate ·)

/-! ## Loose references -/

/-- Whether a reference belongs to a worktree of its own. -/
def isPerWorktree (name : String) : Bool :=
  !Text.startsWith "refs/" name || Text.startsWith "refs/bisect/" name ||
    Text.startsWith "refs/worktree/" name || Text.startsWith "refs/rewritten/" name

/-- What the contents of a loose reference file point at. -/
def parseLoose (contents : List Char) : Except LookupFailure RefTarget :=
  match Text.charsAfter? "ref: ".toList contents with
  | some target =>
    match (Text.dropTrailing Text.isSpace target).takeWhile (· ≠ '\x00') with
    | [] => .error (.damaged "corrupted loose reference file")
    | target => .ok (.symbolic target)
  | none =>
    let digits := String.ofList (contents.take 40)
    match Oid.create digits, (contents.drop 40).head? with
    | .ok oid, none => .ok (.direct oid none)
    | .ok oid, some c =>
      if Text.isSpace c || c = '\x00' then .ok (.direct oid none)
      else .error (.damaged "corrupted loose reference file")
    | .error _, _ => .error (.damaged "corrupted loose reference file")

/-- What the loose reference `name` points at. A path that leads nowhere or to a directory holds no
reference. -/
def looseLookup (t : FileTree) (gitDir commonDir : Path) (name : String) :
    Except LookupFailure RefTarget :=
  match t.readFile ((if isPerWorktree name then gitDir else commonDir) / name) with
  | .ok contents => parseLoose (Text.byteChars contents.data.toList)
  | .error .notFound => .error .notFound
  | .error .notADirectory => .error .notFound
  | .error .isADirectory => .error .notFound
  | .error .nameTooLong => .error .invalidSpec
  | .error fault => .error (.damaged fault.message)

/-! ## Packed references -/

/-- The packed references: the objects they point at, by name as bytes. -/
abbrev PackedTable := OrderedMap (List Char) (Oid × Option Oid)

/-- The id at the front of a line. -/
def leadingId? (line : List Char) : Option Oid :=
  (Oid.create (String.ofList (line.take 40))).toOption.filter fun oid => oid.text.length = 40

/-- The reference on a line: an id, a space and the name. -/
def packedLine? (line : List Char) : Option (List Char × Oid) := do
  let oid ← leadingId? line
  match line.drop 40 with
  | ' ' :: name => some ((Text.dropReturn name).takeWhile (· ≠ '\x00'), oid)
  | _ => none

/-- Adds a reference; what is known of its tag stays unless it is given anew. -/
def addPacked (table : PackedTable) (name : List Char) (oid : Oid) (peeled : Option Oid) :
    PackedTable :=
  table.alter name fun old => (oid, peeled.or (old.bind Prod.snd))

/-- Reads the lines after the comments at the top, each ended by a newline, the last piece being
what follows the last newline. A line with a caret tells what the tag before it stands for. -/
def parsePackedLines (table : PackedTable) : List (List Char) → Option PackedTable
  | [] => some table
  | [rest] => if rest.isEmpty then some table else none
  | line :: ('^' :: id) :: rest => do
    let (name, oid) ← packedLine? line
    let peeled ← leadingId? id
    guard (!rest.isEmpty || id.length = 40)
    parsePackedLines (addPacked table name oid (some peeled)) rest
  | line :: rest => do
    let (name, oid) ← packedLine? line
    parsePackedLines (addPacked table name oid none) rest

/-- The packed references in the contents of their file. Comments stand at the top, each on a line
that is ended. -/
def parsePacked? (contents : List Char) : Option PackedTable := do
  let lines := (contents.splitOn '\n').dropWhile fun line => line.head? = some '#'
  guard (!lines.isEmpty)
  parsePackedLines .empty lines

/-- The packed references of a repository. -/
def packedTable (t : FileTree) (commonDir : Path) : Except LookupFailure PackedTable :=
  match t.readFile (commonDir / "packed-refs") with
  | .error _ => .ok .empty
  | .ok contents =>
    match parsePacked? (Text.byteChars contents.data.toList) with
    | some table => .ok table
    | none => .error (.damaged "corrupted packed references file")

/-! ## Looking up -/

/-- What the reference `name` points at. -/
def lookup (t : FileTree) (gitDir commonDir : Path) (name : String) :
    Except LookupFailure RefTarget :=
  match looseLookup t gitDir commonDir name with
  | .error .notFound => do
    match (← packedTable t commonDir).find? (Text.encode name) with
    | some (oid, peeled) => return .direct oid peeled
    | none => throw .notFound
  | result => result

/-- What the reference of the given bytes points at. -/
def lookupBytes (t : FileTree) (gitDir commonDir : Path) (name : List Char) :
    Except LookupFailure RefTarget :=
  match Text.decode? name with
  | some name => lookup t gitDir commonDir name
  | none => .error .notFound

/-- The number of symbolic references that are followed after the first. -/
def nestingLimit : Nat := 5

/-- The object that `target` leads to, following at most `steps` symbolic references. -/
def followTarget (t : FileTree) (gitDir commonDir : Path) :
    (steps : Nat) → RefTarget → Except LookupFailure (Oid × Option Oid)
  | _, .direct oid peeled => .ok (oid, peeled)
  | 0, .symbolic _ => .error (.damaged "cannot resolve reference")
  | steps + 1, .symbolic target => do
    followTarget t gitDir commonDir steps (← lookupBytes t gitDir commonDir target)

/-- The object that a reference leads to, symbolic references followed. -/
def resolveTarget (t : FileTree) (gitDir commonDir : Path) :
    RefTarget → Except LookupFailure (Oid × Option Oid)
  | .direct oid peeled => .ok (oid, peeled)
  | .symbolic target =>
    match (Text.decode? target).bind lookupName? with
    | none => .error .invalidSpec
    | some name => do
      followTarget t gitDir commonDir nestingLimit (← lookup t gitDir commonDir name)

/-- The commit that a reference leads to. -/
def peelToCommit (t : FileTree) (gitDir commonDir : Path) (target : RefTarget) :
    Except LookupFailure Oid := do
  let (oid, peeled) ← resolveTarget t gitDir commonDir target
  ObjectStore.commitOf t commonDir ((peeled.filter (!·.isZero)).getD oid)

/-! ## Listing -/

/-- The names of the loose references, by increasing name. Lock files are passed over. -/
def looseNames (t : FileTree) (commonDir : Path) : List String :=
  match t.resolve (commonDir / "refs") true with
  | .ok (location, .directory) =>
    let names := (t.leavesBelow location).map fun (names, _) => "refs/" ++ "/".intercalate names
    (names.filter (!Text.endsWith ".lock" ·)).mergeSort fun a b => !(b < a)
  | _ => []

/-- Every reference with a name that is text: the loose ones that can be read, then the packed ones
that no loose one hides. -/
def all (t : FileTree) (gitDir commonDir : Path) :
    Except LookupFailure (List (String × RefTarget)) := do
  let packed ← packedTable t commonDir
  let loose := (looseNames t commonDir).filterMap fun name =>
    (looseLookup t gitDir commonDir name).toOption.map (name, ·)
  let rest := packed.entries.filterMap fun (name, oid, peeled) => do
    let name ← Text.decode? name
    guard (loose.all fun entry => entry.1 ≠ name)
    return (name, RefTarget.direct oid peeled)
  return loose ++ rest

end RefDatabase

end WorktreeTracker
