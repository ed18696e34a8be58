import WorktreeTracker.Digest.Sha1
import WorktreeTracker.Repository.Library
import WorktreeTracker.Repository.Pack

/-!
# The object database

Objects kept in packs and in files of their own, here and in the directories that objects are
borrowed from, and the commit that an object id stands for once annotated tags are followed. An
object counts only when it has the digest that it is named by.
-/

namespace WorktreeTracker

namespace ObjectStore

/-- The kinds of objects. -/
inductive Kind where
  /-- A commit. -/
  | commit
  /-- A directory of a commit. -/
  | tree
  /-- The contents of a file. -/
  | blob
  /-- An annotated tag. -/
  | tag
deriving DecidableEq, Repr

/-- The name of a kind in the header of an object. -/
def Kind.name : Kind → String
  | .commit => "commit"
  | .tree => "tree"
  | .blob => "blob"
  | .tag => "tag"

/-- Every kind, in the order of their numbers in packs. -/
def Kind.all : List Kind := [.commit, .tree, .blob, .tag]

/-- The kind of the given name. -/
def Kind.ofName? (name : List Char) : Option Kind :=
  Kind.all.find? fun kind => kind.name.toList = name

/-- The kind of the given number, counted from one. -/
def Kind.ofNumber? (n : Nat) : Option Kind :=
  if n = 0 then none else Kind.all[n - 1]?

/-- An object: its kind and its contents, each byte as the character of the same number. -/
structure StoredObject where
  /-- The kind. -/
  kind : Kind
  /-- The contents after the header. -/
  body : List Char
deriving DecidableEq

/-- The bytes that the id of an object is the digest of. -/
def StoredObject.bytes (object : StoredObject) : List UInt8 :=
  Text.bytes s!"{object.kind.name} {object.body.length}\x00" ++
    object.body.map fun c => UInt8.ofNat c.toNat

/-! ## Objects in files of their own -/

/-- The file of an object. -/
def objectFile (objects : Path) (oid : Oid) : Path :=
  let digits := oid.text.toList
  objects / String.ofList (digits.take 2) / String.ofList (digits.drop 2)

/-- The object in a list of bytes: the name of its kind, its size, a zero byte and its contents. -/
def parseObject? (chars : List Char) : Option StoredObject := do
  let (kind, rest) ← Text.cutChars? ' ' chars
  let kind ← Kind.ofName? kind
  let (size, body) ← Text.cutChars? '\x00' rest
  guard (!size.isEmpty)
  let size ← Text.decimalFrom? 0 size
  guard (size = body.length)
  return ⟨kind, body⟩

/-- The object in a file of its own in the directory `objects`. -/
def readLoose (t : FileTree) (objects : Path) (oid : Oid) : Except LookupFailure StoredObject :=
  match t.readFile (objectFile objects oid) with
  | .error .isADirectory => .error (.damaged "the object is a directory")
  | .error _ => .error .notFound
  | .ok contents =>
    match Inflate.decode? contents.data.toList with
    | none => .error (.damaged "the object cannot be decompressed")
    | some bytes =>
      match parseObject? (Text.byteChars bytes) with
      | none => .error (.damaged "the object has no valid header")
      | some object => .ok object

/-! ## Objects in packs -/

/-- The packs in the directory `objects`: the indexes that can be read and have a pack beside them.
A file that tells for several packs at once which of them has an object adds nothing to these. -/
def packs (t : FileTree) (objects : Path) : List Pack :=
  match t.resolve (objects / "pack") true with
  | .ok (location, .directory) =>
    (t.names location).filterMap fun name => do
      let stem ← Text.before? ".idx" name
      let index ← PackIndex.read? (← (t.readFile (objects / "pack" / name)).toOption)
      Pack.read? (← (t.readFile (objects / "pack" / (stem ++ ".pack"))).toOption) index
  | _ => []

/-- The object in the first of the packs whose index has it. -/
def findPacked (oid : Oid) : List Pack → Except LookupFailure StoredObject
  | [] => .error .notFound
  | pack :: rest =>
    match pack.index.find? (Bytes.ofDigits oid.text.toList) with
    | none => findPacked oid rest
    | some offset =>
      match (pack.entry? pack.index.count offset).bind fun (kind, body) =>
          (Kind.ofNumber? kind).map (StoredObject.mk · (Text.byteChars body)) with
      | some object => .ok object
      | none => .error (.damaged "the object in the pack cannot be read")

/-- The object in a pack in the directory `objects`. -/
def readPacked (t : FileTree) (objects : Path) (oid : Oid) : Except LookupFailure StoredObject :=
  findPacked oid (packs t objects)

/-! ## All objects -/

/-- How often a directory that objects are borrowed from may itself borrow. -/
def borrowLimit : Nat := 5

/-- The directories named in a directory of objects that its repository borrows from. A path that
starts with a dot is relative to that directory in the repository itself alone. -/
def namedAlternates (t : FileTree) (isOwn : Bool) (objects : Path) : List Path :=
  match t.readText (objects / "info/alternates") with
  | .error _ => []
  | .ok text =>
    ((Text.lines text).filter fun line => line ≠ "" && !Text.startsWith "#" line).map fun line =>
      if isOwn && Text.startsWith "." line then objects / line else ⟨line⟩

/-- The directories that objects are borrowed from, those that they borrow from included. -/
def alternates (t : FileTree) : (levels : Nat) → (isOwn : Bool) → (objects : Path) → List Path
  | 0, _, _ => []
  | levels + 1, isOwn, objects =>
    (namedAlternates t isOwn objects).flatMap fun other => other :: alternates t levels false other

/-- How an object is read: from the packs and then the files of the repository, and then from those
of the directories that it borrows from. -/
def readers (t : FileTree) (commonDir : Path) : List (Oid → Except LookupFailure StoredObject) :=
  let own := commonDir / "objects"
  let borrowed := alternates t (borrowLimit + 1) true own
  [readPacked t own, readLoose t own] ++ borrowed.map (readPacked t) ++ borrowed.map (readLoose t)

/-- What the first of the readers that has the object finds. -/
def firstFound (oid : Oid) :
    List (Oid → Except LookupFailure StoredObject) → Except LookupFailure StoredObject
  | [] => .error .notFound
  | read :: rest =>
    match read oid with
    | .error .notFound => firstFound oid rest
    | result => result

/-- The object of the given id. -/
def readObject (t : FileTree) (commonDir : Path) (oid : Oid) : Except LookupFailure StoredObject :=
  if oid.isZero then .error .notFound
  else do
    let object ← firstFound oid (readers t commonDir)
    if Digest.Sha1.digest object.bytes = oid.text then return object
    else throw (.damaged "the object does not match its id")

/-! ## Commits and tags -/

/-- The id on a line that starts with `field`, and what follows the line. -/
def readIdLine (field : String) (chars : List Char) : Option (Oid × List Char) := do
  let rest ← Text.charsAfter? field.toList chars
  let oid ← (Oid.create (String.ofList (rest.take 40))).toOption
  guard (oid.text.length = 40)
  match rest.drop 40 with
  | '\n' :: rest => some (oid, rest)
  | _ => none

/-- Drops the lines that give parents. -/
def dropParents : (steps : Nat) → List Char → List Char
  | 0, chars => chars
  | steps + 1, chars =>
    match readIdLine "parent " chars with
    | some (_, rest) => dropParents steps rest
    | none => chars

/-- Whether a time of a signature is a number, perhaps with blanks and a sign before it. -/
def isTime (chars : List Char) : Bool :=
  let digits := match chars.dropWhile Text.isSpace with
    | '-' :: rest => rest
    | '+' :: rest => rest
    | rest => rest
  digits.head?.any Char.isDigit

/-- Whether a line holds a signature: a name, an address in angle brackets and, when it goes on, a
time. -/
def isSignature (line : List Char) : Bool :=
  match Text.cutChars? '>' line.reverse with
  | none => false
  | some (after, before) =>
    before.contains '<' && !after.contains '<' &&
      (after.length ≤ 1 || isTime (after.reverse.drop 1))

/-- What follows a line that starts with `field` and holds a signature. -/
def dropSignature? (field : String) (chars : List Char) : Option (List Char) := do
  let (line, rest) ← Text.cutChars? '\n' chars
  let signature ← Text.charsAfter? field.toList line
  guard (isSignature signature)
  return rest

/-- Whether the contents of a commit can be read. -/
def isCommit (body : List Char) : Bool :=
  match readIdLine "tree " body with
  | none => false
  | some (_, rest) =>
    ((dropSignature? "author " (dropParents rest.length rest)).bind
      (dropSignature? "committer ")).isSome

/-- The object that a tag is for, and its kind. -/
def tagTarget? (body : List Char) : Option (Oid × Kind) := do
  let (oid, rest) ← readIdLine "object " body
  let rest ← Text.charsAfter? "type ".toList rest
  let (kind, rest) ← Text.cutChars? '\n' rest
  let kind ← Kind.ofName? kind
  let rest ← Text.charsAfter? "tag ".toList rest
  let (_, rest) ← Text.cutChars? '\n' rest
  match rest with
  | [] => return (oid, kind)
  | '\n' :: _ => return (oid, kind)
  | rest =>
    let _ ← dropSignature? "tagger " rest
    return (oid, kind)

/-- The commit that a tag leads to, following at most `steps` tags. -/
def followTag (t : FileTree) (commonDir : Path) : (steps : Nat) → StoredObject →
    Except LookupFailure Oid
  | 0, _ => .error (.damaged "the tag does not lead to a commit")
  | steps + 1, tag => do
    match tagTarget? tag.body with
    | none => throw (.damaged "the tag cannot be read")
    | some (oid, kind) =>
      let object ← readObject t commonDir oid
      if object.kind ≠ kind then throw .notFound
      match kind with
      | .commit =>
        if isCommit object.body then return oid else throw (.damaged "the commit cannot be read")
      | .tag => followTag t commonDir steps object
      | _ => throw (.damaged "the tag does not lead to a commit")

/-- The commit that an object id stands for. -/
def commitOf (t : FileTree) (commonDir : Path) (oid : Oid) : Except LookupFailure Oid := do
  let object ← readObject t commonDir oid
  match object.kind with
  | .commit =>
    if isCommit object.body then return oid else throw (.damaged "the commit cannot be read")
  | .tag => followTag t commonDir (t.entries.length + 1) object
  | _ => throw .invalidSpec

end ObjectStore

end WorktreeTracker
