import WorktreeTracker.FileTree
import WorktreeTracker.ObjectId
import WorktreeTracker.Repository.Inflate

/-!
# Packs

Objects that are kept together in one file, each compressed, some as the changes that make them from
another object of the file. An index beside the file tells where each object starts: it comes in two
versions, the second with a mark at its front and room for positions of eight bytes.
-/

namespace WorktreeTracker

/-! ## Numbers in files -/

namespace Bytes

/-- The `count` bytes of a file from `start` on. -/
def slice? (file : ByteArray) (start count : Nat) : Option (List UInt8) :=
  let bytes := (file.extract start (start + count)).data.toList
  if bytes.length = count then some bytes else none

/-- The number that bytes write, highest first. -/
def number (bytes : List UInt8) : Nat :=
  bytes.foldl (fun n b => 256 * n + b.toNat) 0

/-- The number in the four bytes from `start` on. -/
def word? (file : ByteArray) (start : Nat) : Option Nat :=
  (slice? file start 4).map number

/-- Reads a number in groups of seven bits, lowest first; each byte but the last has its highest bit
set. The first group counts `scale`. -/
def readGroups : (scale : Nat) → List UInt8 → Option (Nat × List UInt8)
  | _, [] => none
  | scale, b :: rest =>
    if b < 128 then some (scale * b.toNat, rest)
    else (readGroups (128 * scale) rest).map fun (n, rest) => (scale * (b.toNat - 128) + n, rest)

/-- Reads a distance in groups of seven bits, highest first: each byte but the last has its highest
bit set and adds one to what it writes. The groups before it count `high`. -/
def readDistance : (high : Nat) → List UInt8 → Option (Nat × List UInt8)
  | _, [] => none
  | high, b :: rest =>
    if b < 128 then some (high + b.toNat, rest)
    else readDistance (128 * (high + (b.toNat - 128) + 1)) rest

/-- Reads a number, lowest byte first, of which only the bytes that are marked are written. -/
def readMarked : (marks : List Bool) → List UInt8 → Option (Nat × List UInt8)
  | [], bytes => some (0, bytes)
  | false :: marks, bytes => (readMarked marks bytes).map fun (n, rest) => (256 * n, rest)
  | true :: _, [] => none
  | true :: marks, b :: rest => (readMarked marks rest).map fun (n, rest) => (256 * n + b.toNat, rest)

/-- The bytes that hexadecimal digits write, two for each. -/
def ofDigits : List Char → List UInt8
  | high :: low :: rest =>
    UInt8.ofNat (16 * (Text.hexValue? high).getD 0 + (Text.hexValue? low).getD 0) :: ofDigits rest
  | _ => []

end Bytes

open Bytes

/-! ## The index -/

/-- The index of a pack. -/
structure PackIndex where
  /-- The contents of its file. -/
  file : ByteArray
  /-- Whether it is of the second version. -/
  marked : Bool
  /-- The number of objects. -/
  count : Nat

namespace PackIndex

/-- The bytes that a marked index starts with, those of its version last. -/
def mark : List UInt8 := [0xff, 0x74, 0x4f, 0x63, 0, 0, 0, 2]

/-- Where the table of first bytes starts. It has a number of four bytes for each byte: how many
ids start with that byte or a lower one. -/
def tableStart (marked : Bool) : Nat := if marked then 8 else 0

/-- The number of ids that start with the byte `first` or a lower one. -/
def upTo? (file : ByteArray) (marked : Bool) (first : Nat) : Option Nat :=
  word? file (tableStart marked + 4 * first)

/-- Whether a file has the length of an index of `count` objects. -/
def fits (file : ByteArray) (marked : Bool) (count : Nat) : Bool :=
  if marked then
    let shortest := 8 + 1024 + 28 * count + 40
    shortest ≤ file.size && file.size ≤ shortest + 8 * (count - 1)
  else file.size = 1024 + 24 * count + 40

/-- The index in a file. The numbers in its table do not decrease. -/
def read? (file : ByteArray) : Option PackIndex := do
  let marked := slice? file 0 4 = some (mark.take 4)
  guard (!marked || slice? file 0 8 = some mark)
  let table ← (List.range 256).mapM (upTo? file marked)
  guard ((table.zip table.tail).all fun (n, next) => n ≤ next)
  let count ← table.getLast?
  guard (fits file marked count)
  return ⟨file, marked, count⟩

variable (ix : PackIndex)

/-- The id at position `i`. -/
def id? (i : Nat) : Option (List UInt8) :=
  slice? ix.file (if ix.marked then 1032 + 20 * i else 1024 + 24 * i + 4) 20

/-- Where the object at position `i` starts in the pack. A marked index has positions from 2³¹ on in
a table of their own. -/
def offset? (i : Nat) : Option Nat :=
  if ix.marked then do
    let n ← word? ix.file (1032 + 24 * ix.count + 4 * i)
    if n < 0x80000000 then return n
    (slice? ix.file (1032 + 28 * ix.count + 8 * (n - 0x80000000)) 8).map number
  else word? ix.file (1024 + 24 * i)

/-- Where the object of an id starts in the pack. -/
def find? (id : List UInt8) : Option Nat := do
  let first := (← id.head?).toNat
  let low ← if first = 0 then some 0 else upTo? ix.file ix.marked (first - 1)
  let high ← upTo? ix.file ix.marked first
  let i ← (List.range' low (high - low)).find? fun i => ix.id? i = some id
  ix.offset? i

end PackIndex

/-! ## The pack -/

/-- A pack with its index. -/
structure Pack where
  /-- The contents of its file. -/
  file : ByteArray
  /-- The index. -/
  index : PackIndex

namespace Pack

/-- The pack in a file, when the index is for it: both have as many objects and end in the same
digest of the pack. -/
def read? (file : ByteArray) (index : PackIndex) : Option Pack := do
  guard (slice? file 0 4 = some "PACK".toUTF8.data.toList)
  let version ← word? file 4
  guard (version = 2 ∨ version = 3)
  guard (word? file 8 = some index.count)
  let digest ← slice? file (file.size - 20) 20
  guard (slice? index.file (index.file.size - 40) 20 = some digest)
  return ⟨file, index⟩

/-- The front of an entry: the number of its kind and the length of what it is decompressed to. -/
def readFront : List UInt8 → Option (Nat × Nat × List UInt8)
  | [] => none
  | b :: rest =>
    let kind := b.toNat / 16 % 8
    if b < 128 then some (kind, b.toNat % 16, rest)
    else (readGroups 16 rest).map fun (n, rest) => (kind, b.toNat % 16 + n, rest)

/-- Follows the instructions that make an object from `base`, at most `steps` of them: copy a part
of it, or add the bytes that come next. -/
def runChanges (base : List UInt8) :
    (steps : Nat) → Array UInt8 → List UInt8 → Option (Array UInt8)
  | _, out, [] => some out
  | 0, _, _ => none
  | steps + 1, out, b :: rest =>
    if b = 0 then none
    else if b < 128 then do
      guard (b.toNat ≤ rest.length)
      runChanges base steps (out.appendList (rest.take b.toNat)) (rest.drop b.toNat)
    else do
      let marks := Inflate.bitsOf 7 b.toNat
      let (start, rest) ← readMarked (marks.take 4) rest
      let (count, rest) ← readMarked (marks.drop 4) rest
      let count := if count = 0 then 0x10000 else count
      guard (start + count ≤ base.length)
      runChanges base steps (out.appendList ((base.drop start).take count)) rest

/-- What changes make of `base`. They start with the lengths of both. -/
def change? (base changes : List UInt8) : Option (List UInt8) := do
  let (length, changes) ← readGroups 1 changes
  guard (length = base.length)
  let (length, changes) ← readGroups 1 changes
  let out ← runChanges base changes.length #[] changes
  guard (out.size = length)
  return out.toList

/-- The bytes that a compressed part of an entry stands for. -/
def decompress? (length : Nat) (bytes : List UInt8) : Option (List UInt8) :=
  (Inflate.decode? bytes).filter (·.length = length)

/-- The kind of the entry at `offset`, as a number, and its contents, following at most `steps`
objects that it is made from: the one at a distance before it, or the one of an id. -/
def entry? (p : Pack) : (steps : Nat) → (offset : Nat) → Option (Nat × List UInt8)
  | 0, _ => none
  | steps + 1, offset => do
    let bytes ← slice? p.file offset (p.file.size - 20 - offset)
    let (kind, length, bytes) ← readFront bytes
    if kind = 6 then
      let (distance, bytes) ← readDistance 0 bytes
      guard (0 < distance ∧ distance < offset)
      let (kind, base) ← entry? p steps (offset - distance)
      let changes ← decompress? length bytes
      return (kind, ← change? base changes)
    else if kind = 7 then
      let (kind, base) ← entry? p steps (← p.index.find? (bytes.take 20))
      let changes ← decompress? length (bytes.drop 20)
      return (kind, ← change? base changes)
    else return (kind, ← decompress? length bytes)

end Pack

end WorktreeTracker
