/-!
# Compressed streams

Decodes a zlib stream: the two header bytes, blocks that are stored or coded with fixed or dynamic
Huffman codes, and the checksum at the end. The input is handled as a list of bits, lowest bit of
each byte first. Output is kept in order in an array, because a copy refers back to it by distance.
-/

namespace WorktreeTracker

namespace Inflate

/-! ## Bits -/

/-- The `count` low bits of `n`, lowest first. -/
def bitsOf : (count n : Nat) → List Bool
  | 0, _ => []
  | count + 1, n => (n % 2 == 1) :: bitsOf count (n / 2)

/-- The bits of a list of bytes. -/
def toBits (bytes : List UInt8) : List Bool :=
  bytes.flatMap fun b => bitsOf 8 b.toNat

/-- The number that bits write, lowest first. -/
def number : List Bool → Nat
  | [] => 0
  | b :: bits => b.toNat + 2 * number bits

/-- Reads a number of `count` bits. -/
def readNumber (count : Nat) (bits : List Bool) : Option (Nat × List Bool) :=
  let low := bits.take count
  if low.length = count then some (number low, bits.drop count) else none

/-! ## Huffman codes -/

/-- A canonical Huffman code: the number of symbols of each code length from one bit on, and the
symbols by increasing code. -/
structure Code where
  /-- The number of symbols with codes of one bit, two bits and so on. -/
  counts : List Nat
  /-- The symbols, shorter codes first. -/
  symbols : Array Nat
deriving Repr

/-- The longest code, in bits. -/
def maxCodeLength : Nat := 15

/-- The code in which each symbol has the listed code length; length zero leaves a symbol out. -/
def Code.ofLengths (lengths : List Nat) : Code :=
  let indexed := lengths.zipIdx
  let ofLength (n : Nat) : List Nat := (indexed.filter fun e => e.1 = n).map Prod.snd
  let groups := (List.range maxCodeLength).map fun i => ofLength (i + 1)
  ⟨groups.map List.length, groups.flatten.toArray⟩

/-- Reads a symbol: at each length the codes are the numbers from `first` on, and the symbol of the
first of them is the one at `index`. -/
def readSymbol (symbols : Array Nat) :
    (counts : List Nat) → (code first index : Nat) → List Bool → Option (Nat × List Bool)
  | [], _, _, _, _ => none
  | _, _, _, _, [] => none
  | count :: counts, code, first, index, bit :: bits =>
    let code := code + bit.toNat
    if code < first + count then (symbols[index + (code - first)]?).map (·, bits)
    else readSymbol symbols counts (2 * code) (2 * (first + count)) (index + count) bits

/-- Reads a symbol of a code. -/
def Code.read (c : Code) (bits : List Bool) : Option (Nat × List Bool) :=
  readSymbol c.symbols c.counts 0 0 0 bits

/-- The code of literals and lengths when a block does not bring its own. -/
def fixedLiterals : Code :=
  .ofLengths (List.replicate 144 8 ++ List.replicate 112 9 ++ List.replicate 24 7 ++
    List.replicate 8 8)

/-- The code of distances when a block does not bring its own. -/
def fixedDistances : Code := .ofLengths (List.replicate 30 5)

/-! ## Blocks -/

/-- The shortest length and the number of further bits of each length symbol. -/
def lengthTable : List (Nat × Nat) := [
  (3, 0), (4, 0), (5, 0), (6, 0), (7, 0), (8, 0), (9, 0), (10, 0), (11, 1), (13, 1), (15, 1),
  (17, 1), (19, 2), (23, 2), (27, 2), (31, 2), (35, 3), (43, 3), (51, 3), (59, 3), (67, 4), (83, 4),
  (99, 4), (115, 4), (131, 5), (163, 5), (195, 5), (227, 5), (258, 0)]

/-- The shortest distance and the number of further bits of each distance symbol. -/
def distanceTable : List (Nat × Nat) := [
  (1, 0), (2, 0), (3, 0), (4, 0), (5, 1), (7, 1), (9, 2), (13, 2), (17, 3), (25, 3), (33, 4),
  (49, 4), (65, 5), (97, 5), (129, 6), (193, 6), (257, 7), (385, 7), (513, 8), (769, 8), (1025, 9),
  (1537, 9), (2049, 10), (3073, 10), (4097, 11), (6145, 11), (8193, 12), (12289, 12), (16385, 13),
  (24577, 13)]

/-- Reads the rest of a number that a symbol starts. -/
def readFrom (table : List (Nat × Nat)) (symbol : Nat) (bits : List Bool) :
    Option (Nat × List Bool) := do
  let (base, extra) ← table[symbol]?
  let (n, bits) ← readNumber extra bits
  return (base + n, bits)

/-- Appends `count` bytes, each a copy of the one `distance` places before it. -/
def copyBack (distance : Nat) : (count : Nat) → Array UInt8 → Array UInt8
  | 0, out => out
  | count + 1, out => copyBack distance count (out.push (out.getD (out.size - distance) 0))

/-- Reads the symbols of a block up to its end, at most `steps` of them. -/
def readSymbols (literals distances : Code) :
    (steps : Nat) → Array UInt8 → List Bool → Option (Array UInt8 × List Bool)
  | 0, _, _ => none
  | steps + 1, out, bits => do
    let (symbol, bits) ← literals.read bits
    if symbol < 256 then readSymbols literals distances steps (out.push (UInt8.ofNat symbol)) bits
    else if symbol = 256 then return (out, bits)
    else
      let (count, bits) ← readFrom lengthTable (symbol - 257) bits
      let (symbol, bits) ← distances.read bits
      let (distance, bits) ← readFrom distanceTable symbol bits
      guard (distance ≤ out.size)
      readSymbols literals distances steps (copyBack distance count out) bits

/-- The order in which the lengths of the code of code lengths are written. -/
def lengthOrder : List Nat := [16, 17, 18, 0, 8, 7, 9, 6, 10, 5, 11, 4, 12, 3, 13, 2, 14, 1, 15]

/-- Reads `count` numbers of three bits. -/
def readTriples : (count : Nat) → List Bool → Option (List Nat × List Bool)
  | 0, bits => some ([], bits)
  | count + 1, bits => do
    let (n, bits) ← readNumber 3 bits
    let (rest, bits) ← readTriples count bits
    return (n :: rest, bits)

/-- Reads code lengths until there are at least `wanted`, in at most `steps` symbols. -/
def readLengths (code : Code) (wanted : Nat) :
    (steps : Nat) → (done : List Nat) → List Bool → Option (List Nat × List Bool)
  | 0, done, bits => if done.length = wanted then some (done, bits) else none
  | steps + 1, done, bits =>
    if wanted ≤ done.length then (if done.length = wanted then some (done, bits) else none)
    else do
      let (symbol, bits) ← code.read bits
      if symbol < 16 then readLengths code wanted steps (done ++ [symbol]) bits
      else if symbol = 16 then
        let last ← done.getLast?
        let (n, bits) ← readNumber 2 bits
        readLengths code wanted steps (done ++ List.replicate (n + 3) last) bits
      else if symbol = 17 then
        let (n, bits) ← readNumber 3 bits
        readLengths code wanted steps (done ++ List.replicate (n + 3) 0) bits
      else
        let (n, bits) ← readNumber 7 bits
        readLengths code wanted steps (done ++ List.replicate (n + 11) 0) bits

/-- Reads the two codes at the front of a block that brings its own. -/
def readCodes (bits : List Bool) : Option (Code × Code × List Bool) := do
  let (hlit, bits) ← readNumber 5 bits
  let (hdist, bits) ← readNumber 5 bits
  let (hclen, bits) ← readNumber 4 bits
  let (triples, bits) ← readTriples (hclen + 4) bits
  let assigned := lengthOrder.zip triples
  let code := Code.ofLengths ((List.range 19).map fun i => (assigned.lookup i).getD 0)
  let wanted := hlit + 257 + (hdist + 1)
  let (lengths, bits) ← readLengths code wanted wanted [] bits
  return (.ofLengths (lengths.take (hlit + 257)), .ofLengths (lengths.drop (hlit + 257)), bits)

/-- Reads `count` bytes. -/
def readBytes : (count : Nat) → Array UInt8 → List Bool → Option (Array UInt8 × List Bool)
  | 0, out, bits => some (out, bits)
  | count + 1, out, bits => do
    let (b, bits) ← readNumber 8 bits
    readBytes count (out.push (UInt8.ofNat b)) bits

/-- Reads a block whose bytes are stored as they are. -/
def readStored (out : Array UInt8) (bits : List Bool) : Option (Array UInt8 × List Bool) := do
  let bits := bits.drop (bits.length % 8)
  let (length, bits) ← readNumber 16 bits
  let (check, bits) ← readNumber 16 bits
  guard (length + check = 0xFFFF)
  readBytes length out bits

/-- Reads blocks up to the last one, at most `steps` of them. -/
def readBlocks : (steps : Nat) → Array UInt8 → List Bool → Option (Array UInt8 × List Bool)
  | 0, _, _ => none
  | steps + 1, out, bits => do
    let (last, bits) ← readNumber 1 bits
    let (kind, bits) ← readNumber 2 bits
    let (out, bits) ←
      match kind with
      | 0 => readStored out bits
      | 1 => readSymbols fixedLiterals fixedDistances bits.length out bits
      | 2 => do
        let (literals, distances, bits) ← readCodes bits
        readSymbols literals distances bits.length out bits
      | _ => none
    if last = 1 then return (out, bits) else readBlocks steps out bits

/-! ## Streams -/

/-- The checksum at the end of a stream. -/
def checksum (bytes : Array UInt8) : Nat :=
  let (a, b) := bytes.foldl (fun (a, b) byte =>
    let a := (a + byte.toNat) % 65521
    (a, (b + a) % 65521)) (1, 0)
  65536 * b + a

/-- The bytes that a stream decodes to. Bytes after the stream are passed over. -/
def decode? (stream : List UInt8) : Option (List UInt8) :=
  match stream with
  | method :: flags :: rest => do
    guard (method.toNat % 16 = 8 ∧ (256 * method.toNat + flags.toNat) % 31 = 0)
    guard (flags.toNat / 32 % 2 = 0)
    let bits := toBits rest
    let (out, bits) ← readBlocks (bits.length + 1) #[] bits
    let trailer := bits.drop (bits.length % 8)
    let (b3, trailer) ← readNumber 8 trailer
    let (b2, trailer) ← readNumber 8 trailer
    let (b1, trailer) ← readNumber 8 trailer
    let (b0, _) ← readNumber 8 trailer
    guard (256 * (256 * (256 * b3 + b2) + b1) + b0 = checksum out)
    return out.toList
  | _ => none

end Inflate

end WorktreeTracker
