import WorktreeTracker.Text

/-!
# Messages cut into digest blocks

The padding shared by SHA-1 and SHA-256: a marker byte, zeros up to eight bytes short of a block,
and the length in bits. A padded message is read as big-endian words, sixteen to a block.
-/

namespace WorktreeTracker.Digest

/-- The number of bytes of a block. -/
def blockSize : Nat := 64

/-- The `count` low bytes of `n`, most significant first. -/
def bigEndian : (count n : Nat) → List UInt8
  | 0, _ => []
  | count + 1, n => UInt8.ofNat (n / Nat.pow 256 count) :: bigEndian count n

/-- The number of zero bytes between the marker and the length of a message of `length` bytes. -/
def zeroCount (length : Nat) : Nat :=
  (blockSize + 55 - length % blockSize) % blockSize

/-- The message with its marker byte, zeros and length in bits. -/
def pad (message : List UInt8) : List UInt8 :=
  message ++ 0x80 :: List.replicate (zeroCount message.length) 0 ++ bigEndian 8 (8 * message.length)

/-- The big-endian words of a list of bytes, an incomplete last word dropped. -/
def words : List UInt8 → List UInt32
  | a :: b :: c :: d :: rest =>
    (a.toUInt32 <<< 24 ||| b.toUInt32 <<< 16 ||| c.toUInt32 <<< 8 ||| d.toUInt32) :: words rest
  | _ => []

/-- The first `count` groups of sixteen words. -/
def groups : (count : Nat) → List UInt32 → List (List UInt32)
  | 0, _ => []
  | count + 1, ws => ws.take 16 :: groups count (ws.drop 16)

/-- The blocks of a padded message. -/
def blocks (message : List UInt8) : List (List UInt32) :=
  let ws := words (pad message)
  groups (ws.length / 16) ws

/-- The bits of `w` turned `n` places to the left. -/
def rotateLeft (w : UInt32) (n : UInt32) : UInt32 :=
  w <<< n ||| w >>> (32 - n)

/-- The bits of `w` turned `n` places to the right. -/
def rotateRight (w : UInt32) (n : UInt32) : UInt32 :=
  w >>> n ||| w <<< (32 - n)

/-- The lower-case hexadecimal digits of a list of words. -/
def hex (ws : List UInt32) : String :=
  String.ofList (ws.flatMap fun w => (bigEndian 4 w.toNat).flatMap Text.hexByte)

end WorktreeTracker.Digest
