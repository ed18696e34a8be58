import WorktreeTracker.Digest.Sha256

/-!
# Fingerprints

A fingerprint is the SHA-256 digest of named values. The entries are put in the order of their names
first, so the order in which a store lists them does not matter. The bytes that are hashed are
exposed on their own as `Fingerprint.encoding`.
-/

namespace WorktreeTracker

/-- The digest of a list of named values. -/
structure Fingerprint where
  /-- The digest in hexadecimal digits. -/
  text : String
deriving DecidableEq, Repr

namespace Fingerprint

/-- The entries by name, entries of one name in the order given. -/
def sorted (entries : List (String × String)) : List (String × String) :=
  entries.mergeSort fun a b => !(b.1 < a.1)

/-- The bytes of one entry: the name, a zero byte, the value and a newline. -/
def encodeEntry (entry : String × String) : List UInt8 :=
  Text.bytes entry.1 ++ 0 :: Text.bytes entry.2 ++ [0x0A]

/-- The bytes that a fingerprint is the digest of. -/
def encoding (entries : List (String × String)) : List UInt8 :=
  (sorted entries).flatMap encodeEntry

/-- The fingerprint of a list of named values. -/
def compute (entries : List (String × String)) : Fingerprint :=
  ⟨Digest.Sha256.digest (encoding entries)⟩

end Fingerprint

end WorktreeTracker
