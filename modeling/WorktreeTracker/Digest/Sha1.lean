import WorktreeTracker.Digest.Block

/-!
# SHA-1

The digest that names objects, one compression per block of the padded message.
-/

namespace WorktreeTracker.Digest.Sha1

/-- The five working words of the digest. -/
structure State where
  /-- The first word. -/
  a : UInt32
  /-- The second word. -/
  b : UInt32
  /-- The third word. -/
  c : UInt32
  /-- The fourth word. -/
  d : UInt32
  /-- The fifth word. -/
  e : UInt32
deriving DecidableEq, Repr

/-- The words a digest starts from. -/
def State.initial : State :=
  ⟨0x67452301, 0xefcdab89, 0x98badcfe, 0x10325476, 0xc3d2e1f0⟩

/-- Adds the words of two states. -/
def State.add (s t : State) : State :=
  ⟨s.a + t.a, s.b + t.b, s.c + t.c, s.d + t.d, s.e + t.e⟩

/-- Extends a schedule by the word that its last sixteen words determine. -/
def extend (w : Array UInt32) : Array UInt32 :=
  let t := w.size
  w.push (rotateLeft
    (w.getD (t - 3) 0 ^^^ w.getD (t - 8) 0 ^^^ w.getD (t - 14) 0 ^^^ w.getD (t - 16) 0) 1)

/-- The eighty words a block is mixed in with. -/
def schedule (block : List UInt32) : List UInt32 :=
  ((List.range 64).foldl (fun w _ => extend w) block.toArray).toList

/-- The mixing function and the constant of round `i`. -/
def roundMix (i : Nat) (s : State) : UInt32 × UInt32 :=
  if i < 20 then ((s.b &&& s.c) ||| (~~~s.b &&& s.d), 0x5a827999)
  else if i < 40 then (s.b ^^^ s.c ^^^ s.d, 0x6ed9eba1)
  else if i < 60 then ((s.b &&& s.c) ||| (s.b &&& s.d) ||| (s.c &&& s.d), 0x8f1bbcdc)
  else (s.b ^^^ s.c ^^^ s.d, 0xca62c1d6)

/-- Round `i` with the schedule word `w`. -/
def round (s : State) (i : Nat) (w : UInt32) : State :=
  let (f, k) := roundMix i s
  ⟨rotateLeft s.a 5 + f + s.e + k + w, s.a, rotateLeft s.b 30, s.c, s.d⟩

/-- Mixes one block into the state. -/
def compress (s : State) (block : List UInt32) : State :=
  s.add ((schedule block).zipIdx.foldl (fun s wi => round s wi.2 wi.1) s)

/-- The SHA-1 digest of a message in hexadecimal digits. -/
def digest (message : List UInt8) : String :=
  let s := (blocks message).foldl compress State.initial
  hex [s.a, s.b, s.c, s.d, s.e]

end WorktreeTracker.Digest.Sha1
