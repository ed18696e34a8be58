/-!
# Text read from and written to a repository

Splitting into lines, trimming blanks and matching leading or trailing parts. Every function is a
structural recursion over the list of characters; the versions on `String` only wrap it, so a
property of a text is proved on its characters.
-/

namespace WorktreeTracker.Text

/-! ## Blanks -/

/-- Whether `c` is blank: it has the Unicode property `White_Space`. -/
def isBlank (c : Char) : Bool :=
  let n := c.toNat
  (9 ≤ n && n ≤ 13) || n == 0x20 || n == 0x85 || n == 0xA0 || n == 0x1680 ||
    (0x2000 ≤ n && n ≤ 0x200A) || n == 0x2028 || n == 0x2029 || n == 0x202F || n == 0x205F ||
    n == 0x3000

/-- Drops the trailing characters that satisfy `p`. -/
def dropTrailing (p : Char → Bool) (cs : List Char) : List Char :=
  (cs.reverse.dropWhile p).reverse

/-- Drops the leading and trailing blanks of a list of characters. -/
def trimChars (cs : List Char) : List Char :=
  dropTrailing isBlank (cs.dropWhile isBlank)

/-- The text without its leading and trailing blanks. -/
def trim (s : String) : String :=
  String.ofList (trimChars s.toList)

/-- The text without the characters `c` at its end. -/
def trimEnding (c : Char) (s : String) : String :=
  String.ofList (dropTrailing (· == c) s.toList)

/-! ## Leading, trailing and inner parts -/

/-- What follows `lead` in a list of characters that starts with it. -/
def charsAfter? : List Char → List Char → Option (List Char)
  | [], cs => some cs
  | _ :: _, [] => none
  | l :: lead, c :: cs => if l = c then charsAfter? lead cs else none

/-- What follows `lead` in the text `s`, when `s` starts with `lead`. -/
def after? (lead s : String) : Option String :=
  (charsAfter? lead.toList s.toList).map String.ofList

/-- What precedes `tail` in the text `s`, when `s` ends with `tail`. -/
def before? (tail s : String) : Option String :=
  (charsAfter? tail.toList.reverse s.toList.reverse).map fun cs => String.ofList cs.reverse

/-- Whether the text `s` starts with `lead`. -/
def startsWith (lead s : String) : Bool :=
  (after? lead s).isSome

/-- Whether the text `s` ends with `tail`. -/
def endsWith (tail s : String) : Bool :=
  (before? tail s).isSome

/-- Whether `part` occurs somewhere in a list of characters. -/
def occursIn (part : List Char) : List Char → Bool
  | [] => part.isEmpty
  | c :: cs => (charsAfter? part (c :: cs)).isSome || occursIn part cs

/-- The characters before and after the first `c`. -/
def cutChars? (c : Char) : List Char → Option (List Char × List Char)
  | [] => none
  | d :: cs =>
    if d = c then some ([], cs)
    else (cutChars? c cs).map fun (left, right) => (d :: left, right)

/-- The parts of a text before and after the first `c`. -/
def cut? (c : Char) (s : String) : Option (String × String) :=
  (cutChars? c s.toList).map fun (left, right) => (String.ofList left, String.ofList right)

/-- The parts of a text between the separators `c`; a text without one is its only part. -/
def splitOn (c : Char) (s : String) : List String :=
  (s.toList.splitOn c).map String.ofList

/-! ## Lines -/

/-- A line without the carriage return that ends it. -/
def dropReturn (line : List Char) : List Char :=
  if line.getLast? = some '\r' then line.dropLast else line

/-- The lines among the pieces between newlines: the last piece is not ended by a newline, so it
keeps its carriage return and counts only when it is not empty. -/
def linesOfPieces : List (List Char) → List (List Char)
  | [] => []
  | [last] => if last.isEmpty then [] else [last]
  | line :: rest => dropReturn line :: linesOfPieces rest

/-- The lines of a text, ended by a newline with an optional carriage return before it. -/
def lines (s : String) : List String :=
  (linesOfPieces (s.toList.splitOn '\n')).map String.ofList

/-- The first line of a text, empty when there is none. -/
def firstLine (s : String) : String :=
  (lines s).head?.getD ""

/-! ## Numbers -/

/-- The value of a list of decimal digits read after `n`. -/
def decimalFrom? (n : Nat) : List Char → Option Nat
  | [] => some n
  | c :: cs => if c.isDigit then decimalFrom? (10 * n + (c.toNat - '0'.toNat)) cs else none

/-- The largest count a text may name. -/
def maxCount : Nat := UInt64.size - 1

/-- The count a text names: decimal digits after an optional plus sign, at most `maxCount`. -/
def count? (s : String) : Option Nat := do
  let digits := match s.toList with
    | '+' :: cs => cs
    | cs => cs
  guard (!digits.isEmpty)
  let n ← decimalFrom? 0 digits
  guard (n ≤ maxCount)
  return n

/-- The digit of value `n` in bases up to sixteen. -/
def hexDigit (n : Nat) : Char :=
  if n < 10 then Char.ofNat ('0'.toNat + n) else Char.ofNat ('a'.toNat + (n - 10))

/-- Two lower-case hexadecimal digits for a byte. -/
def hexByte (b : UInt8) : List Char :=
  [hexDigit (b.toNat / 16), hexDigit (b.toNat % 16)]

/-- The value of a hexadecimal digit of either case. -/
def hexValue? (c : Char) : Option Nat :=
  if '0' ≤ c && c ≤ '9' then some (c.toNat - '0'.toNat)
  else if 'a' ≤ c && c ≤ 'f' then some (c.toNat - 'a'.toNat + 10)
  else if 'A' ≤ c && c ≤ 'F' then some (c.toNat - 'A'.toNat + 10)
  else none

/-- Whether `c` is an ASCII control character. -/
def isControl (c : Char) : Bool :=
  c.toNat < 0x20 || c.toNat == 0x7F

/-- The lower-case form of an ASCII letter; any other character is itself. -/
def lowerAscii (c : Char) : Char :=
  if 'A' ≤ c && c ≤ 'Z' then Char.ofNat (c.toNat + 32) else c

/-- The text with its ASCII letters in lower case. -/
def lower (s : String) : String :=
  String.ofList (s.toList.map lowerAscii)

/-! ## Bytes as characters -/

/-- The bytes of a text in UTF-8. -/
def bytes (s : String) : List UInt8 := s.toUTF8.data.toList

/-- The text that a list of bytes stands for, when it is UTF-8. -/
def ofBytes? (bytes : List UInt8) : Option String :=
  String.fromUTF8? ⟨bytes.toArray⟩

/-- A list of bytes, each as the character of the same number. -/
def byteChars (bytes : List UInt8) : List Char :=
  bytes.map fun b => Char.ofNat b.toNat

/-- The bytes of a text in UTF-8, each as the character of the same number. -/
def encode (s : String) : List Char :=
  byteChars (bytes s)

/-- The text that a list of bytes stands for, each given as the character of the same number. -/
def decode? (cs : List Char) : Option String :=
  ofBytes? (cs.map fun c => UInt8.ofNat c.toNat)

/-- Whether `c` is a blank in ASCII. -/
def isSpace (c : Char) : Bool :=
  c == ' ' || (9 ≤ c.toNat && c.toNat ≤ 13)

end WorktreeTracker.Text
