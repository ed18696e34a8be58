import WorktreeTracker.Value

/-!
# The text of a settings file

The part of TOML that settings can use: `key = value` lines whose value is a text, a whole number or
a list of texts. Settings have no tables and no values of other types, so a file with anything else
is refused here already. A file is first cut into tokens and then read line by line.
-/

namespace WorktreeTracker

namespace SettingsText

/-! ## Tokens -/

/-- A token of a settings file. -/
inductive Token where
  /-- The end of a line. -/
  | newline
  /-- An equals sign. -/
  | equals
  /-- A comma. -/
  | comma
  /-- An opening bracket. -/
  | opening
  /-- A closing bracket. -/
  | closing
  /-- A quoted text on one line. -/
  | text (s : String)
  /-- A quoted text that may span lines. -/
  | block (s : String)
  /-- A run of characters without quotes. -/
  | word (s : String)
deriving DecidableEq, Repr

/-- Whether `c` may be part of a word. -/
def isWordChar (c : Char) : Bool :=
  c.isAlphanum || c == '_' || c == '-' || c == '+' || c == '.' || c == ':'

/-- Whether `c` may stand in a comment or a text. -/
def isPlain (c : Char) : Bool :=
  c == '\t' || !Text.isControl c

/-- Whether `c` is a blank within a line. -/
def isInlineBlank (c : Char) : Bool := c == ' ' || c == '\t'

/-- The character with the given number, unless the number belongs to none. -/
def scalar? (n : Nat) : Option Char :=
  if n.isValidChar then some (Char.ofNat n) else none

/-- The number written in hexadecimal digits. -/
def hexNumber? (digits : List Char) : Option Nat :=
  digits.foldlM (fun n c => (Text.hexValue? c).map (16 * n + ·)) 0

/-- What a single character after a backslash stands for. -/
def escape? : Char → Option Char
  | 'b' => some '\x08'
  | 't' => some '\t'
  | 'n' => some '\n'
  | 'f' => some '\x0C'
  | 'r' => some '\r'
  | '"' => some '"'
  | '\\' => some '\\'
  | _ => none

/-- Drops the blanks and line ends after a backslash at the end of a line. -/
def dropLineBreaks : List Char → List Char
  | '\r' :: '\n' :: rest => dropLineBreaks rest
  | '\n' :: rest => dropLineBreaks rest
  | ' ' :: rest => dropLineBreaks rest
  | '\t' :: rest => dropLineBreaks rest
  | rest => rest

/-- What follows the line end after a backslash, when only blanks come between. -/
def lineEnding? (rest : List Char) : Option (List Char) :=
  match rest.dropWhile isInlineBlank with
  | '\n' :: rest => some (dropLineBreaks rest)
  | '\r' :: '\n' :: rest => some (dropLineBreaks rest)
  | _ => none

/-- Reads the characters after a backslash: the character they stand for and what follows. -/
def readEscape : List Char → Option (Char × List Char)
  | 'u' :: rest => do
    let digits := rest.take 4
    guard (digits.length = 4)
    return (← scalar? (← hexNumber? digits), rest.drop 4)
  | 'U' :: rest => do
    let digits := rest.take 8
    guard (digits.length = 8)
    return (← scalar? (← hexNumber? digits), rest.drop 8)
  | c :: rest => (escape? c).map (·, rest)
  | [] => none

/-- Reads a text after its opening quote, at most `steps` characters or escapes of it. -/
def readText (escapes : Bool) (quote : Char) :
    (steps : Nat) → (done : List Char) → List Char → Option (String × List Char)
  | 0, _, _ => none
  | _, _, [] => none
  | steps + 1, done, c :: rest =>
    if c = quote then some (String.ofList done.reverse, rest)
    else if escapes && c = '\\' then do
      let (e, rest) ← readEscape rest
      readText escapes quote steps (e :: done) rest
    else if isPlain c then readText escapes quote steps (c :: done) rest
    else none

/-- Reads a text of several lines after its three opening quotes. Three quotes end it, and up to two
more right before them belong to it. -/
def readBlock (escapes : Bool) (quote : Char) :
    (steps : Nat) → (done : List Char) → List Char → Option (String × List Char)
  | 0, _, _ => none
  | _, _, [] => none
  | steps + 1, done, c :: rest =>
    if c = quote then
      let quotes := (c :: rest).takeWhile (· = quote)
      if 5 < quotes.length then none
      else if 3 ≤ quotes.length then
        some (String.ofList (quotes.drop 3 ++ done).reverse, rest.dropWhile (· = quote))
      else readBlock escapes quote steps (c :: done) rest
    else if escapes && c = '\\' then
      match lineEnding? rest with
      | some rest => readBlock escapes quote steps done rest
      | none => do
        let (e, rest) ← readEscape rest
        readBlock escapes quote steps (e :: done) rest
    else if c = '\n' then readBlock escapes quote steps ('\n' :: done) rest
    else if c = '\r' then
      match rest with
      | '\n' :: rest => readBlock escapes quote steps ('\n' :: done) rest
      | _ => none
    else if isPlain c then readBlock escapes quote steps (c :: done) rest
    else none

/-- Drops one line end. -/
def dropNewline : List Char → List Char
  | '\n' :: rest => rest
  | '\r' :: '\n' :: rest => rest
  | rest => rest

/-- Reads a quoted text after its first quote. -/
def readQuoted (quote : Char) (rest : List Char) : Option (Token × List Char) :=
  let escapes := quote = '"'
  match rest with
  | a :: b :: inner =>
    if a = quote && b = quote then
      (readBlock escapes quote (inner.length + 1) [] (dropNewline inner)).map fun (s, rest) =>
        (.block s, rest)
    else (readText escapes quote (rest.length + 1) [] rest).map fun (s, rest) => (.text s, rest)
  | _ => (readText escapes quote (rest.length + 1) [] rest).map fun (s, rest) => (.text s, rest)

/-- Reads a comment up to the end of its line. -/
def readComment : List Char → Option (List Char)
  | [] => some []
  | '\n' :: rest => some ('\n' :: rest)
  | '\r' :: '\n' :: rest => some ('\r' :: '\n' :: rest)
  | c :: rest => if isPlain c then readComment rest else none

/-- Cuts a file into at most `steps` tokens. -/
def tokens : (steps : Nat) → List Char → Option (List Token)
  | 0, _ => none
  | _, [] => some []
  | steps + 1, c :: rest =>
    if isInlineBlank c then tokens steps rest
    else match c, rest with
      | '\n', rest => (tokens steps rest).map (.newline :: ·)
      | '\r', '\n' :: rest => (tokens steps rest).map (.newline :: ·)
      | '=', rest => (tokens steps rest).map (.equals :: ·)
      | ',', rest => (tokens steps rest).map (.comma :: ·)
      | '[', rest => (tokens steps rest).map (.opening :: ·)
      | ']', rest => (tokens steps rest).map (.closing :: ·)
      | '#', rest => (readComment rest).bind (tokens steps)
      | '"', rest => do
        let (token, rest) ← readQuoted '"' rest
        return token :: (← tokens steps rest)
      | '\'', rest => do
        let (token, rest) ← readQuoted '\'' rest
        return token :: (← tokens steps rest)
      | c, rest =>
        let word := (c :: rest).takeWhile isWordChar
        if word.isEmpty then none
        else (tokens steps (rest.dropWhile isWordChar)).map (.word (String.ofList word) :: ·)

/-! ## Numbers -/

/-- Whether digits in base `base` are separated by single underscores only. -/
def isGrouped (base : Nat) (digits : List Char) : Bool :=
  (digits.splitOn '_').all fun group =>
    !group.isEmpty && group.all fun c => (Text.hexValue? c).any (· < base)

/-- The number written by digits in base `base`, which underscores may group. -/
def number? (base : Nat) (digits : List Char) : Option Nat := do
  guard (isGrouped base digits)
  (digits.filter (· ≠ '_')).foldlM (fun n c => (Text.hexValue? c).map (base * n + ·)) 0

/-- The number written in decimal digits without a needless zero at the front. -/
def decimal? (digits : List Char) : Option Nat := do
  guard (digits.head? ≠ some '0' ∨ digits = ['0'])
  number? 10 digits

/-- The whole number that a word stands for, in the range of signed words of sixty-four bits. -/
def integer? (word : String) : Option Int := do
  let n : Int ← match word.toList with
    | '0' :: 'x' :: digits => (number? 16 digits).map Int.ofNat
    | '0' :: 'o' :: digits => (number? 8 digits).map Int.ofNat
    | '0' :: 'b' :: digits => (number? 2 digits).map Int.ofNat
    | '+' :: digits => (decimal? digits).map Int.ofNat
    | '-' :: digits => (decimal? digits).map fun n => -Int.ofNat n
    | digits => (decimal? digits).map Int.ofNat
  guard (Int64.minValue.toInt ≤ n ∧ n ≤ Int64.maxValue.toInt)
  return n

/-! ## Lines -/

/-- Whether `c` may be part of a key without quotes. -/
def isKeyChar (c : Char) : Bool :=
  c.isAlphanum || c == '_' || c == '-'

/-- The key that a token stands for. -/
def key? : Token → Option String
  | .text s => some s
  | .word s => if s.toList.all isKeyChar then some s else none
  | _ => none

/-- The text that a token stands for. -/
def textOf? : Token → Option String
  | .text s => some s
  | .block s => some s
  | _ => none

/-- Reads a list of texts after its opening bracket. With `separated` off, a comma or the closing
bracket has to come before the next text. -/
def readItems (separated : Bool) (done : List Value) : List Token → Option (List Value × List Token)
  | .newline :: rest => readItems separated done rest
  | .closing :: rest => some (done.reverse, rest)
  | .comma :: rest => if separated then none else readItems true done rest
  | token :: rest => do
    guard separated
    let s ← textOf? token
    readItems false (.text s :: done) rest
  | [] => none

/-- Reads a value. -/
def readValue : List Token → Option (Value × List Token)
  | .opening :: rest => (readItems true [] rest).map fun (items, rest) => (.list items, rest)
  | .text s :: rest => some (.text s, rest)
  | .block s :: rest => some (.text s, rest)
  | .word s :: rest => (integer? s).map fun n => (.int n, rest)
  | _ => none

/-- Reads the lines of a file, at most `steps` of them, after the fields that are `done`. A key may
be set only once. -/
def readLines : (steps : Nat) → (done : List (String × Value)) → List Token →
    Option (List (String × Value))
  | 0, _, _ => none
  | _, done, [] => some done.reverse
  | steps + 1, done, .newline :: rest => readLines steps done rest
  | steps + 1, done, token :: .equals :: rest => do
    let key ← key? token
    guard (done.all fun field => field.1 ≠ key)
    let (value, rest) ← readValue rest
    match rest with
    | [] => return ((key, value) :: done).reverse
    | .newline :: rest => readLines steps ((key, value) :: done) rest
    | _ => none
  | _, _, _ => none

/-- The mark that a file may start with. -/
def byteOrderMark : Char := '\uFEFF'

/-- The table written in the text of a settings file. -/
def parse? (text : String) : Option Value := do
  let chars := match text.toList with
    | c :: rest => if c = byteOrderMark then rest else c :: rest
    | [] => []
  let ts ← tokens (chars.length + 1) chars
  let fields ← readLines (ts.length + 1) [] ts
  return .table fields

end SettingsText

end WorktreeTracker
