import WorktreeTracker.FileTree

/-!
# Configuration files of a repository

The syntax of git's configuration: section headers, variables, quoting, comments, values continued
over several lines and included files. A file is handled byte by byte, a byte as the character of
the same number, because names and values need not be text; they are decoded when they are asked
for. The lines are read by a small machine whose state is the section in force and the value that
the next line continues.
-/

namespace WorktreeTracker

namespace GitConfig

/-! ## Characters -/

/-- Whether `c` may be part of the name of a section or of a variable. -/
def isKeyChar (c : Char) : Bool :=
  ('a' ≤ c && c ≤ 'z') || ('A' ≤ c && c ≤ 'Z') || ('0' ≤ c && c ≤ '9') || c == '-'

/-! ## Section headers -/

/-- Reads a subsection after its opening quote, up to the bracket that closes the header. A
backslash takes the next byte as it is. -/
def parseQuoted (name : List Char) : List Char → Except String (List Char × List Char)
  | '"' :: ']' :: rest => .ok (name, rest)
  | '"' :: _ => .error "unexpected text after closing quotes"
  | '\\' :: c :: rest => parseQuoted (name ++ [c]) rest
  | ['\\'] => .error "unexpected end-of-line in section header"
  | c :: rest => parseQuoted (name ++ [c]) rest
  | [] => .error "missing closing quotation mark in section header"

/-- Reads a section header after its opening bracket: the name of the section and what follows the
header. The name is put in lower case; a subsection is kept as it is. -/
def parseHeader (name : List Char) : List Char → Except String (List Char × List Char)
  | [] => .error "missing ']' in section header"
  | c :: rest =>
    if Text.isSpace c then
      match rest.dropWhile Text.isSpace with
      | '"' :: quoted => parseQuoted (name ++ ['.']) quoted
      | _ => .error "missing quotation marks in section header"
    else if !(isKeyChar c || c == '.') then .error "unexpected character in header"
    else
      let name := name ++ [Text.lowerAscii c]
      match rest with
      | ']' :: rest => .ok (name, rest)
      | rest => parseHeader name rest

/-! ## Values -/

/-- The part of a line before a comment and the number of quotes seen so far. A quote counts unless
it starts the line or follows a backslash; a comment starts outside quotes and not after an odd
number of backslashes. -/
def cutComment (before : Option Char) (quotes backslashes : Nat) : List Char → List Char × Nat
  | [] => ([], quotes)
  | c :: rest =>
    let quotes := if c = '"' && before.any (· ≠ '\\') then quotes + 1 else quotes
    if (c = ';' || c = '#') && quotes % 2 = 0 && backslashes % 2 = 0 then ([], quotes)
    else
      let (kept, quotes) :=
        cutComment (some c) quotes (if c = '\\' then backslashes + 1 else 0) rest
      (c :: kept, quotes)

/-- A line without its comment and the spaces at its end, read with `quotes` quotes already open,
and the number of quotes seen after it. -/
def stripComment (quotes : Nat) (line : List Char) : List Char × Nat :=
  let (kept, quotes) := cutComment none quotes 0 line
  (Text.dropTrailing Text.isSpace kept, quotes)

/-- What a byte after a backslash stands for. -/
def escape? : Char → Option Char
  | 'n' => some '\n'
  | 't' => some '\t'
  | 'b' => some '\x08'
  | '"' => some '"'
  | '\\' => some '\\'
  | _ => none

/-- The value written in a line without its comment, and whether it goes on in the next line. -/
def unescape : List Char → Except String (List Char × Bool)
  | [] => .ok ([], false)
  | '"' :: rest => unescape rest
  | ['\\'] => .ok ([], true)
  | '\\' :: c :: rest =>
    match escape? c with
    | some e => (unescape rest).map fun (value, more) => (e :: value, more)
    | none => .error "invalid escape"
  | c :: rest => (unescape rest).map fun (value, more) => (c :: value, more)

/-! ## Lines -/

/-- A variable with its full name and its value, which is missing when the line has no equals
sign. -/
structure Setting where
  /-- The name: section, subsection and variable joined by dots. -/
  key : List Char
  /-- The value. -/
  value : Option (List Char)
deriving DecidableEq, Repr

/-- A value that the next line continues. -/
structure Pending where
  /-- The name of the variable. -/
  key : List Char
  /-- The value so far. -/
  value : List Char
  /-- The number of quotes seen so far. -/
  quotes : Nat

/-- The state between two lines. -/
structure ParseState where
  /-- The section in force. -/
  currentSection : Option (List Char)
  /-- The value to be continued. -/
  pending : Option Pending
  /-- The variables read so far, the last one first. -/
  settings : List Setting

/-- The full name of a variable of a section. -/
def fullKey (currentSection : Option (List Char)) (name : List Char) : List Char :=
  let name := name.map Text.lowerAscii
  match currentSection with
  | some s => s ++ '.' :: name
  | none => name

/-- The state after the variable `key` has got `value`. -/
def ParseState.record (s : ParseState) (key : List Char) (value : Option (List Char)) : ParseState :=
  { s with settings := ⟨key, value⟩ :: s.settings }

/-- Reads a line that starts with the name of a variable. -/
def parseVariable (s : ParseState) (line : List Char) : Except String ParseState := do
  let (line, quotes) := stripComment 0 line
  let name := line.takeWhile isKeyChar
  if name.isEmpty then throw "invalid configuration key"
  let key := fullKey s.currentSection name
  match (line.dropWhile isKeyChar).dropWhile Text.isSpace with
  | [] => return s.record key none
  | '=' :: rest =>
    let (value, more) ← unescape (rest.dropWhile Text.isSpace)
    if more then return { s with pending := some ⟨key, value, quotes % 2⟩ }
    else return s.record key (some value)
  | _ => throw "invalid configuration key"

/-- Reads a line that continues a value. A line with nothing but a comment is passed over. -/
def continueValue (s : ParseState) (p : Pending) (line : List Char) : Except String ParseState := do
  let (line, quotes) := stripComment p.quotes line
  if line.isEmpty then return { s with pending := some { p with quotes } }
  let (value, more) ← unescape line
  let value := p.value ++ value
  if more then return { s with pending := some ⟨p.key, value, quotes⟩ }
  else return { s with pending := none }.record p.key (some value)

/-- Reads a line, or what is left of it after at most `headers` section headers. -/
def parseLine : (headers : Nat) → ParseState → List Char → Except String ParseState
  | 0, s, _ => .ok s
  | headers + 1, s, line =>
    match line.dropWhile Text.isSpace with
    | [] => .ok s
    | ';' :: _ => .ok s
    | '#' :: _ => .ok s
    | '[' :: rest => do
      let (name, rest) ← parseHeader [] rest
      parseLine headers { s with currentSection := some name } rest
    | line => parseVariable s line

/-- Reads one line of the file. -/
def step (s : ParseState) (line : List Char) : Except String ParseState :=
  let line := line.takeWhile (· ≠ '\x00')
  match s.pending with
  | some p => continueValue s p line
  | none => parseLine (line.length + 1) s line

/-- The mark that a file may start with. -/
def byteOrderMark : List Char := ['\u00EF', '\u00BB', '\u00BF']

/-- The variables set in the contents of a file, in the order of its lines. -/
def parse (contents : ByteArray) : Except String (List Setting) := do
  let chars := Text.byteChars contents.data.toList
  let chars := (Text.charsAfter? byteOrderMark chars).getD chars
  let s ← (chars.splitOn '\n').foldlM step ⟨none, none, []⟩
  let s := match s.pending with
    | some p => s.record p.key (some p.value)
    | none => s
  return s.settings.reverse

/-! ## Included files -/

/-- The number of files that may include one another. -/
def includeLimit : Nat := 10

/-- The name of the variable that includes a file. -/
def includeKey : List Char := Text.encode "include.path"

/-- The directory part of the path of a file. -/
def directoryOf (file : Path) : Path :=
  .ofComponents file.components.dropLast

/-- The file that a variable of `file` includes, with its contents. A file that cannot be read is
passed over. -/
def includedFile? (t : FileTree) (file : Path) (setting : Setting) : Option (Path × ByteArray) := do
  guard (setting.key = includeKey)
  let target ← setting.value.bind Text.decode?
  let included := (directoryOf file).join ⟨target⟩
  let contents ← (t.readFile included).toOption
  return (included, contents)

/-- The variables of the contents of `file`, an included file's in place of the variable that
includes it. -/
def expand (t : FileTree) : (depth : Nat) → (file : Path) → ByteArray → Except String (List Setting)
  | 0, _, _ => .error "maximum config include depth reached"
  | depth + 1, file, contents => do
    let settings ← parse contents
    let expanded ← settings.mapM fun setting =>
      match includedFile? t file setting with
      | some (included, contents) => (expand t depth included contents).map (setting :: ·)
      | none => .ok [setting]
    return expanded.flatten

/-- The variables of a configuration file. A file that is not there sets none. -/
def load (t : FileTree) (file : Path) : Except String (List Setting) :=
  match t.readFile file with
  | .ok contents => expand t includeLimit file contents
  | .error _ => .ok []

/-! ## Looking up -/

/-- The last value set for a variable; a variable without a value has an empty one. -/
def last? (settings : List Setting) (key : String) : Option (List Char) :=
  let key := Text.encode key
  (settings.reverse.find? fun s => s.key = key).map fun s => s.value.getD []

/-- The remote named in the middle of the variable `remote.<name>.<field>`. -/
def remoteOf? (field : String) (key : List Char) : Option (List Char) := do
  let rest ← Text.charsAfter? (Text.encode "remote.") key
  let name ← Text.charsAfter? (Text.encode s!".{field}").reverse rest.reverse
  guard (!name.isEmpty)
  return name.reverse

end GitConfig

end WorktreeTracker
