import WorktreeTracker.Value

/-!
# JSON text

Values written as JSON, one field or item to a line and two spaces to a level.
-/

namespace WorktreeTracker

namespace JsonText

/-- A character as it stands in a quoted text. -/
def escapeChar (c : Char) : List Char :=
  if c = '"' then ['\\', '"']
  else if c = '\\' then ['\\', '\\']
  else if c = '\n' then ['\\', 'n']
  else if c = '\r' then ['\\', 'r']
  else if c = '\t' then ['\\', 't']
  else if c = '\x08' then ['\\', 'b']
  else if c = '\x0C' then ['\\', 'f']
  else if c.toNat < 0x20 then ['\\', 'u', '0', '0'] ++ Text.hexByte (UInt8.ofNat c.toNat)
  else [c]

/-- A text in quotes. -/
def quote (s : String) : String :=
  String.ofList ('"' :: s.toList.flatMap escapeChar ++ ['"'])

/-- The start of a line at a level. -/
def indent (level : Nat) : String :=
  String.ofList ('\n' :: List.replicate (2 * level) ' ')

/-- Puts written items between brackets, each on a line of its own. -/
def bracket (level : Nat) (opening closing : String) (items : List String) : String :=
  if items.isEmpty then opening ++ closing
  else
    let lines := items.map fun item => indent (level + 1) ++ item
    opening ++ ",".intercalate lines ++ indent level ++ closing

mutual

/-- A value written at a level. -/
def write (level : Nat) : Value → String
  | .null => "null"
  | .bool b => if b then "true" else "false"
  | .int n => toString n
  | .real text => text
  | .text s => quote s
  | .list items => bracket level "[" "]" (writeItems (level + 1) items)
  | .table fields => bracket level "\x7b" "\x7d" (writeFields (level + 1) fields)

/-- The items of a list written at a level. -/
def writeItems (level : Nat) : List Value → List String
  | [] => []
  | item :: rest => write level item :: writeItems level rest

/-- The fields of a table written at a level. -/
def writeFields (level : Nat) : List (String × Value) → List String
  | [] => []
  | (name, value) :: rest =>
    (quote name ++ ": " ++ write level value) :: writeFields level rest

end

/-- A value as JSON text. -/
def format (v : Value) : String := write 0 v

end JsonText

end WorktreeTracker
