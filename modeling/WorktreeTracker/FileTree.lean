import WorktreeTracker.Path

/-!
# File trees

A file system as a list of places with their entries, in the order they were made. Every read of the
tracker goes through `resolve`, which follows a path one name at a time, symbolic links included,
the way the operating system does, or through `walk`, which meets the entries of a directory in the
order they were made. Nothing here has an effect: a change gives a new tree.

Names, the paths made of them and what links point at are texts. A tree has no entry with a name
that is not UTF-8: no such path leads to one, and the plain reader skips a reference that has one on
its way before it reads the file. A damaged reference of such a name, links whose target is not
UTF-8 and roots that are not are beyond this.
-/

namespace WorktreeTracker

/-- What is found at a place in the file system. -/
inductive Entry where
  /-- A directory. -/
  | directory
  /-- A regular file with its contents. -/
  | file (contents : ByteArray)
  /-- A symbolic link with the text it points at. -/
  | link (target : String)

/-- Why the file system refuses an access. -/
inductive Fault where
  /-- There is no such entry. -/
  | notFound
  /-- A name is looked up in something that is no directory. -/
  | notADirectory
  /-- A directory is read as a file. -/
  | isADirectory
  /-- Following the path takes too many symbolic links. -/
  | tooManyLinks
  /-- A name or the whole path is too long. -/
  | nameTooLong
  /-- The path contains a zero character. -/
  | zeroInPath
  /-- The contents are not UTF-8. -/
  | notText
deriving DecidableEq, Repr

/-- Every fault. -/
def Fault.all : List Fault :=
  [.notFound, .notADirectory, .isADirectory, .tooManyLinks, .nameTooLong, .zeroInPath, .notText]

/-- The message of the operating system for a fault. -/
def Fault.message : Fault → String
  | .notFound => "No such file or directory (os error 2)"
  | .notADirectory => "Not a directory (os error 20)"
  | .isADirectory => "Is a directory (os error 21)"
  | .tooManyLinks => "Too many levels of symbolic links (os error 40)"
  | .nameTooLong => "File name too long (os error 36)"
  | .zeroInPath => "file name contained an unexpected NUL byte"
  | .notText => "stream did not contain valid UTF-8"

/-- The longest name an entry can have, in bytes. -/
def maxNameLength : Nat := 255

/-- Whether an entry can have the given name: it is no dot or two dots, not too long, and holds
neither a slash nor a zero character. -/
def isEntryName (name : String) : Bool :=
  name ≠ "" && name ≠ "." && name ≠ ".." && decide (name.utf8ByteSize ≤ maxNameLength) &&
    name.toList.all fun c => c ≠ '/' && c ≠ '\x00'

/-- A file system together with the directory that relative paths start from. -/
structure FileTree where
  /-- The entries below the root directory with their places, in the order they were made. -/
  entries : List (Location × Entry)
  /-- The place that relative paths start from. -/
  workingDirectory : Location
  /-- Every name is one that an entry can have. -/
  named : ∀ e ∈ entries, ∀ name ∈ e.1, isEntryName name = true

namespace FileTree

/-- The file system with nothing in its root directory. -/
def empty : FileTree := ⟨[], [], by simp⟩

instance : Inhabited FileTree := ⟨empty⟩

/-- The entry at a place, the links on the way to it not followed. -/
def entryAt? (t : FileTree) : Location → Option Entry
  | [] => some .directory
  | location => t.entries.lookup location

/-! ## Following a path -/

/-- The length from which on a path is refused, in bytes. -/
def pathLengthLimit : Nat := 4096

/-- The number of symbolic links that one path may take. -/
def linkLimit : Nat := 40

/-- A place and the entry found there. -/
abbrev Found := Location × Entry

/-- Follows the parts of a path from the place `here`. A link is handed to `expand` with the parts
that replace it, except a link at the very end when `followLast` is off. -/
def follow (t : FileTree) (followLast : Bool) (expand : Location → List String → Except Fault Found) :
    (here : Location) → (parts : List String) → Except Fault Found
  | here, [] =>
    match t.entryAt? here with
    | some entry => .ok (here, entry)
    | none => .error .notFound
  | here, part :: rest =>
    match t.entryAt? here with
    | none => .error .notFound
    | some (.file _) => .error .notADirectory
    | some (.link _) => .error .notADirectory
    | some .directory =>
      if part = "" ∨ part = "." then follow t followLast expand here rest
      else if part = ".." then follow t followLast expand here.dropLast rest
      else if maxNameLength < part.utf8ByteSize then .error .nameTooLong
      else match t.entryAt? (here ++ [part]) with
        | none => .error .notFound
        | some (.link target) =>
          if rest.isEmpty && !followLast then .ok (here ++ [part], .link target)
          else
            let start := if Text.startsWith "/" target then [] else here
            expand start (Text.splitOn '/' target ++ rest)
        | some _ => follow t followLast expand (here ++ [part]) rest

/-- Follows the parts of a path, taking at most `links` symbolic links. -/
def followLinks (t : FileTree) (followLast : Bool) :
    (links : Nat) → (here : Location) → (parts : List String) → Except Fault Found
  | 0 => follow t followLast fun _ _ => .error .tooManyLinks
  | links + 1 => follow t followLast (followLinks t followLast links)

/-- The place and entry that a path leads to. With `followLast` off, a link at the end of the path
is itself the result. -/
def resolve (t : FileTree) (p : Path) (followLast : Bool) : Except Fault Found :=
  if p.text.toList.contains '\x00' then .error .zeroInPath
  else if p.text.isEmpty then .error .notFound
  else if pathLengthLimit ≤ p.text.utf8ByteSize then .error .nameTooLong
  else
    t.followLinks followLast linkLimit (if p.isAbsolute then [] else t.workingDirectory) p.pieces

/-! ## Reading -/

/-- The entry a path leads to, links followed. -/
def entry (t : FileTree) (p : Path) : Except Fault Entry :=
  (t.resolve p true).map Prod.snd

/-- Whether the path leads to anything. -/
def isPresent (t : FileTree) (p : Path) : Bool :=
  (t.entry p).toOption.isSome

/-- Whether the path leads to a directory. -/
def isDirectory (t : FileTree) (p : Path) : Bool :=
  match t.entry p with
  | .ok .directory => true
  | _ => false

/-- Whether the path leads to a regular file. -/
def isFile (t : FileTree) (p : Path) : Bool :=
  match t.entry p with
  | .ok (.file _) => true
  | _ => false

/-- The contents of the file at a path. -/
def readFile (t : FileTree) (p : Path) : Except Fault ByteArray :=
  match t.entry p with
  | .ok (.file contents) => .ok contents
  | .ok _ => .error .isADirectory
  | .error fault => .error fault

/-- The text that the contents of a file stand for. -/
def decodeText (contents : ByteArray) : Except Fault String :=
  match String.fromUTF8? contents with
  | some text => .ok text
  | none => .error .notText

/-- The text of the file at a path. -/
def readText (t : FileTree) (p : Path) : Except Fault String :=
  t.readFile p >>= decodeText

/-- The path without symbolic links, dots or relative parts that leads to the same place. -/
def canonicalPath (t : FileTree) (p : Path) : Except Fault Path :=
  (t.resolve p true).map fun found => Path.ofLocation found.1

/-! ## Listing -/

/-- The names in the directory at a place, in the order they were made. -/
def names (t : FileTree) (location : Location) : List String :=
  (t.entries.filterMap fun e =>
    match e.1.getLast? with
    | some name => if e.1.dropLast = location then some name else none
    | none => none).eraseDups

/-- The number of names of the longest place. -/
def depth (t : FileTree) : Nat :=
  (t.entries.map fun e => e.1.length).foldl max 0

/-- Everything below a place that is no directory, with the names that lead there: a directory is
walked at once, before the names that come after it, and no link is followed. At most `levels`
directories are entered one in the other. -/
def walk (t : FileTree) : (levels : Nat) → Location → List (List String × Entry)
  | 0, _ => []
  | levels + 1, location =>
    (t.names location).flatMap fun name =>
      match t.entryAt? (location ++ [name]) with
      | none => []
      | some .directory =>
        (walk t levels (location ++ [name])).map fun (names, entry) => (name :: names, entry)
      | some entry => [([name], entry)]

/-- Everything below a place that is no directory, with the names that lead there. -/
def leavesBelow (t : FileTree) (location : Location) : List (List String × Entry) :=
  t.walk t.depth location

/-- The regular files below a place, with the names that lead there. -/
def filesBelow (t : FileTree) (location : Location) : List (List String × ByteArray) :=
  (t.leavesBelow location).filterMap fun (names, entry) =>
    match entry with
    | .file contents => some (names, contents)
    | _ => none

/-! ## Changing -/

/-- Puts `entry` at a place in a list of entries; a new place comes last. -/
def setEntry (location : Location) (entry : Entry) :
    List (Location × Entry) → List (Location × Entry)
  | [] => [(location, entry)]
  | (place, old) :: rest =>
    if place = location then (place, entry) :: rest
    else (place, old) :: setEntry location entry rest

/-- The places of a list of entries are those of the list before one was set, and that one. -/
theorem place_mem_setEntry {location : Location} {entry : Entry}
    {entries : List (Location × Entry)} {e : Location × Entry}
    (h : e ∈ setEntry location entry entries) :
    e.1 = location ∨ ∃ old ∈ entries, old.1 = e.1 := by
  induction entries with
  | nil =>
    obtain rfl := List.mem_singleton.1 h
    exact .inl rfl
  | cons first rest ih =>
    obtain ⟨place, old⟩ := first
    simp only [setEntry] at h
    split at h
    · rcases List.mem_cons.1 h with rfl | h
      · exact .inr ⟨(place, old), List.mem_cons_self, rfl⟩
      · exact .inr ⟨e, List.mem_cons_of_mem _ h, rfl⟩
    · rcases List.mem_cons.1 h with rfl | h
      · exact .inr ⟨(place, old), List.mem_cons_self, rfl⟩
      · refine (ih h).imp id ?_
        rintro ⟨old, hold, same⟩
        exact ⟨old, List.mem_cons_of_mem _ hold, same⟩

/-- Makes a directory at a place that has no entry. -/
def makeDirectory (entries : List (Location × Entry)) (location : Location) :
    List (Location × Entry) :=
  if (entries.lookup location).isSome then entries else setEntry location .directory entries

/-- The places of a list of entries in which directories were made are the old ones and those of the
directories. -/
theorem place_mem_makeDirectories {locations : List Location} {entries : List (Location × Entry)}
    {e : Location × Entry} (h : e ∈ locations.foldl makeDirectory entries) :
    e.1 ∈ locations ∨ ∃ old ∈ entries, old.1 = e.1 := by
  induction locations generalizing entries with
  | nil => exact .inr ⟨e, h, rfl⟩
  | cons location rest ih =>
    rcases ih h with hrest | ⟨old, hold, same⟩
    · exact .inl (List.mem_cons_of_mem _ hrest)
    · unfold makeDirectory at hold
      split at hold
      · exact .inr ⟨old, hold, same⟩
      · rcases place_mem_setEntry hold with here | ⟨older, holder, before⟩
        · exact .inl (same ▸ here ▸ List.mem_cons_self)
        · exact .inr ⟨older, holder, before.trans same⟩

/-- The tree with `entry` at a place and directories at the places above it that have no entry. A
place with a name that no entry can have leaves the tree as it is. -/
def place (t : FileTree) (location : Location) (entry : Entry) : FileTree :=
  let parents := (List.range location.length).tail.map location.take
  if h : location.isEmpty = false ∧ location.all isEntryName = true then
    { t with
      entries := setEntry location entry (parents.foldl makeDirectory t.entries)
      named := by
        have own : ∀ name ∈ location, isEntryName name = true := List.all_eq_true.1 h.2
        intro e he name hname
        rcases place_mem_setEntry he with here | ⟨old, hold, same⟩
        · exact own name (here ▸ hname)
        · rcases place_mem_makeDirectories hold with above | ⟨older, holder, before⟩
          · obtain ⟨n, _, taken⟩ := List.mem_map.1 above
            exact own name (List.mem_of_mem_take (taken ▸ same ▸ hname))
          · exact t.named older holder name (before ▸ same ▸ hname) }
  else t

/-- The place that a path leads to, names with no entry kept as they are. -/
def target (t : FileTree) (p : Path) (followLast : Bool) : Location :=
  let parts := p.pieces.filter fun part => part ≠ "" ∧ part ≠ "."
  let start : Location := if p.isAbsolute then [] else t.workingDirectory
  let step (last : Bool) (here : Location) (part : String) : Location :=
    if part = ".." then here.dropLast
    else match t.resolve (Path.ofLocation (here ++ [part])) (followLast || !last) with
      | .ok found => found.1
      | .error _ => here ++ [part]
  match parts.getLast? with
  | none => start
  | some final => step true (parts.dropLast.foldl (step false) start) final

/-- The tree with `entry` put at a path: links on the way are followed, and a file is written
through a link at the end. A directory that is there already stays. -/
def put (t : FileTree) (p : Path) (entry : Entry) : FileTree :=
  match entry with
  | .link _ => t.place (t.target p false) entry
  | _ => t.place (t.target p true) entry

/-- The tree without the entry at a path and everything below it. -/
def remove (t : FileTree) (p : Path) : FileTree :=
  let location := t.target p false
  { t with
    entries := t.entries.filter fun e => !location.isPrefixOf e.1
    named := fun e he => t.named e (List.mem_filter.1 he).1 }

end FileTree

end WorktreeTracker
