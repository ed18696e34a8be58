import WorktreeTracker.Text

/-!
# Paths

A path is kept as the text it was written as. What it means is its list of components: repeated
slashes, slashes at the end and inner single dots do not count. Comparing paths and testing whether
one contains the other use the components, never the text.
-/

namespace WorktreeTracker

/-- One step of a path. -/
inductive Component where
  /-- The root directory. -/
  | root
  /-- A single dot at the start of a relative path. -/
  | here
  /-- Two dots. -/
  | up
  /-- The entry of the given name. -/
  | name (text : String)
deriving DecidableEq, Repr

namespace Component

/-- The text of a component between slashes. -/
def piece : Component → String
  | .root => ""
  | .here => "."
  | .up => ".."
  | .name text => text

/-- The place of a kind of component among all kinds. -/
def rank : Component → Nat
  | .root => 0
  | .here => 1
  | .up => 2
  | .name _ => 3

instance : Ord Component := ⟨compareLex (compareOn rank) (compareOn piece)⟩

instance : Std.TransOrd Component :=
  inferInstanceAs (Std.TransCmp (compareLex (compareOn rank) (compareOn piece)))

instance : Std.LawfulEqOrd Component where
  compare_self :=
    (inferInstance : Std.ReflCmp (compareLex (compareOn rank) (compareOn piece))).compare_self
  eq_of_compare {a b} h := by
    obtain ⟨ranks, pieces⟩ := compareLex_eq_eq.1 h
    have ranks := Std.LawfulEqOrd.eq_of_compare (α := Nat) ranks
    have pieces := Std.LawfulEqOrd.eq_of_compare (α := String) pieces
    cases a <;> cases b <;> simp_all [rank, piece]

end Component

/-- The names that lead from the root directory to a place in the file system. -/
abbrev Location := List String

/-- A path as written. -/
structure Path where
  /-- The text of the path. -/
  text : String
deriving DecidableEq, Repr, Inhabited

namespace Path

instance : ToString Path := ⟨Path.text⟩

/-! ## Components -/

/-- Whether the path starts at the root directory. -/
def isAbsolute (p : Path) : Bool :=
  Text.startsWith "/" p.text

/-- The parts of the path between slashes. -/
def pieces (p : Path) : List String :=
  Text.splitOn '/' p.text

/-- The component that a part between slashes stands for, other than at the start of a path. -/
def componentOf? (piece : String) : Option Component :=
  if piece = "" ∨ piece = "." then none
  else if piece = ".." then some .up
  else some (.name piece)

/-- The components of the path. -/
def components (p : Path) : List Component :=
  let inner := p.pieces.filterMap componentOf?
  if p.isAbsolute then .root :: inner
  else if p.pieces.head? = some "." then .here :: inner
  else inner

/-- The path made of the given components. -/
def ofComponents : List Component → Path
  | .root :: rest => ⟨"/" ++ "/".intercalate (rest.map Component.piece)⟩
  | cs => ⟨"/".intercalate (cs.map Component.piece)⟩

/-- The path of a place in the file system. -/
def ofLocation (location : Location) : Path :=
  ⟨"/" ++ "/".intercalate location⟩

/-- What a path is looked up by: its components. -/
abbrev Key := List Component

/-- Whether two paths have the same components. -/
def same (p q : Path) : Bool :=
  p.components = q.components

/-- Whether the components of `p` start with those of `base`. -/
def isWithin (p base : Path) : Bool :=
  base.components.isPrefixOf p.components

/-- The name of the last component, when it is a name. -/
def fileName? (p : Path) : Option String :=
  match p.components.getLast? with
  | some (.name text) => some text
  | _ => none

/-! ## Building -/

/-- The path `q` seen from `p`: an absolute `q` is itself, and an empty `q` ends `p` in a slash. -/
def join (p q : Path) : Path :=
  if q.isAbsolute || p.text.isEmpty then q
  else if Text.endsWith "/" p.text then ⟨p.text ++ q.text⟩
  else ⟨p.text ++ "/" ++ q.text⟩

instance : HDiv Path String Path := ⟨fun p name => p.join ⟨name⟩⟩

/-- The parts that are left after the components `base`, empty parts and single dots at the front
dropped. -/
def piecesAfter? : (base : List Component) → (pieces : List String) → Option (List String)
  | base, piece :: rest =>
    match componentOf? piece, base with
    | none, _ => piecesAfter? base rest
    | some _, [] => some (piece :: rest)
    | some c, b :: base => if c = b then piecesAfter? base rest else none
  | [], [] => some []
  | _ :: _, [] => none

/-- The text of `p` after the components of `base`, when its components start with them. -/
def after? (base p : Path) : Option String :=
  if base.isAbsolute = p.isAbsolute then
    (piecesAfter? (base.pieces.filterMap componentOf?) p.pieces).map ("/".intercalate ·)
  else none

/-- Collapses the components: single dots go, and two dots take the component before them away.
Two dots with nothing before them, or only the root directory, stay. -/
def collapse : (done : List Component) → List Component → List Component
  | done, [] => done
  | done, .here :: rest => collapse done rest
  | done, .up :: rest =>
    match done with
    | [] => collapse [.up] rest
    | [.root] => collapse [.root, .up] rest
    | _ => collapse done.dropLast rest
  | done, c :: rest => collapse (done ++ [c]) rest

/-- The path with single and double dots collapsed by name, without looking at the file system. -/
def normalize (p : Path) : Path :=
  ofComponents (collapse [] p.components)

end Path

end WorktreeTracker
