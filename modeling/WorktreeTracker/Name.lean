import WorktreeTracker.Identifier
import WorktreeTracker.Text

/-!
# Branch names and ref names

The rules a reference name keeps, and the two names built on them. `NameProblem.find?` gives the
first rule that a text breaks, in the order the rules are reported. A `BranchName` carries the proof
that it breaks none, so every branch in a snapshot can be written as a reference. A `RefName` is
checked when it is read and built without a check from a branch name.
-/

namespace WorktreeTracker

/-! ## Rules -/

/-- A rule of reference names that a text breaks. -/
inductive NameProblem where
  /-- The text is empty. -/
  | empty
  /-- The text starts or ends with a slash. -/
  | edgeSlash
  /-- The text ends in `.lock`. -/
  | lockEnding
  /-- The text contains a refused sequence of characters. -/
  | sequence (part : String)
  /-- The text contains a refused character. -/
  | character (c : Char)
  /-- The text contains an ASCII control character. -/
  | control
  /-- A component starts with a dot. -/
  | hiddenComponent
  /-- A component ends in `.lock`. -/
  | lockedComponent
deriving DecidableEq, Repr

namespace NameProblem

/-- How a broken rule is reported. -/
def describe : NameProblem → String
  | .empty => "cannot be empty"
  | .edgeSlash => "cannot start or end with '/'"
  | .lockEnding => "cannot end with '.lock'"
  | .sequence part => s!"cannot contain '{part}'"
  | .character c => s!"cannot contain '{c}'"
  | .control => "cannot contain control characters"
  | .hiddenComponent => "path component cannot start with '.'"
  | .lockedComponent => "path component cannot end with '.lock'"

/-- The ending reserved for lock files. -/
def lockSuffix : String := ".lock"

/-- The sequences refused anywhere in a name, in the order they are looked for. -/
def refusedSequences : List String := ["..", "@\x7b", "//"]

/-- The characters refused anywhere in a name. -/
def refusedCharacters : List Char := [' ', '~', '^', ':', '\\', '?', '*', '[']

/-- The problem of one component between slashes; an empty component has none. -/
def ofComponent? (component : String) : Option NameProblem :=
  if Text.startsWith "." component then some .hiddenComponent
  else if Text.endsWith lockSuffix component then some .lockedComponent
  else none

/-- The first rule that `name` breaks. -/
def find? (name : String) : Option NameProblem :=
  if name.isEmpty then some .empty
  else if Text.startsWith "/" name || Text.endsWith "/" name then some .edgeSlash
  else if Text.endsWith lockSuffix name then some .lockEnding
  else match refusedSequences.find? fun part => Text.occursIn part.toList name.toList with
    | some part => some (.sequence part)
    | none =>
      match name.toList.find? fun c => refusedCharacters.contains c with
      | some c => some (.character c)
      | none =>
        if name.toList.any Text.isControl then some .control
        else (Text.splitOn '/' name).findSome? ofComponent?

end NameProblem

/-! ## Branch names -/

/-- The name of a branch without any `refs/` in front; the part after the remote's name for a
remote-tracking branch. -/
structure BranchName where
  /-- The name as written. -/
  text : String
  /-- The name breaks no rule of reference names. -/
  valid : NameProblem.find? text = none
deriving DecidableEq

namespace BranchName

instance : Ord BranchName := ⟨compareOn BranchName.text⟩

instance : Std.TransOrd BranchName := inferInstanceAs (Std.TransCmp (compareOn BranchName.text))

instance : Std.LawfulEqOrd BranchName where
  compare_self := Std.ReflOrd.compare_self (α := String)
  eq_of_compare {a b} h := by
    have texts : a.text = b.text := Std.LawfulEqOrd.eq_of_compare (α := String) h
    cases a; cases b
    simpa using texts

instance : ToString BranchName := ⟨BranchName.text⟩

/-- The refusal of a branch name for the given reason. -/
def invalid (reason : String) : InvalidIdentifier :=
  ⟨.branchName, s!"branch name {reason}"⟩

/-- The name of a branch whose reference already exists: only the rules of reference names apply. -/
def ofRef (name : String) : Except InvalidIdentifier BranchName :=
  match h : NameProblem.find? name with
  | none => .ok ⟨name, h⟩
  | some problem => .error (invalid problem.describe)

/-- The characters that no new branch name may start with. -/
def refusedStarts : List Char := ['.', '-']

/-- The name of a branch to be made: besides the rules of reference names, `@` is reserved and the
first character may be neither a dot nor a dash. -/
def create (name : String) : Except InvalidIdentifier BranchName :=
  if name = "@" then .error (invalid "cannot be '@' (reserved)")
  else match name.toList.head?.filter refusedStarts.contains with
    | some c => .error (invalid s!"cannot start with '{c}'")
    | none => ofRef name

/-- The branch that a new repository starts on. -/
def master : BranchName := ⟨"master", by decide⟩

end BranchName

/-! ## Ref names -/

/-- The full name of a reference, such as `refs/heads/main` or `HEAD`. -/
structure RefName where
  /-- The name as written. -/
  text : String
deriving DecidableEq, Repr

namespace RefName

/-- What the references of local branches start with. -/
def heads : String := "refs/heads/"

/-- What the references of remote-tracking branches start with. -/
def remotes : String := "refs/remotes/"

instance : ToString RefName := ⟨RefName.text⟩

/-- The ref name written as `name`, which must keep the rules of reference names. -/
def create (name : String) : Except InvalidIdentifier RefName :=
  match NameProblem.find? name with
  | none => .ok ⟨name⟩
  | some problem => .error ⟨.refName, s!"ref name {problem.describe}"⟩

/-- The reference of a local branch. -/
def ofBranch (branch : BranchName) : RefName :=
  ⟨heads ++ branch.text⟩

/-- The reference of the branch `branch` of `remote`. -/
def ofRemoteBranch (remote : String) (branch : BranchName) : RefName :=
  ⟨remotes ++ remote ++ "/" ++ branch.text⟩

/-- What follows `lead` in a ref name that starts with it. -/
def after? (lead : String) (name : RefName) : Option String :=
  Text.after? lead name.text

/-- Whether the reference is that of a local branch. -/
def isBranch (name : RefName) : Bool :=
  Text.startsWith heads name.text

/-- Whether the reference is that of a remote-tracking branch. -/
def isRemoteBranch (name : RefName) : Bool :=
  Text.startsWith remotes name.text

end RefName

end WorktreeTracker
