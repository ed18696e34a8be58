import WorktreeTracker.OrderedMap
import WorktreeTracker.Value

/-!
# Branches

Local and remote-tracking branches live in two namespaces. A remote-tracking branch is shown with
its remote in front and known to the remote without it. A `BranchCollection` holds each name once
and never changes.
-/

namespace WorktreeTracker

/-- A local branch. -/
structure LocalBranch where
  /-- The name of the branch. -/
  name : BranchName
deriving DecidableEq

namespace LocalBranch

instance : Ord LocalBranch := ⟨compareOn LocalBranch.name⟩

instance : Std.TransOrd LocalBranch := inferInstanceAs (Std.TransCmp (compareOn LocalBranch.name))

instance : Std.LawfulEqOrd LocalBranch where
  compare_self := Std.ReflOrd.compare_self (α := BranchName)
  eq_of_compare {a b} h := by
    have names : a.name = b.name := Std.LawfulEqOrd.eq_of_compare (α := BranchName) h
    cases a; cases b
    simpa using names

/-- How the branch is shown, which is also how the repository knows it. -/
def display (b : LocalBranch) : String := b.name.text

/-- How a remote knows the branch. -/
def remoteSide (b : LocalBranch) : String := b.name.text

end LocalBranch

/-- A remote-tracking branch. -/
structure RemoteBranch where
  /-- The remote that the branch belongs to. -/
  remote : String
  /-- The name of the branch on the remote. -/
  name : BranchName
deriving DecidableEq

namespace RemoteBranch

instance : Ord RemoteBranch :=
  ⟨compareLex (compareOn RemoteBranch.remote) (compareOn RemoteBranch.name)⟩

instance : Std.TransOrd RemoteBranch := inferInstanceAs
  (Std.TransCmp (compareLex (compareOn RemoteBranch.remote) (compareOn RemoteBranch.name)))

instance : Std.LawfulEqOrd RemoteBranch where
  compare_self := (inferInstance : Std.ReflCmp
    (compareLex (compareOn RemoteBranch.remote) (compareOn RemoteBranch.name))).compare_self
  eq_of_compare {a b} h := by
    obtain ⟨remotes, names⟩ := compareLex_eq_eq.1 h
    have remotes := Std.LawfulEqOrd.eq_of_compare (α := String) remotes
    have names := Std.LawfulEqOrd.eq_of_compare (α := BranchName) names
    cases a; cases b
    simp_all

/-- How the branch is shown, which is also how the repository knows it. -/
def display (b : RemoteBranch) : String := b.remote ++ "/" ++ b.name.text

/-- How the remote knows the branch. -/
def remoteSide (b : RemoteBranch) : String := b.name.text

end RemoteBranch

/-- A branch of either kind. -/
inductive Branch where
  /-- A local branch. -/
  | ofLocal (branch : LocalBranch)
  /-- A remote-tracking branch. -/
  | ofRemote (branch : RemoteBranch)
deriving DecidableEq

namespace Branch

/-- Whether the branch is a remote-tracking branch. -/
def isRemote : Branch → Bool
  | .ofLocal _ => false
  | .ofRemote _ => true

/-- How the branch is shown. -/
def display : Branch → String
  | .ofLocal b => b.display
  | .ofRemote b => b.display

/-- How a remote knows the branch. -/
def remoteSide : Branch → String
  | .ofLocal b => b.remoteSide
  | .ofRemote b => b.remoteSide

/-- The value that a branch is written as: its kind and the names it is made of. -/
def toValue : Branch → Value
  | .ofLocal b => .table [("kind", .text "local"), ("name", b.name.toValue)]
  | .ofRemote b =>
    .table [("kind", .text "remote"), ("remote", .text b.remote), ("name", b.name.toValue)]

end Branch

/-! ## Collections -/

/-- What a collection holds about a local branch. -/
structure LocalEntry where
  /-- The commit. -/
  oid : Oid
  /-- The remote-tracking branch it tracks, when that is in the collection. -/
  tracking : Option RemoteBranch
deriving DecidableEq

/-- Every branch known at the last refresh. -/
structure BranchCollection where
  /-- The local branches. -/
  locals : OrderedMap LocalBranch LocalEntry
  /-- The remote-tracking branches with their commits. -/
  tracked : OrderedMap RemoteBranch Oid
deriving DecidableEq

namespace BranchCollection

/-- The collection without branches. -/
def empty : BranchCollection := ⟨.empty, .empty⟩

/-- The number of branches of both kinds. -/
def size (c : BranchCollection) : Nat := c.locals.size + c.tracked.size

/-- Whether there is no branch of either kind. -/
def isEmpty (c : BranchCollection) : Bool := c.locals.isEmpty && c.tracked.isEmpty

/-- The local branch shown as `name`. -/
def findLocal? (c : BranchCollection) (name : String) : Option LocalBranch :=
  c.locals.keys.find? fun b => b.display = name

/-- The remote-tracking branch shown as `name`. -/
def findRemote? (c : BranchCollection) (name : String) : Option RemoteBranch :=
  c.tracked.keys.find? fun b =>
    (Text.after? b.remote name).bind (Text.after? "/") = some b.name.text

/-- The branch shown as `name`, a local one before a remote-tracking one. -/
def find? (c : BranchCollection) (name : String) : Option Branch :=
  ((c.findLocal? name).map .ofLocal).or ((c.findRemote? name).map .ofRemote)

/-- The commit of a branch. -/
def commit? (c : BranchCollection) : Branch → Option Oid
  | .ofLocal b => (c.locals.find? b).map LocalEntry.oid
  | .ofRemote b => c.tracked.find? b

/-- The commit of the local branch shown as `name`. -/
def localCommit? (c : BranchCollection) (name : String) : Option Oid :=
  (c.findLocal? name).bind fun b => c.commit? (.ofLocal b)

/-- The commit of the remote-tracking branch shown as `name`. -/
def remoteCommit? (c : BranchCollection) (name : String) : Option Oid :=
  (c.findRemote? name).bind fun b => c.commit? (.ofRemote b)

/-- The remote-tracking branch that a local branch tracks. -/
def tracking? (c : BranchCollection) (b : LocalBranch) : Option RemoteBranch :=
  (c.locals.find? b).bind LocalEntry.tracking

end BranchCollection

end WorktreeTracker
