import WorktreeTracker.Branch
import WorktreeTracker.Failure
import WorktreeTracker.Listing

/-!
# Building the collection of branches

A listing is turned into a collection by four rules. Remote-tracking branches count only for
configured remotes, narrowed by the settings of the repository. A name listed twice with one commit
is one branch, and with two commits the listing is inconsistent. A local branch tracks another only
when that one is in the collection.
-/

namespace WorktreeTracker

/-- The settings of a repository that its catalog depends on. -/
structure CatalogOptions where
  /-- The only remotes whose branches count, when set. -/
  remotes : Option (List String)
deriving DecidableEq, Repr

/-- The options that leave every configured remote in. -/
def CatalogOptions.unrestricted : CatalogOptions := ⟨none⟩

namespace Catalog

/-- Whether the options let the branches of a remote count. -/
def isAllowed (options : CatalogOptions) (remote : String) : Bool :=
  options.remotes.all fun allowed => allowed.contains remote

/-- The names of the remotes whose branches count. -/
def configured (options : CatalogOptions) (remotes : List Remote) : List String :=
  (remotes.map Remote.name).filter (isAllowed options)

/-- The refusal of a listing that names one branch with two commits. -/
def conflict (root : Path) (name : String) (a b : Oid) : TrackError :=
  .unreadable root s!"branch '{name}' listed at both {a.short 7} and {b.short 7}"

/-- Adds a listed remote-tracking branch, unless its remote does not count. -/
def addTracked (root : Path) (configured : List String) (tracked : OrderedMap RemoteBranch Oid)
    (entry : RemoteRef) : Except TrackError (OrderedMap RemoteBranch Oid) :=
  if !configured.contains entry.remote then .ok tracked
  else
    let branch : RemoteBranch := ⟨entry.remote, entry.name⟩
    match tracked.find? branch with
    | none => .ok (tracked.insert branch entry.oid)
    | some oid =>
      if oid = entry.oid then .ok tracked
      else .error (conflict root branch.display oid entry.oid)

/-- Adds a listed local branch. -/
def addLocal (root : Path) (tracked : OrderedMap RemoteBranch Oid)
    (locals : OrderedMap LocalBranch LocalEntry) (entry : LocalRef) :
    Except TrackError (OrderedMap LocalBranch LocalEntry) :=
  let branch : LocalBranch := ⟨entry.name⟩
  match locals.find? branch with
  | none =>
    let tracking := (entry.tracking.map fun u => ⟨u.remote, u.branch⟩).filter tracked.contains
    .ok (locals.insert branch ⟨entry.oid, tracking⟩)
  | some existing =>
    if existing.oid = entry.oid then .ok locals
    else .error (conflict root branch.display existing.oid entry.oid)

/-- The collection of the branches in a listing read for `root`. -/
def build (options : CatalogOptions) (root : Path) (listing : Listing) :
    Except TrackError BranchCollection := do
  let configured := configured options listing.remotes
  let tracked ← listing.tracked.foldlM (addTracked root configured) .empty
  let locals ← listing.locals.foldlM (addLocal root tracked) .empty
  return ⟨locals, tracked⟩

end Catalog

end WorktreeTracker
