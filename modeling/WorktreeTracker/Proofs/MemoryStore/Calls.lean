import WorktreeTracker.MemoryStore
import WorktreeTracker.Proofs.OrderedMap
import WorktreeTracker.Proofs.Results

/-!
# Calls of the store in memory

Everything that can happen to a store in memory between two reads of a refresh: the calls of a
fixture and the reads of others. A read changes no answer. Only one call lists a branch besides
those that the store keeps by name.
-/

namespace WorktreeTracker

/-! ## Calls -/

/-- What can happen to a store in memory. -/
inductive Call where
  | addRepository (root : Path)
  | addWorktree (primary root : Path) (name : String)
  | commit (root : Path)
  | setBranch (root : Path) (name : String) (oid : Oid)
  | deleteBranch (root : Path) (name : String)
  | pushRawLocal (root : Path) (name : String) (oid : Oid)
  | checkoutNewBranch (root : Path) (name : String)
  | checkout (root : Path) (name : String)
  | detachHead (root : Path)
  | removeHead (root : Path)
  | setState (root : Path) (state : OperationState)
  | addRemote (root : Path) (name url : String)
  | removeRemote (root : Path) (name : String)
  | setRemoteBranch (root : Path) (remote name : String) (oid : Oid)
  | push (root : Path) (remote name : String)
  | failOn (kind : ReadKind) (error : StoreError)
  | clearFailure
  | locate (root : Path)
  | readRefs (l : Layout)
  | readHead (l : Layout)
  | readState (l : Layout)

/-- Whether a call lists a local branch besides the others. -/
def Call.isRaw : Call → Bool
  | .pushRawLocal _ _ _ => true
  | _ => false

namespace MemoryStore

/-- The store after a call that may make no sense; such a call leaves it as it is. -/
def after (m : MemoryStore) : Except FixtureError MemoryStore → MemoryStore
  | .ok changed => changed
  | .error _ => m

/-- The store after a call. -/
def perform (m : MemoryStore) : Call → MemoryStore
  | .addRepository root => (m.addRepository root).2
  | .addWorktree primary root name => m.after ((m.addWorktree primary root name).map Prod.snd)
  | .commit root => (m.commit root).2
  | .setBranch root name oid => m.after (m.setBranch root name oid)
  | .deleteBranch root name => m.after (m.deleteBranch root name)
  | .pushRawLocal root name oid => m.after (m.pushRawLocal root name oid)
  | .checkoutNewBranch root name => m.after (m.checkoutNewBranch root name)
  | .checkout root name => m.after (m.checkout root name)
  | .detachHead root => m.after (m.detachHead root)
  | .removeHead root => m.after (m.removeHead root)
  | .setState root state => m.after (m.setState root state)
  | .addRemote root name url => m.after (m.addRemote root name url)
  | .removeRemote root name => m.after (m.removeRemote root name)
  | .setRemoteBranch root remote name oid => m.after (m.setRemoteBranch root remote name oid)
  | .push root remote name => m.after (m.push root remote name)
  | .failOn kind error => m.failOn kind error
  | .clearFailure => m.clearFailure
  | .locate root => (m.locate root).2
  | .readRefs l => (m.readRefs l).2
  | .readHead l => (m.readHead l).2
  | .readState l => (m.readState l).2

/-! ## Branches listed once -/

/-- No branch is listed besides those that are kept by name. -/
def NoExtra (m : MemoryStore) : Prop :=
  ∀ e ∈ m.shared.entries, e.2.extra = []

theorem noExtra_empty : NoExtra empty := by
  intro e he
  cases he

end MemoryStore

end WorktreeTracker
