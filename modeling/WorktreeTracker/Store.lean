import WorktreeTracker.Catalog
import WorktreeTracker.Locate
import WorktreeTracker.MemoryStore
import WorktreeTracker.PlainReader
import WorktreeTracker.Repository.Reader
import WorktreeTracker.Snapshot
import WorktreeTracker.StoreKind

/-!
# Stores

The four reads that every backend offers. A read sees the world as it is at that moment; the only
thing it changes is the record that the store in memory keeps of its reads.
-/

namespace WorktreeTracker

/-- Everything that a read can see: the file system and the store in memory. -/
structure World where
  /-- The file system. -/
  tree : FileTree
  /-- The store in memory. -/
  memory : MemoryStore

namespace World

/-- The world with another state of the store in memory, and what was read from it. -/
def withMemory {α : Type} (w : World) (result : α × MemoryStore) : α × World :=
  (result.1, { w with memory := result.2 })

end World

/-- Opens the repository of a located root. A HEAD that is not there is reported before the
repository is opened, because without HEAD there is no repository to open. -/
def openLocated (t : FileTree) (l : Layout) : Except StoreError OpenRepository :=
  if !t.isPresent l.head then .error (.missingHead s!"{l.head} does not exist")
  else (RepositoryReader.openAt t l.workDir).mapError StoreError.ofRead

namespace StoreKind

/-- The directories of the working directory `root`. -/
def locate (kind : StoreKind) (w : World) (root : Path) : Except StoreError Layout × World :=
  match kind with
  | .libgit => ((WorktreeTracker.locate w.tree root).mapError StoreError.ofRead, w)
  | .files => ((WorktreeTracker.locate w.tree root).mapError StoreError.ofRead, w)
  | .memory => w.withMemory (w.memory.locate root)

/-- The branches and remotes listed in the shared directory. -/
def readRefs (kind : StoreKind) (w : World) (l : Layout) : Except StoreError Listing × World :=
  match kind with
  | .libgit =>
    (openLocated w.tree l >>= fun r =>
      (RepositoryReader.listing w.tree r).mapError StoreError.ofRead, w)
  | .files => ((PlainReader.listing w.tree l).mapError StoreError.ofRead, w)
  | .memory => w.withMemory (w.memory.readRefs l)

/-- Where the HEAD of the worktree points. -/
def readHead (kind : StoreKind) (w : World) (l : Layout) : Except StoreError HeadTarget × World :=
  match kind with
  | .libgit =>
    (openLocated w.tree l >>= fun r =>
      (RepositoryReader.head w.tree r).mapError StoreError.ofHeadRead, w)
  | .files => ((PlainReader.head w.tree l).mapError StoreError.ofHeadRead, w)
  | .memory => w.withMemory (w.memory.readHead l)

/-- The operation in progress in the worktree. -/
def readState (kind : StoreKind) (w : World) (l : Layout) :
    Except StoreError OperationState × World :=
  match kind with
  | .libgit => ((openLocated w.tree l).map (RepositoryReader.state w.tree), w)
  | .files => (.ok (PlainReader.state w.tree l), w)
  | .memory => w.withMemory (w.memory.readState l)

end StoreKind

/-! ## Available stores -/

/-- The stores that are available. -/
structure StoreRegistry where
  /-- The kinds of the stores, in the order of all kinds. -/
  kinds : List StoreKind
deriving DecidableEq, Repr

namespace StoreRegistry

/-- No store. -/
def empty : StoreRegistry := ⟨[]⟩

/-- Whether the store of a kind is available. -/
def has (r : StoreRegistry) (kind : StoreKind) : Bool := r.kinds.contains kind

/-- Makes the store of a kind available. -/
def register (r : StoreRegistry) (kind : StoreKind) : StoreRegistry :=
  ⟨StoreKind.all.filter fun k => k = kind || r.has k⟩

/-- The stores that read from disk. -/
def standard : StoreRegistry := (empty.register .libgit).register .files

end StoreRegistry

/-! ## Reads of a refresh -/

/-- The HEAD of a worktree, read through a store. -/
def resolveHead (kind : StoreKind) (w : World) (l : Layout) : Except TrackError Head × World :=
  match kind.readHead w l with
  | (.ok target, w) => (.ok (.ofTarget target), w)
  | (.error e, w) => (.error (.ofStore l.workDir e), w)

/-- The listing of a worktree, read through a store. -/
def readListing (kind : StoreKind) (w : World) (l : Layout) : Except TrackError Listing × World :=
  match kind.readRefs w l with
  | (.ok listing, w) => (.ok listing, w)
  | (.error e, w) => (.error (.ofStore l.workDir e), w)

/-- The collection of branches of a worktree, read through a store. -/
def buildCatalog (kind : StoreKind) (w : World) (l : Layout) (options : CatalogOptions) :
    Except TrackError BranchCollection × World :=
  match readListing kind w l with
  | (.ok listing, w) => (Catalog.build options l.workDir listing, w)
  | (.error e, w) => (.error e, w)

/-- The operation in progress in a worktree, read through a store. -/
def resolveState (kind : StoreKind) (w : World) (l : Layout) :
    Except TrackError OperationState × World :=
  match kind.readState w l with
  | (.ok state, w) => (.ok state, w)
  | (.error e, w) => (.error (.ofStore l.workDir e), w)

/-- All reads of one refresh, in order: HEAD, the listing and the operation in progress. The first
failure ends it. -/
def readSnapshot (kind : StoreKind) (w : World) (l : Layout) (options : CatalogOptions) :
    Except TrackError Snapshot × World :=
  match resolveHead kind w l with
  | (.error e, w) => (.error e, w)
  | (.ok head, w) =>
    match readListing kind w l with
    | (.error e, w) => (.error e, w)
    | (.ok listing, w) =>
      match Catalog.build options l.workDir listing with
      | .error e => (.error e, w)
      | .ok branches =>
        match resolveState kind w l with
        | (.error e, w) => (.error e, w)
        | (.ok state, w) => (.ok (.fresh l branches head state listing.remotes), w)

end WorktreeTracker
