import WorktreeTracker.EventBus
import WorktreeTracker.Settings
import WorktreeTracker.Store

/-!
# The tracker

Registered roots with their latest snapshots. Registering a root locates it once and gives a handle;
refreshing reads the root again, puts the new snapshot in place and publishes an event. A failure
changes nothing. Handles outlive the registration that made them.
-/

namespace WorktreeTracker

/-- The settings of a tracker. -/
structure TrackerSettings where
  /-- The store that roots are located and read through unless their repository chooses another. -/
  backend : StoreKind
  /-- The number of events kept for a subscriber. -/
  eventCapacity : Nat
deriving DecidableEq, Repr

/-- What a registration made: a tracked root with its latest snapshot. -/
structure Handle where
  /-- The directories of the root. -/
  layout : Layout
  /-- The store that the root is read through. -/
  store : StoreKind
  /-- The settings that its catalog depends on. -/
  options : CatalogOptions
  /-- The latest snapshot. -/
  snapshot : Snapshot
deriving DecidableEq

/-- The tracked root of a handle. -/
def Handle.root (h : Handle) : Path := h.layout.workDir

/-- The number of a handle, counted over all registrations. -/
abbrev HandleId := Nat

/-- Registered roots and everything they share. -/
structure Tracker where
  /-- The available stores. -/
  stores : StoreRegistry
  /-- The settings. -/
  settings : TrackerSettings
  /-- The handles of the registered roots. -/
  registered : OrderedMap Path.Key HandleId
  /-- Every handle that was made, also of roots that are no longer registered. -/
  handles : List Handle
  /-- The bus that events are published on. -/
  bus : EventBus
deriving DecidableEq

namespace Tracker

/-- A tracker without roots. -/
def create (stores : StoreRegistry) (settings : TrackerSettings) : Tracker :=
  ⟨stores, settings, .empty, [], .create settings.eventCapacity⟩

/-- A tracker over the stores that read from disk, with the settings of a user. -/
def ofConfiguration (c : Configuration) : Tracker :=
  create .standard ⟨c.backend, c.eventCapacity⟩

/-! ## Naming roots -/

/-- The canonical path of the longest part of a path that is there, with the names after it. The
components are given from the last to the first. -/
def nearestCanonical? (t : FileTree) : (reversed : List Component) → Option Path
  | .name text :: rest =>
    match t.canonicalPath (.ofComponents (.name text :: rest).reverse) with
    | .ok path => some path
    | .error _ => (nearestCanonical? t rest).map fun path => path / text
  | reversed => (t.canonicalPath (.ofComponents reversed.reverse)).toOption

/-- The path that a root is registered under. A path that leads nowhere is named from its nearest
part that is there; without one it is kept as given. -/
def normalizeRoot (t : FileTree) (p : Path) : Path :=
  match t.canonicalPath p with
  | .ok path => path
  | .error _ =>
    match p.components.reverse with
    | .name text :: rest =>
      match nearestCanonical? t rest with
      | some path => path / text
      | none => p
    | _ => p

/-! ## Looking up -/

/-- The handle of the given number. -/
def handle? (k : Tracker) (id : HandleId) : Option Handle := k.handles[id]?

/-- The handle that `root` is registered with. -/
def find? (k : Tracker) (t : FileTree) (root : Path) : Option HandleId :=
  k.registered.find? (normalizeRoot t root).components

/-- The handle that `root` is registered with, or the refusal. -/
def require (k : Tracker) (t : FileTree) (root : Path) : Except TrackError (HandleId × Handle) :=
  match (k.find? t root).bind fun id => (k.handle? id).map (id, ·) with
  | some found => .ok found
  | none => .error (.notRegistered root)

/-- The latest snapshot of a registered root. -/
def lookup (k : Tracker) (t : FileTree) (root : Path) : Except TrackError Snapshot :=
  (k.require t root).map fun found => found.2.snapshot

/-- The handles of the registered roots. -/
def repositories (k : Tracker) : List Handle :=
  k.registered.values.filterMap k.handle?

/-- The registered root that contains a path most closely. -/
def forPath? (k : Tracker) (t : FileTree) (p : Path) : Option Handle :=
  let components := (normalizeRoot t p).components
  let containing := k.registered.entries.filter fun entry => entry.1.isPrefixOf components
  let closest := containing.foldl (fun best entry => match best with
    | some b => if b.1.length ≤ entry.1.length then some entry else some b
    | none => some entry) (none : Option (Path.Key × HandleId))
  closest.bind fun entry => k.handle? entry.2

/-- The registered roots that share their references with `root`, which is one of them. -/
def sharing (k : Tracker) (t : FileTree) (root : Path) : Except TrackError (List Handle) := do
  let (_, handle) ← k.require t root
  return k.repositories.filter fun h => h.layout.commonDir.same handle.layout.commonDir

/-! ## Registering -/

/-- Checks that a store is available. -/
def requireStore (k : Tracker) (kind : StoreKind) : Except TrackError StoreKind :=
  if k.stores.has kind then .ok kind else .error (.unknownBackend kind.name)

/-- The handle of a located root, made with the settings of its repository. -/
def makeHandle (k : Tracker) (t : FileTree) (l : Layout) : Except TrackError Handle := do
  let settings ← (RepositorySettings.load t l.trackerSettings).mapError .settings
  let settings := settings.getD .empty
  let store ← match settings.backend.bind StoreKind.ofName? with
    | some kind => if kind = k.settings.backend then .ok kind else k.requireStore kind
    | none => .ok k.settings.backend
  return ⟨l, store, ⟨settings.remotes⟩, .stale l⟩

/-- Puts a handle in place for a root, unless the root is registered by now. -/
def insertHandle (k : Tracker) (key : Path) (handle : Handle) : HandleId × Tracker :=
  match k.registered.find? key.components with
  | some id => (id, k)
  | none =>
    let id := k.handles.length
    (id,
      { k with
        registered := k.registered.insert key.components id
        handles := k.handles ++ [handle] })

/-- Starts tracking `root` with the stale snapshot. A root that is registered already keeps its
handle. -/
def register (k : Tracker) (w : World) (root : Path) :
    Except TrackError HandleId × Tracker × World :=
  let key := normalizeRoot w.tree root
  match k.find? w.tree key with
  | some id => (.ok id, k, w)
  | none =>
    match k.requireStore k.settings.backend with
    | .error e => (.error e, k, w)
    | .ok backend =>
      match backend.locate w key with
      | (.error e, w) => (.error (.ofStore key e), k, w)
      | (.ok l, w) =>
        match k.makeHandle w.tree l with
        | .error e => (.error e, k, w)
        | .ok handle =>
          let (id, k) := k.insertHandle key handle
          (.ok id, k, w)

/-- Stops tracking `root` and tells whether it was registered. -/
def unregister (k : Tracker) (t : FileTree) (root : Path) : Bool × Tracker :=
  let key := (normalizeRoot t root).components
  (k.registered.contains key, { k with registered := k.registered.erase key })

/-! ## Refreshing -/

/-- The event for a handle whose snapshot is replaced by `next`. -/
def eventFor (handle : Handle) (next : Snapshot) : RepositoryChanged :=
  ⟨handle.root, next, handle.snapshot.changed next⟩

/-- Puts the snapshot `next` in place of that of a handle and publishes the event. -/
def commit (k : Tracker) (id : HandleId) (handle : Handle) (next : Snapshot) : Tracker :=
  { k with
    handles := k.handles.set id { handle with snapshot := next }
    bus := (k.bus.publish (eventFor handle next)).2 }

/-- Reads the root of a handle again, whether or not it is still registered. On success the new
snapshot is in place and the event is published; a failure changes nothing. -/
def updateHandle (k : Tracker) (w : World) (id : HandleId) (handle : Handle) :
    Except TrackError Snapshot × Tracker × World :=
  match readSnapshot handle.store w handle.layout handle.options with
  | (.error e, w) => (.error e, k, w)
  | (.ok next, w) => (.ok next, k.commit id handle next, w)

/-- Refreshes a registered root. -/
def refresh (k : Tracker) (w : World) (root : Path) : Except TrackError Snapshot × Tracker × World :=
  match k.require w.tree root with
  | .error e => (.error e, k, w)
  | .ok (id, handle) => k.updateHandle w id handle

/-- Refreshes the roots of the given handles one after the other. -/
def refreshEach (k : Tracker) (w : World) :
    List HandleId → List (Path × Except TrackError Snapshot) × Tracker × World
  | [] => ([], k, w)
  | id :: rest =>
    match k.handle? id with
    | none => refreshEach k w rest
    | some handle =>
      let (result, k, w) := k.updateHandle w id handle
      let (results, k, w) := refreshEach k w rest
      ((handle.root, result) :: results, k, w)

/-- Refreshes every registered root; the failure of one does not stop the others. -/
def refreshAll (k : Tracker) (w : World) :
    List (Path × Except TrackError Snapshot) × Tracker × World :=
  k.refreshEach w k.registered.values

/-! ## Events -/

/-- Adds a subscriber to the events of the tracker. -/
def subscribe (k : Tracker) : SubscriberId × Tracker :=
  let (id, bus) := k.bus.subscribe
  (id, { k with bus })

/-- Hands a subscriber its next event. -/
def receive (k : Tracker) (id : SubscriberId) : Option Received × Tracker :=
  let (received, bus) := k.bus.receive id
  (received, { k with bus })

/-- Hands a subscriber everything that is left for it. -/
def drain (k : Tracker) (id : SubscriberId) : List Received × Tracker :=
  let (received, bus) := k.bus.drain id
  (received, { k with bus })

end Tracker

end WorktreeTracker
