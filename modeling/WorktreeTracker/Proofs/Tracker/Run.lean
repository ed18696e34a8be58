import WorktreeTracker.Proofs.EventBus
import WorktreeTracker.Tracker

/-!
# Runs of a tracker

A tracker is asked one request after the other, each in a world of its own, so everything that the
stores hold may change in between. A run remembers every step that was taken, the newest first. This
module says what the updates of a run leave behind: the snapshot of every handle is that of its
latest successful update, and the bus has got exactly one event for each successful update.

`refreshAll` reads the roots one after the other. Reading them in another order, with changes of the
stores in between, is a run of `update` requests, so it is covered as well.
-/

namespace WorktreeTracker.Tracker

/-! ## Requests and answers -/

/-- What a tracker is asked to do. -/
inductive Request where
  /-- Start tracking a root. -/
  | register (root : Path)
  /-- Stop tracking a root. -/
  | unregister (root : Path)
  /-- Refresh a registered root. -/
  | refresh (root : Path)
  /-- Refresh every registered root. -/
  | refreshAll
  /-- Look up the latest snapshot of a registered root. -/
  | lookup (root : Path)
  /-- Update a handle that was made earlier, whether or not it is still registered. -/
  | update (id : HandleId)

/-- One reading of a root through its handle. -/
structure Update where
  /-- The handle. -/
  handle : HandleId
  /-- The root of the handle. -/
  root : Path
  /-- The snapshot that was read, or why none was. -/
  result : Except TrackError Snapshot

/-- What a tracker answers. -/
inductive Answer where
  /-- The handle of a registered root. -/
  | registered (id : HandleId)
  /-- Whether the root was registered. -/
  | unregistered (was : Bool)
  /-- The updates that were made, in order. -/
  | updated (updates : List Update)
  /-- The snapshot that was looked up. -/
  | found (snapshot : Snapshot)
  /-- Why nothing was done. -/
  | refused (error : TrackError)

/-- The updates that an answer reports, in order. -/
def Answer.updates : Answer → List Update
  | .updated updates => updates
  | _ => []

/-- Whether an answer reports nothing but failure. -/
def Answer.Failed : Answer → Prop
  | .refused _ => True
  | .updated updates => ∀ u ∈ updates, u.result.toOption = none
  | _ => False

/-- The results of refreshing handles one after the other, each with the handle it came through. -/
def pairResults (ids : List HandleId) (results : List (Path × Except TrackError Snapshot)) :
    List Update :=
  List.zipWith (fun id result => ⟨id, result.1, result.2⟩) ids results

/-- Pairing loses no result when there are enough handles. -/
theorem map_pairResults {ids : List HandleId} {results : List (Path × Except TrackError Snapshot)}
    (h : results.length ≤ ids.length) :
    (pairResults ids results).map (fun u => (u.root, u.result)) = results := by
  induction results generalizing ids with
  | nil => simp [pairResults]
  | cons result rest ih =>
    cases ids with
    | nil => cases h
    | cons id ids => simpa [pairResults] using ih (Nat.le_of_succ_le_succ h)

/-- The answer to a request in the given world, and the tracker after it. -/
def perform (k : Tracker) (w : World) : Request → Answer × Tracker
  | .register root =>
    match k.register w root with
    | (.ok id, k, _) => (.registered id, k)
    | (.error e, k, _) => (.refused e, k)
  | .unregister root =>
    let (was, k) := k.unregister w.tree root
    (.unregistered was, k)
  | .refresh root =>
    match k.require w.tree root, k.refresh w root with
    | .ok (id, handle), (result, k, _) => (.updated [⟨id, handle.root, result⟩], k)
    | .error e, (_, k, _) => (.refused e, k)
  | .refreshAll =>
    let (results, after, _) := k.refreshAll w
    (.updated (pairResults k.registered.values results), after)
  | .lookup root =>
    match k.lookup w.tree root with
    | .ok snapshot => (.found snapshot, k)
    | .error e => (.refused e, k)
  | .update id =>
    match k.handle? id with
    | some handle =>
      let (result, k, _) := k.updateHandle w id handle
      (.updated [⟨id, handle.root, result⟩], k)
    | none => (.updated [], k)

theorem perform_refresh_of_ok {k : Tracker} {w : World} {root : Path} {id : HandleId}
    {handle : Handle} (h : k.require w.tree root = .ok (id, handle)) :
    k.perform w (.refresh root) =
      (.updated [⟨id, handle.root, (k.updateHandle w id handle).1⟩],
        (k.updateHandle w id handle).2.1) := by
  simp only [perform, refresh, h]

theorem perform_refresh_of_error {k : Tracker} {w : World} {root : Path} {e : TrackError}
    (h : k.require w.tree root = .error e) : k.perform w (.refresh root) = (.refused e, k) := by
  simp only [perform, refresh, h]

theorem perform_update_of_some {k : Tracker} {id : HandleId} {handle : Handle}
    (h : k.handle? id = some handle) (w : World) :
    k.perform w (.update id) =
      (.updated [⟨id, handle.root, (k.updateHandle w id handle).1⟩],
        (k.updateHandle w id handle).2.1) := by
  simp only [perform, h]

theorem perform_update_of_none {k : Tracker} {id : HandleId} (h : k.handle? id = none) (w : World) :
    k.perform w (.update id) = (.updated [], k) := by
  simp only [perform, h]

/-- A lookup changes nothing and reports no update. -/
theorem perform_lookup (k : Tracker) (w : World) (root : Path) :
    (k.perform w (.lookup root)).1.updates = [] ∧ (k.perform w (.lookup root)).2 = k := by
  cases hlookup : k.lookup w.tree root with
  | error e => simp [perform, hlookup, Answer.updates]
  | ok snapshot => simp [perform, hlookup, Answer.updates]

/-! ## Runs -/

/-- One step of a run. -/
structure Step where
  /-- The world that the request was answered in. -/
  world : World
  /-- The request. -/
  request : Request
  /-- The answer. -/
  answer : Answer

/-- A run: the steps taken so far, the newest first, and the tracker after them. -/
structure Run where
  /-- The steps. -/
  past : List Step
  /-- The tracker. -/
  tracker : Tracker

namespace Run

/-- The run in which nothing was asked yet. -/
def start (k : Tracker) : Run := ⟨[], k⟩

/-- The run after one more request in the given world. -/
def ask (r : Run) (w : World) (request : Request) : Run :=
  ⟨⟨w, request, (r.tracker.perform w request).1⟩ :: r.past, (r.tracker.perform w request).2⟩

/-- The run in which a tracker was asked the given requests in order. -/
def of (k : Tracker) (asked : List (World × Request)) : Run :=
  asked.foldl (fun r a => r.ask a.1 a.2) (start k)

theorem of_concat (k : Tracker) (asked : List (World × Request)) (w : World) (request : Request) :
    of k (asked ++ [(w, request)]) = (of k asked).ask w request := by
  simp [of]

/-- The updates made in a run, the newest first. -/
def updates (r : Run) : List Update :=
  r.past.flatMap fun step => step.answer.updates.reverse

@[simp] theorem updates_ask (r : Run) (w : World) (request : Request) :
    (r.ask w request).updates =
      (r.tracker.perform w request).1.updates.reverse ++ r.updates := by
  simp [updates, ask]

end Run

/-! ## What updates leave behind

The updates of a run are listed with the newest first, so the latest one of a handle is the first
that is found.
-/

/-- The snapshot of the latest successful update of a handle. -/
def latest? (updates : List Update) (id : HandleId) : Option Snapshot :=
  updates.findSome? fun u => if u.handle = id then u.result.toOption else none

/-- The event for a snapshot that replaces another, or the stale one. -/
def eventAfter (previous : Option Snapshot) (root : Path) (next : Snapshot) : RepositoryChanged :=
  ⟨root, next, previous.all (·.changed next)⟩

/-- The events for the successful ones of the given updates, the oldest first, each with the
snapshot it replaced. -/
def publications : List Update → List (Option Snapshot × RepositoryChanged)
  | [] => []
  | u :: earlier =>
    match u.result with
    | .ok next =>
      let previous := latest? earlier u.handle
      publications earlier ++ [(previous, eventAfter previous u.root next)]
    | .error _ => publications earlier

/-- The events for the successful ones of the given updates, the oldest first. -/
def published (updates : List Update) : List RepositoryChanged :=
  (publications updates).map Prod.snd

/-- The root and the snapshot of an update that was successful. -/
def Update.success? (u : Update) : Option (Path × Snapshot) :=
  u.result.toOption.map (u.root, ·)

/-- Each successful update has one event, with its root and the snapshot it gave. -/
theorem published_map (updates : List Update) :
    (published updates).map (fun e => (e.root, e.state)) =
      updates.reverse.filterMap Update.success? := by
  induction updates with
  | nil => rfl
  | cons u earlier ih =>
    obtain ⟨id, root, result⟩ := u
    rw [List.reverse_cons, List.filterMap_append, ← ih]
    cases result with
    | error e =>
      have hnone : Update.success? ⟨id, root, .error e⟩ = none := rfl
      rw [List.filterMap_cons_none hnone, List.filterMap_nil, List.append_nil]
      rfl
    | ok next =>
      have hsome : Update.success? ⟨id, root, .ok next⟩ = some (root, next) := rfl
      rw [List.filterMap_cons_some hsome, List.filterMap_nil]
      simp only [published, publications, eventAfter, List.map_append, List.map_singleton]

/-- What holds of a tracker after the given updates, when its bus was `bus` before them. -/
structure Keeps (bus : EventBus) (updates : List Update) (k : Tracker) : Prop where
  /-- A registered root has a handle. -/
  made : ∀ key id, k.registered.find? key = some id → id < k.handles.length
  /-- Only handles that were made are updated. -/
  updated : ∀ u ∈ updates, u.handle < k.handles.length
  /-- A handle has the snapshot of its latest successful update, or the stale one. -/
  snapshot : ∀ id handle, k.handle? id = some handle →
    handle.snapshot = (latest? updates id).getD (.stale handle.layout)
  /-- A snapshot that was read has the fingerprint of its branches, HEAD and operation. -/
  read : ∀ u ∈ updates, ∀ next, u.result = .ok next → next.fingerprint =
    some (.compute (Snapshot.fingerprintEntries next.branches next.head next.state))
  /-- The bus has got the events of the updates and no other. -/
  bus : k.bus = bus.publishAll (published updates)

/-! ## One update -/

theorem handle?_lt {k : Tracker} {id : HandleId} {handle : Handle} (h : k.handle? id = some handle) :
    id < k.handles.length :=
  (List.getElem?_eq_some_iff.1 h).1

/-- Committing a snapshot changes the handle it was read through. -/
theorem handle?_commit_self (k : Tracker) {id : HandleId} (handle : Handle) (next : Snapshot)
    (h : id < k.handles.length) :
    (k.commit id handle next).handle? id = some { handle with snapshot := next } :=
  List.getElem?_set_self h

/-- Committing a snapshot leaves every other handle alone. -/
theorem handle?_commit_of_ne (k : Tracker) {id other : HandleId} (handle : Handle) (next : Snapshot)
    (h : other ≠ id) : (k.commit id handle next).handle? other = k.handle? other :=
  List.getElem?_set_ne (Ne.symm h)

@[simp] theorem commit_registered (k : Tracker) (id : HandleId) (handle : Handle) (next : Snapshot) :
    (k.commit id handle next).registered = k.registered := rfl

@[simp] theorem commit_handles_length (k : Tracker) (id : HandleId) (handle : Handle)
    (next : Snapshot) : (k.commit id handle next).handles.length = k.handles.length := by
  simp [commit]

/-- What an update does: it fails and changes nothing, or it commits the snapshot it gives. -/
theorem updateHandle_cases (k : Tracker) (w : World) (id : HandleId) (handle : Handle) :
    (∃ e w', k.updateHandle w id handle = (.error e, k, w')) ∨
      ∃ next w', (readSnapshot handle.store w handle.layout handle.options).1 = .ok next ∧
        k.updateHandle w id handle = (.ok next, k.commit id handle next, w') := by
  unfold updateHandle
  rcases hread : readSnapshot handle.store w handle.layout handle.options with ⟨_ | next, w'⟩
  · exact .inl ⟨_, w', rfl⟩
  · exact .inr ⟨next, w', rfl, rfl⟩

/-- An update leaves the registrations and the number of handles alone. -/
theorem updateHandle_frame (k : Tracker) (w : World) (id : HandleId) (handle : Handle) :
    (k.updateHandle w id handle).2.1.registered = k.registered ∧
      (k.updateHandle w id handle).2.1.handles.length = k.handles.length := by
  rcases updateHandle_cases k w id handle with ⟨e, w', heq⟩ | ⟨next, w', -, heq⟩
  · rw [heq]
    exact ⟨rfl, rfl⟩
  · rw [heq]
    exact ⟨rfl, commit_handles_length k id handle next⟩

theorem latest?_cons_self (id : HandleId) (root : Path) (next : Snapshot) (earlier : List Update) :
    latest? (⟨id, root, .ok next⟩ :: earlier) id = some next := by
  simp [latest?, Except.toOption]

theorem latest?_cons_of_ne {id other : HandleId} (h : other ≠ id) (root : Path)
    (result : Except TrackError Snapshot) (earlier : List Update) :
    latest? (⟨id, root, result⟩ :: earlier) other = latest? earlier other := by
  simp [latest?, Ne.symm h]

theorem latest?_cons_error (id other : HandleId) (root : Path) (e : TrackError)
    (earlier : List Update) :
    latest? (⟨id, root, .error e⟩ :: earlier) other = latest? earlier other := by
  simp [latest?, Except.toOption]

/-- A handle that was never updated has no snapshot from an update. -/
theorem latest?_eq_none {updates : List Update} {id : HandleId}
    (h : ∀ u ∈ updates, u.handle ≠ id) : latest? updates id = none := by
  rw [latest?, List.findSome?_eq_none_iff]
  exact fun u hu => if_neg (h u hu)

/-- The snapshot of the latest update of a handle is that of one of its updates. -/
theorem latest?_eq_some {updates : List Update} {id : HandleId} {s : Snapshot}
    (h : latest? updates id = some s) : ∃ u ∈ updates, u.result = .ok s := by
  obtain ⟨u, hu, hsome⟩ := List.exists_of_findSome?_eq_some h
  refine ⟨u, hu, ?_⟩
  split at hsome
  next =>
    cases hresult : u.result with
    | error e =>
      rw [hresult] at hsome
      cases hsome
    | ok next =>
      rw [hresult] at hsome
      rw [Option.some.inj hsome]
  next => cases hsome

/-- A stale snapshot differs from every snapshot with a fingerprint. -/
theorem stale_changed (l : Layout) {next : Snapshot} (h : next.fingerprint ≠ none) :
    (Snapshot.stale l).changed next = true := by
  unfold Snapshot.changed
  exact decide_eq_true (Ne.symm h)

/-- Every snapshot that is read has the fingerprint of its branches, HEAD and operation. -/
theorem fingerprint_of_readSnapshot {kind : StoreKind} {w : World} {l : Layout}
    {options : CatalogOptions} {s : Snapshot} (h : (readSnapshot kind w l options).1 = .ok s) :
    s.fingerprint = some (.compute (Snapshot.fingerprintEntries s.branches s.head s.state)) := by
  unfold readSnapshot at h
  -- a failure of any of the four readings gives no snapshot
  split at h
  next => cases h
  next =>
    split at h
    next => cases h
    next =>
      split at h
      next => cases h
      next =>
        split at h
        next => cases h
        next =>
          obtain rfl := Except.ok.inj h
          rfl

/-- The event that a handle publishes is that of the snapshot replaced. -/
theorem eventFor_eq {updates : List Update} {id : HandleId} {handle : Handle} {next : Snapshot}
    (hs : handle.snapshot = (latest? updates id).getD (.stale handle.layout))
    (hnext : next.fingerprint ≠ none) :
    eventFor handle next = eventAfter (latest? updates id) handle.root next := by
  simp only [eventFor, eventAfter, hs]
  cases latest? updates id with
  | none => simp [stale_changed handle.layout hnext]
  | some previous => simp

/-- A failed update leaves the tracker as it is and counts for no handle and no event. -/
theorem Keeps.failed {bus : EventBus} {updates : List Update} {k : Tracker}
    (hk : Keeps bus updates k) {id : HandleId} (hlt : id < k.handles.length) (root : Path)
    (e : TrackError) : Keeps bus (⟨id, root, .error e⟩ :: updates) k := by
  constructor
  case made => exact hk.made
  case updated =>
    rintro u (_ | ⟨_, hu⟩)
    · exact hlt
    · exact hk.updated u hu
  case snapshot =>
    intro other h hother
    rw [latest?_cons_error]
    exact hk.snapshot other h hother
  case read =>
    rintro u (_ | ⟨_, hu⟩) next hnext
    · cases hnext
    · exact hk.read u hu next hnext
  case bus => exact hk.bus

/-- A snapshot that was read is put in place of the one before and published with what changed. -/
theorem Keeps.commit {bus : EventBus} {updates : List Update} {k : Tracker}
    (hk : Keeps bus updates k) {id : HandleId} {handle : Handle}
    (hid : k.handle? id = some handle) {next : Snapshot}
    (hfingerprint : next.fingerprint =
      some (.compute (Snapshot.fingerprintEntries next.branches next.head next.state))) :
    Keeps bus (⟨id, handle.root, .ok next⟩ :: updates) (k.commit id handle next) := by
  have hlt : id < k.handles.length := handle?_lt hid
  constructor
  case made => simpa using hk.made
  case updated =>
    rintro u (_ | ⟨_, hu⟩)
    · simpa using hlt
    · simpa using hk.updated u hu
  case snapshot =>
    intro other h hother
    -- the handle that was updated has the new snapshot, every other one what it had
    by_cases hne : other = id
    · subst hne
      rw [handle?_commit_self k handle next hlt] at hother
      obtain rfl := Option.some.inj hother
      rw [latest?_cons_self]
      rfl
    · rw [handle?_commit_of_ne k handle next hne] at hother
      rw [latest?_cons_of_ne hne]
      exact hk.snapshot other h hother
  case read =>
    rintro u (_ | ⟨_, hu⟩) other hother
    · obtain rfl := Except.ok.inj hother
      exact hfingerprint
    · exact hk.read u hu other hother
  case bus =>
    have hnext : next.fingerprint ≠ none := by
      rw [hfingerprint]
      simp
    have hevent := eventFor_eq (hk.snapshot id handle hid) hnext
    show (k.bus.publish (eventFor handle next)).2 = _
    rw [hevent, hk.bus, published, published, publications, List.map_append, List.map_singleton,
      EventBus.publishAll_concat]

/-- One update of a handle keeps what holds after the updates so far. -/
theorem Keeps.update {bus : EventBus} {updates : List Update} {k : Tracker}
    (hk : Keeps bus updates k) (w : World) {id : HandleId} {handle : Handle}
    (hid : k.handle? id = some handle) :
    Keeps bus (⟨id, handle.root, (k.updateHandle w id handle).1⟩ :: updates)
      (k.updateHandle w id handle).2.1 := by
  rcases updateHandle_cases k w id handle with ⟨e, w', heq⟩ | ⟨next, w', hread, heq⟩
  · rw [heq]
    exact hk.failed (handle?_lt hid) handle.root e
  · rw [heq]
    exact hk.commit hid (fingerprint_of_readSnapshot hread)

/-! ## Several updates -/

/-- When all handles of several fail to refresh, nothing is changed. -/
theorem refreshEach_of_failed {k : Tracker} {w : World} {ids : List HandleId}
    (h : ∀ result ∈ (k.refreshEach w ids).1, result.2.toOption = none) :
    (k.refreshEach w ids).2.1 = k := by
  induction ids generalizing w with
  | nil => rfl
  | cons id rest ih =>
    cases hid : k.handle? id with
    | none =>
      simp only [refreshEach, hid] at h ⊢
      exact ih h
    | some handle =>
      rcases updateHandle_cases k w id handle with ⟨e, w', heq⟩ | ⟨next, w', -, heq⟩
      · simp only [refreshEach, hid, heq] at h ⊢
        exact ih fun result hresult => h result (List.mem_cons_of_mem _ hresult)
      · simp only [refreshEach, hid, heq] at h
        cases h _ List.mem_cons_self

/-- Refreshing handles gives at most one result for each. -/
theorem refreshEach_length_le (k : Tracker) (w : World) (ids : List HandleId) :
    (k.refreshEach w ids).1.length ≤ ids.length := by
  induction ids generalizing k w with
  | nil => exact Nat.le_refl 0
  | cons id rest ih =>
    cases hid : k.handle? id with
    | none =>
      simp only [refreshEach, hid]
      exact Nat.le_succ_of_le (ih k w)
    | some handle =>
      simp only [refreshEach, hid]
      exact Nat.succ_le_succ (ih _ _)

/-- Refreshing handles leaves the registrations and the number of handles alone. -/
theorem refreshEach_frame (k : Tracker) (w : World) (ids : List HandleId) :
    (k.refreshEach w ids).2.1.registered = k.registered ∧
      (k.refreshEach w ids).2.1.handles.length = k.handles.length := by
  induction ids generalizing k w with
  | nil => exact ⟨rfl, rfl⟩
  | cons id rest ih =>
    cases hid : k.handle? id with
    | none =>
      simp only [refreshEach, hid]
      exact ih k w
    | some handle =>
      simp only [refreshEach, hid]
      obtain ⟨hregistered, hlength⟩ := updateHandle_frame k w id handle
      rw [← hregistered, ← hlength]
      exact ih _ _

/-- Refreshing handles one after the other keeps what holds after the updates so far, with one
update for each handle. -/
theorem Keeps.refreshEach {bus : EventBus} {updates : List Update} {k : Tracker}
    (hk : Keeps bus updates k) (w : World) (ids : List HandleId)
    (hids : ∀ id ∈ ids, id < k.handles.length) :
    Keeps bus ((pairResults ids (k.refreshEach w ids).1).reverse ++ updates)
      (k.refreshEach w ids).2.1 := by
  induction ids generalizing k w updates with
  | nil => exact hk
  | cons id rest ih =>
    obtain ⟨handle, hid⟩ : ∃ handle, k.handle? id = some handle :=
      ⟨_, List.getElem?_eq_getElem (hids id List.mem_cons_self)⟩
    have hrest := ih (hk.update w hid) (k.updateHandle w id handle).2.2 fun other hother => by
      rw [(updateHandle_frame k w id handle).2]
      exact hids other (List.mem_cons_of_mem _ hother)
    simp only [Tracker.refreshEach, hid]
    simpa [pairResults] using hrest

end WorktreeTracker.Tracker
