import WorktreeTracker.Proofs.Store
import WorktreeTracker.Proofs.Tracker.ChangeFlag

/-!
# Whether the snapshot of an event can be looked up

An event is published right after the snapshot of its handle is put in place. A lookup of its root
at that moment goes through the registration of the root, under the name that the root has then,
while the handle that publishes may be one of an earlier registration. So the snapshot of the event
is looked up exactly when the root is registered with that handle, or with one that has the same
snapshot by chance.
-/

namespace WorktreeTracker.Tracker

/-! ## Moments of publication -/

/-- A moment at which an event is published. -/
structure Moment where
  /-- The handle whose snapshot was replaced. -/
  handle : HandleId
  /-- The tracker, with the new snapshot in place. -/
  tracker : Tracker
  /-- The files. -/
  tree : FileTree
  /-- The event. -/
  event : RepositoryChanged

/-- Whether a lookup of the root of an event gives the snapshot of the event. -/
def Moment.Visible (m : Moment) : Prop :=
  m.tracker.lookup m.tree m.event.root = .ok m.event.state

/-- The moment at which an update publishes its event, if it does. -/
def updateMoment? (k : Tracker) (w : World) (id : HandleId) (handle : Handle) : Option Moment :=
  match k.updateHandle w id handle with
  | (.ok next, after, w) => some ⟨id, after, w.tree, eventFor handle next⟩
  | (.error _, _, _) => none

/-- The moments at which refreshing handles one after the other publishes events. -/
def refreshMoments (k : Tracker) (w : World) : List HandleId → List Moment
  | [] => []
  | id :: rest =>
    match k.handle? id with
    | none => refreshMoments k w rest
    | some handle =>
      let (_, after, w') := k.updateHandle w id handle
      (k.updateMoment? w id handle).toList ++ refreshMoments after w' rest

/-- The moments at which a request publishes events, in order. -/
def moments (k : Tracker) (w : World) : Request → List Moment
  | .refresh root =>
    match k.require w.tree root with
    | .ok (id, handle) => (k.updateMoment? w id handle).toList
    | .error _ => []
  | .refreshAll => k.refreshMoments w k.registered.values
  | .update id =>
    match k.handle? id with
    | some handle => (k.updateMoment? w id handle).toList
    | none => []
  | _ => []

/-! ## What is published at them -/

/-- An update changes no file. -/
theorem tree_updateHandle (k : Tracker) (w : World) (id : HandleId) (handle : Handle) :
    (k.updateHandle w id handle).2.2.tree = w.tree := by
  have hread := (readSnapshot_read handle.store w handle.layout handle.options).tree
  unfold updateHandle
  rcases hsnapshot : readSnapshot handle.store w handle.layout handle.options with ⟨_ | next, w'⟩
  · rw [hsnapshot] at hread
    exact hread
  · rw [hsnapshot] at hread
    exact hread

/-- An update fails and has no moment, or it has the one at which its snapshot is in place. -/
theorem updateMoment?_cases (k : Tracker) (w : World) (id : HandleId) (handle : Handle) :
    (k.updateMoment? w id handle = none ∧ (k.updateHandle w id handle).2.1 = k) ∨
      ∃ next, (k.updateHandle w id handle).2.1 = k.commit id handle next ∧
        k.updateMoment? w id handle =
          some ⟨id, k.commit id handle next, w.tree, eventFor handle next⟩ := by
  have htree := tree_updateHandle k w id handle
  unfold updateMoment?
  rcases updateHandle_cases k w id handle with ⟨e, w', heq⟩ | ⟨next, w', -, heq⟩
  · rw [heq]
    exact .inl ⟨rfl, rfl⟩
  · rw [heq] at htree ⊢
    exact .inr ⟨next, rfl, by rw [← htree]⟩

/-- The bus gets the event of an update at its moment. -/
theorem bus_updateHandle (k : Tracker) (w : World) (id : HandleId) (handle : Handle) :
    (k.updateHandle w id handle).2.1.bus =
      k.bus.publishAll ((k.updateMoment? w id handle).toList.map Moment.event) := by
  rcases updateMoment?_cases k w id handle with ⟨hnone, hsame⟩ | ⟨next, hcommit, hsome⟩
  · rw [hnone, hsame]
    rfl
  · rw [hsome, hcommit]
    rfl

/-- The bus gets the events of several updates at their moments. -/
theorem bus_refreshEach (k : Tracker) (w : World) (ids : List HandleId) :
    (k.refreshEach w ids).2.1.bus =
      k.bus.publishAll ((k.refreshMoments w ids).map Moment.event) := by
  induction ids generalizing k w with
  | nil => rfl
  | cons id rest ih =>
    cases hid : k.handle? id with
    | none =>
      simp only [refreshEach, refreshMoments, hid]
      exact ih k w
    | some handle =>
      simp only [refreshEach, refreshMoments, hid]
      rw [ih, bus_updateHandle, List.map_append, EventBus.publishAll_append]

/-- The bus gets the events of a request at its moments. -/
theorem bus_perform (k : Tracker) (w : World) (request : Request) :
    (k.perform w request).2.bus = k.bus.publishAll ((k.moments w request).map Moment.event) := by
  cases request with
  | register root =>
    rcases perform_register_cases k w root with
      ⟨id, -, heq⟩ | ⟨-, ⟨e, heq, -⟩ | ⟨handle, -, heq⟩⟩
    · rw [heq]
      rfl
    · rw [heq]
      rfl
    · rw [heq]
      rcases insertHandle_cases k (normalizeRoot w.tree root) handle with
        ⟨id, -, hinsert⟩ | ⟨-, hinsert⟩ <;> rw [hinsert] <;> rfl
  | unregister root => rfl
  | refresh root =>
    cases hrequire : k.require w.tree root with
    | error e =>
      rw [perform_refresh_of_error hrequire]
      simp only [moments, hrequire]
      rfl
    | ok found =>
      rw [perform_refresh_of_ok hrequire]
      simp only [moments, hrequire]
      exact bus_updateHandle k w found.1 found.2
  | refreshAll => exact bus_refreshEach k w k.registered.values
  | lookup root =>
    rw [(perform_lookup k w root).2]
    rfl
  | update id =>
    cases hhandle : k.handle? id with
    | none =>
      rw [perform_update_of_none hhandle]
      simp only [moments, hhandle]
      rfl
    | some handle =>
      rw [perform_update_of_some hhandle]
      simp only [moments, hhandle]
      exact bus_updateHandle k w id handle

/-! ## The state at a moment -/

/-- What holds at a moment of publication, for the registrations and files there were before: the
handle has the snapshot of the event, and nothing else that a lookup depends on has changed. -/
structure Moment.Sound (m : Moment) (registered : OrderedMap Path.Key HandleId) (t : FileTree) :
    Prop where
  /-- The event is that of the handle. -/
  published : ∃ handle, m.tracker.handle? m.handle = some handle ∧ handle.root = m.event.root ∧
    handle.snapshot = m.event.state
  /-- The registrations are as before. -/
  registered : m.tracker.registered = registered
  /-- The files are as before. -/
  tree : m.tree = t

theorem sound_of_mem_updateMoment? {k : Tracker} {w : World} {id : HandleId} {handle : Handle}
    (hid : k.handle? id = some handle) {m : Moment} (hm : m ∈ k.updateMoment? w id handle) :
    m.Sound k.registered w.tree := by
  rcases updateMoment?_cases k w id handle with ⟨hnone, -⟩ | ⟨next, -, hsome⟩
  · rw [hnone] at hm
    cases hm
  · obtain rfl := Option.some.inj (hsome.symm.trans hm)
    exact ⟨⟨_, handle?_commit_self k handle next (handle?_lt hid), rfl, rfl⟩, rfl, rfl⟩

theorem sound_of_mem_refreshMoments {k : Tracker} {w : World} {ids : List HandleId} {m : Moment}
    (hm : m ∈ k.refreshMoments w ids) : m.Sound k.registered w.tree := by
  induction ids generalizing k w with
  | nil => cases hm
  | cons id rest ih =>
    cases hid : k.handle? id with
    | none =>
      simp only [refreshMoments, hid] at hm
      exact ih hm
    | some handle =>
      simp only [refreshMoments, hid] at hm
      rcases List.mem_append.1 hm with hm | hm
      · exact sound_of_mem_updateMoment? hid (Option.mem_toList.1 hm)
      · -- the updates before changed neither the registrations nor the files
        have hrest := ih hm
        rw [(updateHandle_frame k w id handle).1, tree_updateHandle] at hrest
        exact hrest

theorem sound_of_mem_moments {k : Tracker} {w : World} {request : Request} {m : Moment}
    (hm : m ∈ k.moments w request) : m.Sound k.registered w.tree := by
  cases request with
  | register root => cases hm
  | unregister root => cases hm
  | refresh root =>
    cases hrequire : k.require w.tree root with
    | error e =>
      simp only [moments, hrequire] at hm
      cases hm
    | ok found =>
      simp only [moments, hrequire] at hm
      exact sound_of_mem_updateMoment? (require_eq hrequire).2 (Option.mem_toList.1 hm)
  | refreshAll => exact sound_of_mem_refreshMoments hm
  | lookup root => cases hm
  | update id =>
    cases hhandle : k.handle? id with
    | none =>
      simp only [moments, hhandle] at hm
      cases hm
    | some handle =>
      simp only [moments, hhandle] at hm
      exact sound_of_mem_updateMoment? hhandle (Option.mem_toList.1 hm)

/-! ## Lookups -/

/-- A lookup gives the snapshot of the handle that the root is registered with. -/
theorem lookup_eq_ok_iff {k : Tracker} {t : FileTree} {root : Path} {s : Snapshot} :
    k.lookup t root = .ok s ↔
      ∃ id handle, k.registered.find? (keyOf t root) = some id ∧ k.handle? id = some handle ∧
        handle.snapshot = s := by
  rw [lookup, map_eq_ok]
  constructor
  · rintro ⟨⟨id, handle⟩, hrequire, rfl⟩
    obtain ⟨hfind, hhandle⟩ := require_eq hrequire
    exact ⟨id, handle, hfind, hhandle, rfl⟩
  · rintro ⟨id, handle, hfind, hhandle, rfl⟩
    have hfind : k.find? t root = some id := hfind
    exact ⟨(id, handle), by simp only [require, hfind, hhandle, Option.bind_some, Option.map_some],
      rfl⟩

/-- A lookup of a root without a registration is refused. -/
theorem lookup_of_find?_eq_none {k : Tracker} {t : FileTree} {root : Path}
    (h : k.registered.find? (keyOf t root) = none) :
    k.lookup t root = .error (.notRegistered root) := by
  have hfind : k.find? t root = none := h
  simp only [lookup, require, hfind, Option.bind_none, Except.map]

variable (stores : StoreRegistry) (settings : TrackerSettings) (bus : EventBus)

/-- What a lookup gives at every moment of a run at which an event is published. The events that the
bus gets are those of the moments, and each has the root and the snapshot of the handle that
publishes it. A lookup of the root gives that snapshot exactly when the root is registered, under
the name it has at the moment, with a handle of that snapshot. So it does when the registration in
force is that of the handle, and after the root was unregistered it is refused. -/
theorem run_visible_iff (asked : List (World × Request)) (w : World) (request : Request) :
    let r := Run.of (onBus stores settings bus) asked
    (r.ask w request).tracker.bus =
        r.tracker.bus.publishAll ((r.tracker.moments w request).map Moment.event) ∧
      ∀ m ∈ r.tracker.moments w request,
        (∃ handle, m.tracker.handle? m.handle = some handle ∧ handle.root = m.event.root ∧
          handle.snapshot = m.event.state) ∧
        (m.Visible ↔ ∃ id handle,
          r.tracker.registered.find? (keyOf w.tree m.event.root) = some id ∧
            m.tracker.handle? id = some handle ∧ handle.snapshot = m.event.state) ∧
        (Direct r.past →
          (registration r.past (keyOf w.tree m.event.root) = some m.handle → m.Visible) ∧
          (registration r.past (keyOf w.tree m.event.root) = none →
            m.tracker.lookup m.tree m.event.root = .error (.notRegistered m.event.root))) := by
  intro r
  refine ⟨bus_perform r.tracker w request, fun m hm => ?_⟩
  obtain ⟨⟨handle, hhandle, hroot, hstate⟩, hregistered, htree⟩ := sound_of_mem_moments hm
  have hvisible : m.Visible ↔ ∃ id handle,
      r.tracker.registered.find? (keyOf w.tree m.event.root) = some id ∧
        m.tracker.handle? id = some handle ∧ handle.snapshot = m.event.state := by
    rw [Moment.Visible, lookup_eq_ok_iff, hregistered, htree]
  refine ⟨⟨handle, hhandle, hroot, hstate⟩, hvisible, fun hdirect => ?_⟩
  have hfind := registered_of_direct stores settings bus asked hdirect
  refine ⟨fun hown => ?_, fun hnone => ?_⟩
  · exact hvisible.2 ⟨m.handle, handle, (hfind _).trans hown, hhandle, hstate⟩
  · refine lookup_of_find?_eq_none ?_
    rw [hregistered, htree]
    exact (hfind _).trans hnone

/-! ## A handle that outlives its registration -/

/-- A clone on a branch without commits. -/
def clone : World := ⟨unbornOn "main", .empty⟩

/-- The tracker after the clone was registered and unregistered. -/
def afterUnregister : Tracker :=
  (Run.of (onBus .standard ⟨.files, 64⟩ (.create 64))
    [(clone, .register ⟨"/r"⟩), (clone, .unregister ⟨"/r"⟩)]).tracker

/-- An update through the handle of the clone publishes a snapshot, and a lookup is refused. -/
theorem unregistered_update_invisible :
    ∃ m ∈ afterUnregister.moments clone (.update 0), m.event.root = ⟨"/r"⟩ ∧
      m.tracker.lookup m.tree m.event.root = .error (.notRegistered ⟨"/r"⟩) ∧ ¬ m.Visible := by
  have hmoment : ((afterUnregister.moments clone (.update 0)).any fun m =>
      decide (m.event.root = ⟨"/r"⟩ ∧
        m.tracker.lookup m.tree m.event.root = .error (.notRegistered ⟨"/r"⟩))) = true := by
    decide +kernel
  obtain ⟨m, hm, hdecide⟩ := List.any_eq_true.1 hmoment
  obtain ⟨hroot, hlookup⟩ := of_decide_eq_true hdecide
  refine ⟨m, hm, hroot, hlookup, fun hvisible => ?_⟩
  cases hlookup.symm.trans hvisible

end WorktreeTracker.Tracker
