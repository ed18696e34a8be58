import WorktreeTracker.Proofs.Catalog.Conflict
import WorktreeTracker.Proofs.Tracker.Anchored
import WorktreeTracker.Proofs.Tracker.Naming
import WorktreeTracker.Proofs.Tracker.Schedule
import WorktreeTracker.Proofs.Tracker.Visibility

/-!
# Refreshing every registered root

A handle is registered under the root that it has, so refreshing every registered root gives one
result for each. The order in which the roots are refreshed makes no difference, nor whether they
are refreshed one after the other or at the same time. Refreshing them by name is the same as long
as every root is still found under its own name. A root that was replaced by a link is not.
-/

namespace WorktreeTracker

/-! ## What a reading tells about its root -/

/-- The root that a result concerns. -/
def resultRoot? : Except TrackError Snapshot → Option Path
  | .ok s => some s.root
  | .error e => e.root?

theorem TrackError.root?_ofStore (root : Path) (problem : StoreError) :
    (TrackError.ofStore root problem).root? = some root := by
  cases problem <;> rfl

/-- A refresh that fails does so for its root. -/
theorem error_of_readSnapshot {kind : StoreKind} {w : World} {l : Layout} {options : CatalogOptions}
    {e : TrackError} (h : (readSnapshot kind w l options).1 = .error e) :
    ∃ problem, e = .ofStore l.workDir problem := by
  have hstore {α : Type} {x : Except StoreError α} {e : TrackError}
      (h : x.mapError (TrackError.ofStore l.workDir) = .error e) :
      ∃ problem, e = .ofStore l.workDir problem := by
    obtain ⟨problem, -, heq⟩ := mapError_eq_error.1 h
    exact ⟨problem, heq.symm⟩
  rw [readSnapshot_eq, bind_eq_error] at h
  rcases h with h | ⟨head, -, h⟩
  · rw [resolveHead_eq, map_eq_error] at h
    exact hstore h
  rcases bind_eq_error.1 h with h | ⟨listing, -, h⟩
  · rw [readListing_eq] at h
    exact hstore h
  rcases bind_eq_error.1 h with h | ⟨branches, -, h⟩
  · obtain ⟨problem, rfl⟩ := Catalog.error_of_build h
    exact ⟨.unreadable problem, rfl⟩
  rcases bind_eq_error.1 h with h | ⟨state, -, h⟩
  · rw [resolveState_eq] at h
    exact hstore h
  · cases h

/-- What is read for a root concerns that root. -/
theorem resultRoot?_readSnapshot (kind : StoreKind) (w : World) (l : Layout)
    (options : CatalogOptions) :
    resultRoot? (readSnapshot kind w l options).1 = some l.workDir := by
  cases h : (readSnapshot kind w l options).1 with
  | error e =>
    obtain ⟨problem, rfl⟩ := error_of_readSnapshot h
    exact TrackError.root?_ofStore l.workDir problem
  | ok s =>
    rw [readSnapshot_eq] at h
    obtain ⟨head, -, h⟩ := bind_eq_ok.1 h
    obtain ⟨listing, -, h⟩ := bind_eq_ok.1 h
    obtain ⟨branches, -, h⟩ := bind_eq_ok.1 h
    obtain ⟨state, -, h⟩ := bind_eq_ok.1 h
    obtain rfl := Except.ok.inj h
    rfl

namespace Handle

/-- Reading a handle does not depend on its snapshot, nor on what was read before. -/
theorem read_of_same {before after : Handle} {w w' : World}
    (hsame : after = { before with snapshot := after.snapshot }) (hw : w.Read w') :
    after.read w' = before.read w := by
  rw [hsame]
  exact readSnapshot_of_read hw before.store before.layout before.options

/-- The root of a handle does not depend on its snapshot. -/
theorem root_of_same {before after : Handle}
    (hsame : after = { before with snapshot := after.snapshot }) : after.root = before.root := by
  rw [hsame]
  rfl

/-- What is read for a handle concerns its root. -/
theorem resultRoot?_read (handle : Handle) (w : World) :
    resultRoot? (handle.read w) = some handle.root :=
  resultRoot?_readSnapshot handle.store w handle.layout handle.options

/-- Reading a handle is never refused because its root is not registered. -/
theorem read_ne_notRegistered (handle : Handle) (w : World) (root : Path) :
    handle.read w ≠ .error (.notRegistered root) := by
  intro h
  obtain ⟨problem, heq⟩ := error_of_readSnapshot h
  cases problem <;> cases heq

end Handle

namespace Tracker

variable {k k' : Tracker} {w w' : World}

/-! ## One after the other -/

/-- What reading a handle gives is the same after others, or itself, were updated. -/
theorem Refreshed.map_read (h : Refreshed k k') (hw : w.Read w') (id : HandleId) :
    ((k'.handle? id).map fun handle => (handle.root, handle.read w')) =
      (k.handle? id).map fun handle => (handle.root, handle.read w) := by
  cases hbefore : k.handle? id with
  | none =>
    rw [h.handle?_eq_none hbefore, Option.map_none, Option.map_none]
  | some before =>
    obtain ⟨after, hafter, hsame⟩ := h.handle? hbefore
    rw [hafter, Option.map_some, Option.map_some, Handle.root_of_same hsame,
      Handle.read_of_same hsame hw]

/-- What an update does, told by what reading the root gives. -/
theorem updateHandle_cases_read (k : Tracker) (w : World) (id : HandleId) (handle : Handle) :
    (∃ e w', handle.read w = .error e ∧ k.updateHandle w id handle = (.error e, k, w')) ∨
      ∃ next w', handle.read w = .ok next ∧
        k.updateHandle w id handle = (.ok next, k.commit id handle next, w') := by
  rcases updateHandle_cases k w id handle with ⟨e, w', heq⟩ | hok
  · refine .inl ⟨e, w', ?_, heq⟩
    rw [Handle.read, ← (updateHandle_eq k w id handle).1, heq]
  · exact .inr hok

/-- An update refreshes its handle and leaves the others alone. -/
theorem handle?_updateHandle {id : HandleId} {handle : Handle} (hid : k.handle? id = some handle)
    (w : World) (other : HandleId) :
    (k.updateHandle w id handle).2.1.handle? other =
      if other = id then some (handle.refreshed w) else k.handle? other := by
  rcases updateHandle_cases_read k w id handle with ⟨e, w', hread, heq⟩ | ⟨next, w', hread, heq⟩ <;>
    rw [heq, Handle.refreshed, hread]
  · split
    next h => rw [h, hid]; rfl
    next => rfl
  · split
    next h => rw [h]; exact handle?_commit_self k handle next (handle?_lt hid)
    next h => exact handle?_commit_of_ne k handle next h

/-- An update publishes the event of its handle. -/
theorem event_updateMoment? (k : Tracker) (w : World) (id : HandleId) (handle : Handle) :
    (k.updateMoment? w id handle).map Moment.event = handle.event? w := by
  unfold updateMoment?
  rcases updateHandle_cases_read k w id handle with ⟨e, w', hread, heq⟩ | ⟨next, w', hread, heq⟩ <;>
    rw [heq, Handle.event?, hread] <;> rfl

/-- Refreshing handles one after the other gives what reading each of them gives. -/
theorem refreshEach_results (k : Tracker) (w : World) (ids : List HandleId) :
    (k.refreshEach w ids).1 =
      ids.filterMap fun id => (k.handle? id).map fun handle => (handle.root, handle.read w) := by
  induction ids generalizing k w with
  | nil => rfl
  | cons id rest ih =>
    rw [List.filterMap_cons, refreshEach]
    cases hid : k.handle? id with
    | none => exact ih k w
    | some handle =>
      -- the update of the first handle does not change what the others read
      have hrest : (fun other => ((k.updateHandle w id handle).2.1.handle? other).map
          fun after => (after.root, after.read (k.updateHandle w id handle).2.2)) =
            fun other => (k.handle? other).map fun before => (before.root, before.read w) :=
        funext ((Refreshed.updateHandle hid w).map_read (updateHandle_read k w id handle).toRead)
      have hfirst : (k.updateHandle w id handle).1 = handle.read w :=
        (updateHandle_eq k w id handle).1
      dsimp only
      rw [ih, hrest, hfirst, Option.map_some]

/-- Refreshing handles one after the other refreshes these and no other. -/
theorem refreshEach_handle? (k : Tracker) (w : World) {ids : List HandleId} (hids : ids.Nodup)
    (id : HandleId) :
    (k.refreshEach w ids).2.1.handle? id =
      (k.handle? id).map fun handle => if id ∈ ids then handle.refreshed w else handle := by
  induction ids generalizing k w with
  | nil => simp [refreshEach]
  | cons first rest ih =>
    obtain ⟨hfirst, hrest⟩ := List.nodup_cons.1 hids
    rw [refreshEach]
    cases hhandle : k.handle? first with
    | none =>
      dsimp only
      rw [ih k w hrest]
      by_cases hid : id = first
      · rw [hid, hhandle, Option.map_none, Option.map_none]
      · simp only [List.mem_cons, hid, false_or]
    | some handle =>
      have hw : w.Read (k.updateHandle w first handle).2.2 :=
        (updateHandle_read k w first handle).toRead
      dsimp only
      rw [ih _ _ hrest, handle?_updateHandle hhandle]
      by_cases hid : id = first
      · rw [hid, if_pos rfl, hhandle, Option.map_some, Option.map_some, if_neg hfirst,
          if_pos List.mem_cons_self]
      · have hsame (h : Handle) :
            h.refreshed (k.updateHandle w first handle).2.2 = h.refreshed w := by
          rw [Handle.refreshed, Handle.refreshed, Handle.read_of_same rfl hw]
        rw [if_neg hid]
        simp only [hsame, List.mem_cons, hid, false_or]

/-- The events of refreshing handles one after the other are those of reading each of them. -/
theorem refreshMoments_events (k : Tracker) (w : World) {ids : List HandleId} (hids : ids.Nodup) :
    (k.refreshMoments w ids).map Moment.event =
      ids.filterMap fun id => (k.handle? id).bind fun handle => handle.event? w := by
  induction ids generalizing k w with
  | nil => rfl
  | cons first rest ih =>
    obtain ⟨hfirst, hrest⟩ := List.nodup_cons.1 hids
    rw [List.filterMap_cons, refreshMoments]
    cases hhandle : k.handle? first with
    | none => exact ih k w hrest
    | some handle =>
      have hw : w.Read (k.updateHandle w first handle).2.2 :=
        (updateHandle_read k w first handle).toRead
      -- the handles of the rest are as before, and so is what is read for them
      have hothers : ∀ id ∈ rest,
          (((k.updateHandle w first handle).2.1.handle? id).bind fun h =>
            h.event? (k.updateHandle w first handle).2.2) =
              (k.handle? id).bind fun h => h.event? w := by
        intro id hid
        have hne : id ≠ first := fun heq => hfirst (heq ▸ hid)
        have hsame (h : Handle) : h.event? (k.updateHandle w first handle).2.2 = h.event? w := by
          rw [Handle.event?, Handle.event?, Handle.read_of_same rfl hw]
        simp only [handle?_updateHandle hhandle, if_neg hne, hsame]
      dsimp only
      rw [List.map_append, ih _ _ hrest, List.filterMap_congr hothers, Option.bind_some,
        ← event_updateMoment? k w first handle]
      cases k.updateMoment? w first handle <;> rfl

/-! ## Ways to refresh roots -/

/-- What refreshing several roots came to. -/
structure Refreshment where
  /-- The roots with their results. -/
  results : List (Path × Except TrackError Snapshot)
  /-- The tracker afterwards. -/
  tracker : Tracker
  /-- The events that were published. -/
  events : List RepositoryChanged

/-- Every registered root is refreshed. -/
def everyRoot (k : Tracker) (w : World) : Refreshment :=
  ⟨(k.refreshAll w).1, (k.refreshAll w).2.1, (k.moments w .refreshAll).map Moment.event⟩

/-- The roots of the given handles are refreshed one after the other. -/
def inTurn (k : Tracker) (w : World) (ids : List HandleId) : Refreshment :=
  ⟨(k.refreshEach w ids).1, (k.refreshEach w ids).2.1, (k.refreshMoments w ids).map Moment.event⟩

/-- The roots of the given handles are refreshed at the same time, in the given order of steps. -/
def atOnce (k : Tracker) (w : World) (ids : List HandleId) (order : List Nat) : Refreshment :=
  let u := scheduled k w ids order
  ⟨u.results.filterMap fun entry => (k.handle? entry.1).map fun handle => (handle.root, entry.2),
    u.tracker, u.events.map Prod.snd⟩

/-- The given roots are refreshed by name, one after the other. -/
def byName (k : Tracker) (w : World) : List Path → Refreshment
  | [] => ⟨[], k, []⟩
  | root :: rest =>
    let (result, after, w') := k.refresh w root
    let later := byName after w' rest
    ⟨(root, result) :: later.results, later.tracker,
      (k.moments w (.refresh root)).map Moment.event ++ later.events⟩

/-- The roots of the given handles. -/
def rootsOf (k : Tracker) (ids : List HandleId) : List Path :=
  ids.filterMap fun id => (k.handle? id).map Handle.root

/-- Two ways to refresh roots of `k` come to the same, where the order of results and events does
not count. -/
structure Refreshment.Agrees (k : Tracker) (a b : Refreshment) : Prop where
  /-- The same results for the same roots. -/
  results : a.results.Perm b.results
  /-- The same events. -/
  events : a.events.Perm b.events
  /-- The same tracker, where the bus got the events in their order. -/
  tracker : a.tracker = { b.tracker with bus := k.bus.publishAll a.events }

/-- Trackers with the same parts differ in their bus at most. -/
theorem eq_of_parts (hstores : k.stores = k'.stores) (hsettings : k.settings = k'.settings)
    (hregistered : k.registered = k'.registered) (hhandles : k.handles = k'.handles) :
    k = { k' with bus := k.bus } := by
  rw [← hstores, ← hsettings, ← hregistered, ← hhandles]

/-- Every one of the given handles was refreshed once: what reading its root gives is the result, is
in place and is published. -/
structure Refreshment.Covers (k : Tracker) (w : World) (ids : List HandleId) (a : Refreshment) :
    Prop where
  /-- The results are those of the handles. -/
  results : a.results.Perm
    (ids.filterMap fun id => (k.handle? id).map fun handle => (handle.root, handle.read w))
  /-- The events are those of the handles. -/
  events : a.events.Perm
    (ids.filterMap fun id => (k.handle? id).bind fun handle => handle.event? w)
  /-- The handles are refreshed, and no other is changed. -/
  handles : ∀ id, a.tracker.handle? id =
    (k.handle? id).map fun handle => if id ∈ ids then handle.refreshed w else handle
  /-- The bus got the events. -/
  bus : a.tracker.bus = k.bus.publishAll a.events
  /-- Nothing else of the tracker is changed. -/
  refreshed : Refreshed k a.tracker
  /-- Nor are the registrations. -/
  registered : a.tracker.registered = k.registered

namespace Refreshment.Covers

variable {ids ids' : List HandleId} {a b : Refreshment}

/-- It does not matter how the handles were refreshed, nor in which order. -/
theorem agrees (h : a.Covers k w ids) (h' : b.Covers k w ids') (hperm : ids.Perm ids') :
    a.Agrees k b := by
  constructor
  case results => exact h.results.trans ((hperm.filterMap _).trans h'.results.symm)
  case events => exact h.events.trans ((hperm.filterMap _).trans h'.events.symm)
  case tracker =>
    have hhandles : a.tracker.handles = b.tracker.handles := by
      refine List.ext_getElem? fun id => ?_
      refine (h.handles id).trans (Eq.trans ?_ (h'.handles id).symm)
      simp only [hperm.mem_iff]
    rw [← h.bus]
    exact eq_of_parts (h.refreshed.stores.trans h'.refreshed.stores.symm)
      (h.refreshed.settings.trans h'.refreshed.settings.symm)
      (h.registered.trans h'.registered.symm) hhandles

/-- Refreshing handles one after the other refreshes each of them once. -/
theorem inTurn (k : Tracker) (w : World) (hids : ids.Nodup) : (k.inTurn w ids).Covers k w ids where
  results := .of_eq (refreshEach_results k w ids)
  events := .of_eq (refreshMoments_events k w hids)
  handles := refreshEach_handle? k w hids
  bus := bus_refreshEach k w ids
  refreshed := .refreshEach k w ids
  registered := (refreshEach_frame k w ids).1

/-- So does refreshing them at the same time, once every refresh is over. -/
theorem atOnce {order : List Nat} (hids : ids.Nodup) (hmade : ∀ id ∈ ids, id < k.handles.length)
    (hover : (scheduled k w ids order).Over) : (k.atOnce w ids order).Covers k w ids := by
  have hsettled : Settled k w ids (scheduled k w ids order) := settled_scheduled hids hmade hover
  constructor
  case results =>
    refine (hsettled.results.filterMap _).trans (.of_eq ?_)
    rw [List.filterMap_filterMap]
    refine List.filterMap_congr fun id _ => ?_
    cases hid : k.handle? id with
    | none => rfl
    | some handle => simp [hid]
  case events =>
    refine (hsettled.events.map _).trans (.of_eq ?_)
    rw [List.map_filterMap]
    refine List.filterMap_congr fun id _ => ?_
    cases (k.handle? id).bind fun handle => handle.event? w <;> rfl
  case handles => exact hsettled.handles
  case bus => exact hsettled.bus
  case refreshed => exact hsettled.refreshed
  case registered => exact hsettled.registered

end Refreshment.Covers

/-! ## By name -/

/-- A registered root is refreshed through the handle that it is found with. -/
theorem require_of_find? {t : FileTree} {root : Path} {id : HandleId} {handle : Handle}
    (hfind : k.find? t root = some id) (hid : k.handle? id = some handle) :
    k.require t root = .ok (id, handle) := by
  simp only [require, hfind, hid, Option.bind_some, Option.map_some]

/-- What a refresh of a root by name gives. -/
def nameRead (k : Tracker) (w : World) (root : Path) : Except TrackError Snapshot :=
  match (k.find? w.tree root).bind k.handle? with
  | some handle => handle.read w
  | none => .error (.notRegistered root)

/-- A refresh by name that gives what a handle reads goes through a handle of the same root. -/
theorem exists_of_nameRead {root : Path} {handle : Handle}
    (h : k.nameRead w root = handle.read w) :
    ∃ id found, k.find? w.tree root = some id ∧ k.handle? id = some found ∧
      found.root = handle.root := by
  cases hfind : (k.find? w.tree root).bind k.handle? with
  | none =>
    rw [nameRead, hfind] at h
    exact absurd h.symm (handle.read_ne_notRegistered w root)
  | some found =>
    obtain ⟨id, hid, hfound⟩ := Option.bind_eq_some_iff.1 hfind
    have hread : found.read w = handle.read w := by
      rw [nameRead, hfind] at h
      exact h
    refine ⟨id, found, hid, hfound, ?_⟩
    rw [← Option.some_inj, ← found.resultRoot?_read w, hread, handle.resultRoot?_read]

/-- Looking for a root is the same after refreshes. -/
theorem find?_of_read (hregistered : k'.registered = k.registered) (hw : w.Read w') (root : Path) :
    k'.find? w'.tree root = k.find? w.tree root := by
  rw [find?, find?, hregistered, hw.tree]

/-- What a refresh of a root by name gives is the same after other refreshes. -/
theorem Refreshed.nameRead_eq (h : Refreshed k k') (hregistered : k'.registered = k.registered)
    (hw : w.Read w') (root : Path) : k'.nameRead w' root = k.nameRead w root := by
  rw [nameRead, nameRead, find?_of_read hregistered hw]
  cases k.find? w.tree root with
  | none => rfl
  | some id =>
    rw [Option.bind_some, Option.bind_some]
    cases hbefore : k.handle? id with
    | none => rw [h.handle?_eq_none hbefore]
    | some before =>
      obtain ⟨after, hafter, hsame⟩ := h.handle? hbefore
      rw [hafter]
      exact Handle.read_of_same hsame hw

/-- A refresh by name gives what is read, and changes nothing that other refreshes depend on. -/
theorem refresh_frame (k : Tracker) (w : World) (root : Path) :
    (k.refresh w root).1 = k.nameRead w root ∧ Refreshed k (k.refresh w root).2.1 ∧
      (k.refresh w root).2.1.registered = k.registered ∧ w.Read (k.refresh w root).2.2 := by
  have hnone (h : (k.find? w.tree root).bind k.handle? = none) :
      k.require w.tree root = .error (.notRegistered root) := by
    cases hid : k.find? w.tree root with
    | none => simp only [require, hid, Option.bind_none]
    | some id =>
      rw [hid, Option.bind_some] at h
      simp only [require, hid, h, Option.bind_some, Option.map_none]
  cases hfind : (k.find? w.tree root).bind k.handle? with
  | none =>
    rw [refresh, hnone hfind, nameRead, hfind]
    exact ⟨rfl, .refl k, rfl, .refl w⟩
  | some handle =>
    obtain ⟨id, hid, hhandle⟩ := Option.bind_eq_some_iff.1 hfind
    rw [refresh, require_of_find? hid hhandle, nameRead, hfind]
    exact ⟨(updateHandle_eq k w id handle).1, .updateHandle hhandle w,
      (updateHandle_frame k w id handle).1, (updateHandle_read k w id handle).toRead⟩

/-- Refreshing roots by name gives what each of them gives. -/
theorem byName_results (k : Tracker) (w : World) (roots : List Path) :
    (k.byName w roots).results = roots.map fun root => (root, k.nameRead w root) := by
  induction roots generalizing k w with
  | nil => rfl
  | cons root rest ih =>
    obtain ⟨hresult, hrefreshed, hregistered, hw⟩ := refresh_frame k w root
    rw [List.map_cons, byName]
    dsimp only
    rw [ih, hresult, funext fun other => hrefreshed.nameRead_eq hregistered hw other]

/-- The roots of handles are the same after refreshes. -/
theorem Refreshed.rootsOf_eq (h : Refreshed k k') (ids : List HandleId) :
    k'.rootsOf ids = k.rootsOf ids := by
  refine List.filterMap_congr fun id _ => ?_
  cases hbefore : k.handle? id with
  | none => rw [h.handle?_eq_none hbefore]
  | some before =>
    obtain ⟨after, hafter, hsame⟩ := h.handle? hbefore
    rw [hafter, Option.map_some, Option.map_some, Handle.root_of_same hsame]

/-- Refreshing roots by name is the same as through their handles when each is found under its
name. -/
theorem byName_rootsOf {ids : List HandleId}
    (hfound : ∀ id ∈ ids, ∀ handle, k.handle? id = some handle →
      k.find? w.tree handle.root = some id) :
    k.byName w (k.rootsOf ids) = k.inTurn w ids := by
  induction ids generalizing k w with
  | nil => rfl
  | cons id rest ih =>
    have hrest : ∀ other ∈ rest, ∀ handle, k.handle? other = some handle →
        k.find? w.tree handle.root = some other :=
      fun other hother => hfound other (List.mem_cons_of_mem _ hother)
    rw [rootsOf, List.filterMap_cons, ← rootsOf]
    cases hid : k.handle? id with
    | none =>
      have hskip : k.inTurn w (id :: rest) = k.inTurn w rest := by
        simp only [inTurn, refreshEach, refreshMoments, hid]
      rw [hskip]
      exact ih hrest
    | some handle =>
      have hrequire : k.require w.tree handle.root = .ok (id, handle) :=
        require_of_find? (hfound id List.mem_cons_self handle hid) hid
      have hrefreshed : Refreshed k (k.updateHandle w id handle).2.1 := .updateHandle hid w
      have hregistered := (updateHandle_frame k w id handle).1
      have hw := (updateHandle_read k w id handle).toRead
      -- the roots of the rest are found as before, and they are the same
      have hlater := ih (k := (k.updateHandle w id handle).2.1)
        (w := (k.updateHandle w id handle).2.2) fun other hother after hafter => by
          obtain ⟨before, hbefore, hsame⟩ := hrefreshed.handles other after hafter
          rw [find?_of_read hregistered hw, Handle.root_of_same hsame]
          exact hrest other hother before hbefore
      rw [hrefreshed.rootsOf_eq] at hlater
      simp only [byName, refresh, hrequire, Option.map_some, hlater, moments, inTurn, refreshEach,
        refreshMoments, hid, List.map_append]

namespace Anchored

variable {ids : List HandleId}

/-- A registered root is found when its name is its own. -/
theorem find?_of_keyOf (h : Anchored k) {t : FileTree} {id : HandleId} {handle : Handle}
    (hid : id ∈ k.registered.values) (hhandle : k.handle? id = some handle)
    (hname : keyOf t handle.root = handle.root.components) : k.find? t handle.root = some id := by
  obtain ⟨⟨key, _⟩, hentry, rfl⟩ := List.mem_map.1 hid
  have hregistered := OrderedMap.find?_eq_some_iff.2 hentry
  obtain ⟨_, hown, hkey⟩ := h _ _ hregistered
  obtain rfl := Option.some.inj (hhandle.symm.trans hown)
  have hsame : (normalizeRoot t handle.root).components = key := hname.trans hkey
  rw [find?, hsame]
  exact hregistered

/-- A handle that is found under a name has a root of that name. -/
theorem keyOf_of_find? (h : Anchored k) {t : FileTree} {root : Path} {id : HandleId}
    {found : Handle} (hfind : k.find? t root = some id) (hfound : k.handle? id = some found) :
    keyOf t root = found.root.components := by
  obtain ⟨_, hhandle, hname⟩ := h _ _ hfind
  obtain rfl := Option.some.inj (hfound.symm.trans hhandle)
  exact hname.symm

/-- When refreshing by name gives what refreshing through the handles gives, every root is found
under its name. -/
theorem find?_of_perm (h : Anchored k) (hids : ids.Perm k.registered.values)
    (hresults : (k.byName w (k.rootsOf ids)).results.Perm (k.inTurn w ids).results) :
    ∀ id ∈ ids, ∀ handle, k.handle? id = some handle → k.find? w.tree handle.root = some id := by
  intro id hid handle hhandle
  -- the result by name is that of a handle with this root
  have hname : (handle.root, k.nameRead w handle.root) ∈ (k.inTurn w ids).results := by
    rw [← hresults.mem_iff, byName_results]
    refine List.mem_map_of_mem (List.mem_filterMap.2 ⟨id, hid, ?_⟩)
    rw [hhandle]
    rfl
  rw [Tracker.inTurn, refreshEach_results] at hname
  obtain ⟨other, -, hother⟩ := List.mem_filterMap.1 hname
  obtain ⟨same, -, heq⟩ := Option.map_eq_some_iff.1 hother
  obtain ⟨hroot, hread⟩ := Prod.mk.inj heq
  obtain ⟨other, found, hfind, hfound, hsame⟩ := exists_of_nameRead hread.symm
  refine h.find?_of_keyOf (hids.mem_iff.1 hid) hhandle ?_
  rw [h.keyOf_of_find? hfind hfound, hsame, hroot]

/-- The roots of the results are the registered ones. -/
theorem results_roots (h : Anchored k) (w : World) :
    (k.everyRoot w).results.map (fun result => result.1.components) = k.registered.keys := by
  have hentry : ∀ entry ∈ k.registered.entries,
      ((k.handle? entry.2).map fun handle => (handle.root, handle.read w)).map
        (fun result => result.1.components) = some entry.1 := by
    intro entry hentry
    obtain ⟨handle, hhandle, hroot⟩ := h _ _ (OrderedMap.find?_eq_some_iff.2 hentry)
    rw [hhandle, Option.map_some, Option.map_some, hroot]
  have hresults : (k.everyRoot w).results = k.registered.values.filterMap fun id =>
      (k.handle? id).map fun handle => (handle.root, handle.read w) := refreshEach_results k w _
  rw [hresults, OrderedMap.values, List.filterMap_map, List.map_filterMap]
  refine (List.filterMap_congr hentry).trans ?_
  rw [List.filterMap_eq_map', OrderedMap.keys]

end Anchored

/-! ## Refreshing every root -/

/-- In every session, refreshing every root gives one result for each registered root. It comes to
the same when the roots are refreshed at the same time, in any order of steps in which each of them
gets to its end, and when they are refreshed one after the other in any sequence. By name, that is
so exactly when each root is still found under its name, as every root is that leads to itself. -/
theorem refreshAll_any_order (stores : StoreRegistry) (settings : TrackerSettings) (bus : EventBus)
    (t : FileTree) (occurrences : List Occurrence) :
    let s := Session.of (onBus stores settings bus) t occurrences
    let k := s.tracker (onBus stores settings bus)
    let w := s.world
    (k.everyRoot w).results.map (fun result => result.1.components) = k.registered.keys ∧
      (k.everyRoot w).tracker.bus = k.bus.publishAll (k.everyRoot w).events ∧
      ∀ ids, ids.Perm k.registered.values →
        (∀ order, (scheduled k w ids order).Over →
          (k.atOnce w ids order).Agrees k (k.everyRoot w)) ∧
        (∀ order, Complete ids order → (scheduled k w ids order).Over) ∧
        (k.inTurn w ids).Agrees k (k.everyRoot w) ∧
        ((k.byName w (k.rootsOf ids)).Agrees k (k.everyRoot w) ↔
          ∀ id ∈ ids, ∀ handle, k.handle? id = some handle →
            k.find? w.tree handle.root = some id) ∧
        ((∀ id ∈ ids, ∀ handle, k.handle? id = some handle →
            w.tree.canonicalPath handle.root = .ok handle.root) →
          (k.byName w (k.rootsOf ids)).Agrees k (k.everyRoot w)) := by
  intro s k w
  have hanchored : k.Anchored := (Session.anchored_of stores settings bus t occurrences).2
  have hall : (k.everyRoot w).Covers k w k.registered.values := .inTurn k w hanchored.nodup_values
  refine ⟨hanchored.results_roots w, hall.bus, fun ids hids => ?_⟩
  have hnodup : ids.Nodup := hids.nodup_iff.2 hanchored.nodup_values
  have hmade : ∀ id ∈ ids, id < k.handles.length := fun id hid =>
    have ⟨handle, hhandle⟩ := hanchored.made id (hids.mem_iff.1 hid)
    handle?_lt hhandle
  have hturn : (k.inTurn w ids).Covers k w ids := .inTurn k w hnodup
  have hname : (∀ id ∈ ids, ∀ handle, k.handle? id = some handle →
      k.find? w.tree handle.root = some id) →
        (k.byName w (k.rootsOf ids)).Agrees k (k.everyRoot w) := by
    intro hfound
    rw [byName_rootsOf hfound]
    exact hturn.agrees hall hids
  refine ⟨fun order hover => ?_, fun order => over_of_complete hnodup hmade,
    hturn.agrees hall hids, ⟨fun hagrees => ?_, hname⟩, fun hcanonical => hname ?_⟩
  · exact (Refreshment.Covers.atOnce hnodup hmade hover).agrees hall hids
  · exact hanchored.find?_of_perm hids
      (hagrees.results.trans (hturn.agrees hall hids).results.symm)
  · intro id hid handle hhandle
    exact hanchored.find?_of_keyOf (hids.mem_iff.1 hid) hhandle
      (keyOf_of_canonical (hcanonical id hid handle hhandle))

/-- What is done in a session in which two roots are registered, one of them without HEAD. -/
def twoRoots : List Occurrence :=
  [.call (.addRepository ⟨"/a"⟩), .call (.commit ⟨"/a"⟩), .call (.addRepository ⟨"/b"⟩),
    .call (.removeHead ⟨"/b"⟩), .ask (.register ⟨"/a"⟩), .ask (.register ⟨"/b"⟩)]

/-- The session with two roots. -/
def twoRootsSession : Session :=
  .of (onBus ⟨[.memory]⟩ ⟨.memory, 4⟩ (.create 4)) .empty twoRoots

/-- The tracker of that session. -/
def twoRootsTracker : Tracker :=
  twoRootsSession.tracker (onBus ⟨[.memory]⟩ ⟨.memory, 4⟩ (.create 4))

/-- The steps of two updates in turn. -/
def alternating : List Nat := (List.replicate 7 [0, 1]).flatten

/-- The two roots are refreshed at the same time, the second one first. One of them fails, and the
other one is refreshed all the same. -/
theorem twoRoots_any_order :
    [1, 0].Perm twoRootsTracker.registered.values ∧ Complete [1, 0] alternating ∧
      (twoRootsTracker.everyRoot twoRootsSession.world).results.map
          (fun result => (result.1, result.2.toOption.isSome)) =
        [(⟨"/a"⟩, true), (⟨"/b"⟩, false)] ∧
      (twoRootsTracker.atOnce twoRootsSession.world [1, 0] alternating).Agrees twoRootsTracker
        (twoRootsTracker.everyRoot twoRootsSession.world) := by
  have hids : [1, 0].Perm twoRootsTracker.registered.values := by
    decide +kernel
  have hcomplete : Complete [1, 0] alternating := by
    decide
  obtain ⟨-, -, hany⟩ :=
    refreshAll_any_order ⟨[.memory]⟩ ⟨.memory, 4⟩ (.create 4) .empty twoRoots
  obtain ⟨hschedule, hover, -⟩ := hany [1, 0] hids
  exact ⟨hids, hcomplete, by decide +kernel, hschedule alternating (hover alternating hcomplete)⟩

/-! ## A root that is replaced by a link

A clone makes way for a link to another one. Its root is still registered under its own name, and
that name now leads to a root that is not.
-/

/-- A clone without commits under the given name. -/
def cloneNamed (name : String) : FileTree :=
  FileTree.empty.place [name, ".git", "HEAD"] (.file "ref: refs/heads/main\n".toUTF8)

/-- The session in which a clone is registered and then replaced by a link. -/
def replacedSession : Session :=
  .of (onBus .standard ⟨.files, 64⟩ (.create 64)) (cloneNamed "a")
    [.ask (.register ⟨"/a"⟩), .files ((cloneNamed "b").place ["a"] (.link "b"))]

/-- The tracker of that session. -/
def replacedTracker : Tracker := replacedSession.tracker (onBus .standard ⟨.files, 64⟩ (.create 64))

/-- Refreshing every root refreshes the one that was replaced, and refreshing it by name is
refused. -/
theorem replaced_root_refused :
    (∃ s, (⟨"/a"⟩, .ok s) ∈ (replacedTracker.everyRoot replacedSession.world).results) ∧
      (⟨"/a"⟩, .error (.notRegistered ⟨"/a"⟩)) ∈
        (replacedTracker.byName replacedSession.world [⟨"/a"⟩]).results ∧
      ¬ (replacedTracker.byName replacedSession.world [⟨"/a"⟩]).Agrees replacedTracker
        (replacedTracker.everyRoot replacedSession.world) := by
  have hall : (replacedTracker.everyRoot replacedSession.world).results.map
      (fun result => (result.1, result.2.toOption.isSome)) = [(⟨"/a"⟩, true)] := by
    decide +kernel
  have hname : (⟨"/a"⟩, .error (.notRegistered ⟨"/a"⟩)) ∈
      (replacedTracker.byName replacedSession.world [⟨"/a"⟩]).results := by
    decide +kernel
  refine ⟨?_, hname, fun hagrees => ?_⟩
  · obtain ⟨⟨root, result⟩, hmem, heq⟩ := List.mem_map.1 (hall ▸ List.mem_singleton_self _)
    obtain ⟨rfl, hok⟩ := Prod.mk.inj heq
    cases result with
    | error e => cases hok
    | ok s => exact ⟨s, hmem⟩
  · -- the refusal would be a result of refreshing every root
    have hrefused := List.mem_map_of_mem (f := fun result => (result.1, result.2.toOption.isSome))
      (hagrees.results.mem_iff.1 hname)
    rw [hall] at hrefused
    cases List.mem_singleton.1 hrefused

end Tracker

end WorktreeTracker
