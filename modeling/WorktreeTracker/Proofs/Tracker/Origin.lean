import WorktreeTracker.Proofs.Tracker.Registration

/-!
# Where handles come from

A handle keeps what its registration read: the directories of the root, the store that was chosen
and the remotes that count. Nothing that happens later changes them, so they are those of the files
at the moment of the registration. Only the snapshot of a handle is ever replaced.
-/

namespace WorktreeTracker.Tracker

/-! ## What stays of a tracker -/

/-- The tracker `k'` has the stores and settings of `k`, and its handles are those of `k`, perhaps
with other snapshots. -/
structure Refreshed (k k' : Tracker) : Prop where
  /-- The available stores are the same. -/
  stores : k'.stores = k.stores
  /-- The settings are the same. -/
  settings : k'.settings = k.settings
  /-- There are as many handles. -/
  length : k'.handles.length = k.handles.length
  /-- A handle differs in its snapshot at most. -/
  handles : ∀ id after, k'.handle? id = some after →
    ∃ before, k.handle? id = some before ∧ after = { before with snapshot := after.snapshot }

namespace Refreshed

variable {k k' k'' : Tracker}

theorem refl (k : Tracker) : Refreshed k k :=
  ⟨rfl, rfl, rfl, fun _ handle h => ⟨handle, h, rfl⟩⟩

theorem trans (h : Refreshed k k') (h' : Refreshed k' k'') : Refreshed k k'' := by
  refine ⟨h'.stores.trans h.stores, h'.settings.trans h.settings, h'.length.trans h.length,
    fun id last hlast => ?_⟩
  obtain ⟨middle, hmiddle, hsame'⟩ := h'.handles id last hlast
  obtain ⟨first, hfirst, hsame⟩ := h.handles id middle hmiddle
  refine ⟨first, hfirst, ?_⟩
  rw [hsame', hsame]

/-- Putting a snapshot in place changes one snapshot. -/
theorem commit {id : HandleId} {handle : Handle} (hid : k.handle? id = some handle)
    (next : Snapshot) : Refreshed k (k.commit id handle next) := by
  refine ⟨rfl, rfl, commit_handles_length k id handle next, fun other after hafter => ?_⟩
  by_cases hother : other = id
  · subst hother
    rw [handle?_commit_self k handle next (handle?_lt hid)] at hafter
    obtain rfl := Option.some.inj hafter
    exact ⟨handle, hid, rfl⟩
  · rw [handle?_commit_of_ne k handle next hother] at hafter
    exact ⟨after, hafter, rfl⟩

theorem updateHandle {id : HandleId} {handle : Handle} (hid : k.handle? id = some handle)
    (w : World) : Refreshed k (k.updateHandle w id handle).2.1 := by
  rcases updateHandle_cases k w id handle with ⟨e, w', heq⟩ | ⟨next, w', -, heq⟩
  · rw [heq]
    exact refl k
  · rw [heq]
    exact commit hid next

theorem refreshEach (k : Tracker) (w : World) (ids : List HandleId) :
    Refreshed k (k.refreshEach w ids).2.1 := by
  induction ids generalizing k w with
  | nil => exact refl k
  | cons id rest ih =>
    cases hid : k.handle? id with
    | none =>
      simp only [Tracker.refreshEach, hid]
      exact ih k w
    | some handle =>
      simp only [Tracker.refreshEach, hid]
      exact (updateHandle hid w).trans (ih _ _)

/-- Only a registration makes handles. -/
theorem perform (k : Tracker) (w : World) {request : Request}
    (hrequest : ∀ root, request ≠ .register root) : Refreshed k (k.perform w request).2 := by
  cases request with
  | register root => exact absurd rfl (hrequest root)
  | unregister root => exact ⟨rfl, rfl, rfl, fun _ handle h => ⟨handle, h, rfl⟩⟩
  | refresh root =>
    cases hrequire : k.require w.tree root with
    | error e =>
      rw [perform_refresh_of_error hrequire]
      exact refl k
    | ok found =>
      rw [perform_refresh_of_ok hrequire]
      exact updateHandle (require_eq hrequire).2 w
  | refreshAll => exact refreshEach k w k.registered.values
  | lookup root =>
    rw [(perform_lookup k w root).2]
    exact refl k
  | update id =>
    cases hhandle : k.handle? id with
    | none =>
      rw [perform_update_of_none hhandle]
      exact refl k
    | some handle =>
      rw [perform_update_of_some hhandle]
      exact updateHandle hhandle w

/-- Every handle is still there, perhaps with another snapshot. -/
theorem handle? (h : Refreshed k k') {id : HandleId} {before : Handle}
    (hid : k.handle? id = some before) :
    ∃ after, k'.handle? id = some after ∧ after = { before with snapshot := after.snapshot } := by
  have hlength := handle?_lt hid
  rw [← h.length] at hlength
  have hafter : k'.handle? id = some k'.handles[id] := List.getElem?_eq_getElem hlength
  obtain ⟨found, hfound, hsame⟩ := h.handles id _ hafter
  obtain rfl := Option.some.inj (hid.symm.trans hfound)
  exact ⟨_, hafter, hsame⟩

/-- There is no handle that was not there before. -/
theorem handle?_eq_none (h : Refreshed k k') {id : HandleId} (hid : k.handle? id = none) :
    k'.handle? id = none := by
  refine List.getElem?_eq_none ?_
  rw [h.length]
  exact List.getElem?_eq_none_iff.1 hid

end Refreshed

/-- A request keeps every handle, perhaps with another snapshot. -/
theorem handle?_perform {k : Tracker} {id : HandleId} {before : Handle}
    (hid : k.handle? id = some before) (w : World) (request : Request) :
    ∃ after, (k.perform w request).2.handle? id = some after ∧
      after = { before with snapshot := after.snapshot } := by
  by_cases hregister : ∃ root, request = .register root
  · obtain ⟨root, rfl⟩ := hregister
    rcases perform_register_cases k w root with
      ⟨other, -, heq⟩ | ⟨-, ⟨e, heq, -⟩ | ⟨handle, -, heq⟩⟩
    · rw [heq]
      exact ⟨before, hid, rfl⟩
    · rw [heq]
      exact ⟨before, hid, rfl⟩
    · rw [heq]
      rcases insertHandle_cases k (normalizeRoot w.tree root) handle with
        ⟨other, -, hinsert⟩ | ⟨-, hinsert⟩ <;> rw [hinsert]
      · exact ⟨before, hid, rfl⟩
      · exact ⟨before, (List.getElem?_append_left (handle?_lt hid)).trans hid, rfl⟩
  · exact (Refreshed.perform k w fun root heq => hregister ⟨root, heq⟩).handle? hid

/-! ## What an update reads -/

/-- An update gives what reading the root gives, and the world is as after the reading. -/
theorem updateHandle_eq (k : Tracker) (w : World) (id : HandleId) (handle : Handle) :
    (k.updateHandle w id handle).1 =
        (readSnapshot handle.store w handle.layout handle.options).1 ∧
      (k.updateHandle w id handle).2.2 =
        (readSnapshot handle.store w handle.layout handle.options).2 := by
  unfold updateHandle
  rcases readSnapshot handle.store w handle.layout handle.options with ⟨_ | next, w'⟩ <;>
    exact ⟨rfl, rfl⟩

/-- An update read the root of its handle, with nothing but reads before it. -/
def Reads (k : Tracker) (w : World) (u : Update) : Prop :=
  ∃ handle w', k.handle? u.handle = some handle ∧ u.root = handle.root ∧ w.Read w' ∧
    u.result = (readSnapshot handle.store w' handle.layout handle.options).1

/-- What is read for a handle is as well read after its snapshot or that of another is replaced. -/
theorem Reads.of_refreshed {k k' : Tracker} {w w' : World} {u : Update} (h : Reads k' w' u)
    (hk : Refreshed k k') (hw : w.Read w') : Reads k w u := by
  obtain ⟨after, w'', hafter, hroot, hread, hresult⟩ := h
  obtain ⟨before, hbefore, hsame⟩ := hk.handles u.handle after hafter
  rw [hsame] at hroot hresult
  exact ⟨before, w'', hbefore, hroot, hw.trans hread, hresult⟩

theorem reads_updateHandle {k : Tracker} {id : HandleId} {handle : Handle}
    (hid : k.handle? id = some handle) (w : World) :
    Reads k w ⟨id, handle.root, (k.updateHandle w id handle).1⟩ :=
  ⟨handle, w, hid, rfl, .refl w, (updateHandle_eq k w id handle).1⟩

theorem updateHandle_read (k : Tracker) (w : World) (id : HandleId) (handle : Handle) :
    w.OnlyRead (k.updateHandle w id handle).2.2 := by
  rw [(updateHandle_eq k w id handle).2]
  exact readSnapshot_read handle.store w handle.layout handle.options

theorem refreshEach_read (k : Tracker) (w : World) (ids : List HandleId) :
    w.OnlyRead (k.refreshEach w ids).2.2 := by
  induction ids generalizing k w with
  | nil => exact .refl w
  | cons id rest ih =>
    cases hid : k.handle? id with
    | none =>
      simp only [refreshEach, hid]
      exact ih k w
    | some handle =>
      simp only [refreshEach, hid]
      exact (updateHandle_read k w id handle).trans (ih _ _)

/-- Refreshing handles one after the other reads the root of each. -/
theorem reads_refreshEach {k : Tracker} (w : World) {ids : List HandleId}
    (hids : ∀ id ∈ ids, id < k.handles.length) :
    ∀ u ∈ pairResults ids (k.refreshEach w ids).1, Reads k w u := by
  induction ids generalizing k w with
  | nil =>
    intro u hu
    cases hu
  | cons id rest ih =>
    obtain ⟨handle, hid⟩ : ∃ handle, k.handle? id = some handle :=
      ⟨_, List.getElem?_eq_getElem (hids id List.mem_cons_self)⟩
    have hrest := ih (k.updateHandle w id handle).2.2 fun other hother => by
      rw [(updateHandle_frame k w id handle).2]
      exact hids other (List.mem_cons_of_mem _ hother)
    intro u hu
    simp only [refreshEach, hid, pairResults, List.zipWith_cons_cons, List.mem_cons] at hu
    rcases hu with rfl | hu
    · exact reads_updateHandle hid w
    · exact (hrest u hu).of_refreshed (Refreshed.updateHandle hid w)
        (updateHandle_read k w id handle).toRead

/-- Every update that a request reports read the root of its handle. -/
theorem reads_perform {bus : EventBus} {updates : List Update} {k : Tracker}
    (hk : Keeps bus updates k) (w : World) (request : Request) :
    ∀ u ∈ (k.perform w request).1.updates, Reads k w u := by
  intro u hu
  cases request with
  | register root =>
    rcases perform_register_cases k w root with
      ⟨id, -, heq⟩ | ⟨-, ⟨e, heq, -⟩ | ⟨handle, -, heq⟩⟩ <;> rw [heq] at hu <;> cases hu
  | unregister root => cases hu
  | refresh root =>
    cases hrequire : k.require w.tree root with
    | error e =>
      rw [perform_refresh_of_error hrequire] at hu
      cases hu
    | ok found =>
      rw [perform_refresh_of_ok hrequire] at hu
      obtain rfl := List.mem_singleton.1 hu
      exact reads_updateHandle (require_eq hrequire).2 w
  | refreshAll =>
    refine reads_refreshEach w (fun id hid => ?_) u hu
    obtain ⟨⟨key, _⟩, hentry, rfl⟩ := List.mem_map.1 hid
    exact hk.made key _ (OrderedMap.find?_eq_some_iff.2 hentry)
  | lookup root =>
    rw [(perform_lookup k w root).1] at hu
    cases hu
  | update id =>
    cases hhandle : k.handle? id with
    | none =>
      rw [perform_update_of_none hhandle] at hu
      cases hu
    | some handle =>
      rw [perform_update_of_some hhandle] at hu
      obtain rfl := List.mem_singleton.1 hu
      exact reads_updateHandle hhandle w

/-- What was read for a handle was read for the same handle after more requests. -/
theorem Reads.perform {k : Tracker} {w : World} {u : Update} (h : Reads k w u) (now : World)
    (request : Request) : Reads (k.perform now request).2 w u := by
  obtain ⟨before, w', hbefore, hroot, hread, hresult⟩ := h
  obtain ⟨after, hafter, hsame⟩ := handle?_perform hbefore now request
  refine ⟨after, w', hafter, ?_, hread, ?_⟩ <;> rw [hsame]
  · exact hroot
  · exact hresult

/-- The world after a request. -/
def worldAfter (k : Tracker) (w : World) : Request → World
  | .register root => (k.register w root).2.2
  | .unregister _ => w
  | .refresh root => (k.refresh w root).2.2
  | .refreshAll => (k.refreshAll w).2.2
  | .lookup _ => w
  | .update id =>
    match k.handle? id with
    | some handle => (k.updateHandle w id handle).2.2
    | none => w

/-- A request does nothing to the world but read it. -/
theorem worldAfter_read (k : Tracker) (w : World) (request : Request) :
    w.OnlyRead (k.worldAfter w request) := by
  cases request with
  | register root =>
    simp only [worldAfter, register]
    cases k.find? w.tree (normalizeRoot w.tree root) with
    | some id => exact .refl w
    | none =>
      dsimp only
      cases k.requireStore k.settings.backend with
      | error e => exact .refl w
      | ok backend =>
        dsimp only
        have hlocate := backend.locate_read w (normalizeRoot w.tree root)
        rcases hlocated : backend.locate w (normalizeRoot w.tree root) with ⟨e | l, w'⟩ <;>
          rw [hlocated] at hlocate
        · exact hlocate
        · dsimp only
          cases k.makeHandle w'.tree l <;> exact hlocate
  | unregister root => exact .refl w
  | refresh root =>
    simp only [worldAfter, refresh]
    cases k.require w.tree root with
    | error e => exact .refl w
    | ok found => exact updateHandle_read k w found.1 found.2
  | refreshAll => exact refreshEach_read k w _
  | lookup root => exact .refl w
  | update id =>
    simp only [worldAfter]
    cases k.handle? id with
    | none => exact .refl w
    | some handle => exact updateHandle_read k w id handle

/-! ## What a registration read -/

/-- What the registration of `root` in the world `w` read for a handle: its directories, and the
settings of its repository, which choose its store and the remotes that count. -/
structure ReadFor (stores : StoreRegistry) (backend : StoreKind) (w : World) (root : Path)
    (settings : Option RepositorySettings) (handle : Handle) : Prop where
  /-- The directories are those that the store of the tracker locates. -/
  located : (backend.locate w (normalizeRoot w.tree root)).1 = .ok handle.layout
  /-- The settings are those in the shared directory. -/
  loaded : RepositorySettings.load w.tree handle.layout.trackerSettings = .ok settings
  /-- The store is that of the settings, or else that of the tracker. -/
  store : handle.store = storeFor backend settings
  /-- The store is that of the tracker or an available one. -/
  available : handle.store = backend ∨ stores.has handle.store = true
  /-- The remotes that count are those of the settings. -/
  options : handle.options = ⟨(settings.getD .empty).remotes⟩

theorem Makes.readFor {k : Tracker} {w : World} {root : Path} {handle : Handle}
    (h : k.Makes w root handle) :
    ∃ settings, ReadFor k.stores k.settings.backend w root settings handle := by
  obtain ⟨settings, hload, havailable, heq⟩ := makeHandle_eq_ok.1 h.made
  have hstore : handle.store = storeFor k.settings.backend settings := by rw [heq]
  rw [← hstore] at havailable
  exact ⟨settings, h.located, hload, hstore, havailable, by rw [heq]⟩

/-- What was read for a handle does not depend on its snapshot. -/
theorem ReadFor.of_same {stores : StoreRegistry} {backend : StoreKind} {w : World} {root : Path}
    {settings : Option RepositorySettings} {before after : Handle}
    (h : ReadFor stores backend w root settings before)
    (hsame : after = { before with snapshot := after.snapshot }) :
    ReadFor stores backend w root settings after := by
  rw [hsame]
  exact ⟨h.located, h.loaded, h.store, h.available, h.options⟩

/-- A root was registered in the given world, and this was read for the handle. -/
def ReadIn (asked : List (World × Request)) (stores : StoreRegistry) (backend : StoreKind)
    (settings : Option RepositorySettings) (handle : Handle) : Prop :=
  ∃ w root, (w, Request.register root) ∈ asked ∧ ReadFor stores backend w root settings handle

/-! ## Runs -/

variable (stores : StoreRegistry) (settings : TrackerSettings) (bus : EventBus)

/-- In every run the stores and settings of the tracker stay, and every handle has what a
registration of the run read. -/
theorem origin_of_run (asked : List (World × Request)) :
    let k := (Run.of (onBus stores settings bus) asked).tracker
    k.stores = stores ∧ k.settings = settings ∧
      ∀ id handle, k.handle? id = some handle →
        ∃ read, ReadIn asked stores settings.backend read handle := by
  induction asked using List.reverseRecOn with
  | nil =>
    refine ⟨rfl, rfl, fun id handle h => ?_⟩
    cases h
  | append_singleton asked a ih =>
    obtain ⟨w, request⟩ := a
    obtain ⟨hstores, hsettings, hhandles⟩ := ih
    rw [Run.of_concat]
    simp only [Run.ask]
    generalize (Run.of (onBus stores settings bus) asked).tracker = k at *
    have hearlier {read handle} (h : ReadIn asked stores settings.backend read handle) :
        ReadIn (asked ++ [(w, request)]) stores settings.backend read handle := by
      obtain ⟨w', root, hmem, hread⟩ := h
      exact ⟨w', root, List.mem_append_left _ hmem, hread⟩
    by_cases hregister : ∃ root, request = .register root
    · obtain ⟨root, rfl⟩ := hregister
      rcases perform_register_cases k w root with
        ⟨id, -, heq⟩ | ⟨-, ⟨e, heq, -⟩ | ⟨handle, hmakes, heq⟩⟩
      · rw [heq]
        exact ⟨hstores, hsettings, fun id handle h => (hhandles id handle h).imp fun _ => hearlier⟩
      · rw [heq]
        exact ⟨hstores, hsettings, fun id handle h => (hhandles id handle h).imp fun _ => hearlier⟩
      · rw [heq]
        rcases insertHandle_cases k (normalizeRoot w.tree root) handle with
          ⟨id, -, hinsert⟩ | ⟨-, hinsert⟩
        · rw [hinsert]
          exact ⟨hstores, hsettings,
            fun id handle h => (hhandles id handle h).imp fun _ => hearlier⟩
        · rw [hinsert]
          refine ⟨hstores, hsettings, fun id found hfound => ?_⟩
          -- the handle is the new one or one that was there
          rcases List.mem_append.1 (List.mem_of_getElem? hfound) with hold | hnew
          · obtain ⟨other, hother⟩ := List.getElem?_of_mem hold
            exact (hhandles other found hother).imp fun _ => hearlier
          · obtain rfl := List.mem_singleton.1 hnew
            obtain ⟨read, hread⟩ := hmakes.readFor
            rw [hstores, hsettings] at hread
            exact ⟨read, w, root, List.mem_append_right _ List.mem_cons_self, hread⟩
    · have hrefreshed : Refreshed k (k.perform w request).2 :=
        Refreshed.perform k w fun root heq => hregister ⟨root, heq⟩
      refine ⟨hrefreshed.stores.trans hstores, hrefreshed.settings.trans hsettings,
        fun id after hafter => ?_⟩
      obtain ⟨before, hbefore, hsame⟩ := hrefreshed.handles id after hafter
      obtain ⟨read, w', root, hmem, hread⟩ := hhandles id before hbefore
      exact ⟨read, w', root, List.mem_append_left _ hmem, hread.of_same hsame⟩

/-- Every update of a run read the root of its handle in the world of its request. -/
theorem reads_of_run (asked : List (World × Request)) :
    let r := Run.of (onBus stores settings bus) asked
    ∀ step ∈ r.past, ∀ u ∈ step.answer.updates, Reads r.tracker step.world u := by
  induction asked using List.reverseRecOn with
  | nil =>
    intro r step hstep
    cases hstep
  | append_singleton asked a ih =>
    obtain ⟨w, request⟩ := a
    rw [Run.of_concat]
    intro r step hstep u hu
    rcases List.mem_cons.1 hstep with rfl | hstep
    · exact (reads_perform (Keeps.run stores settings bus asked) w request u hu).perform w request
    · exact (ih step hstep u hu).perform w request

end WorktreeTracker.Tracker
