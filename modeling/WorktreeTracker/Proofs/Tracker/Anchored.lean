import WorktreeTracker.Proofs.Locate
import WorktreeTracker.Proofs.MemoryStore.Isolation
import WorktreeTracker.Proofs.MemoryStore.Session
import WorktreeTracker.Proofs.Tracker.Origin

/-!
# Registered roots

A store locates a root at the root itself, so a handle has the root that it is registered under. The
worktrees in memory have to be under their own roots for that, and they are. A handle is therefore
registered once at most, however often its root was registered, unregistered and refreshed.
-/

namespace WorktreeTracker

/-! ## Where a store locates a root -/

/-- The directories located for a root are those of a worktree at the root. -/
theorem StoreKind.workDir_of_locate {kind : StoreKind} {w : World} {root : Path} {l : Layout}
    (hplaced : w.memory.Placed) (h : (kind.locate w root).1 = .ok l) :
    l.workDir.components = root.components := by
  have hdisk (h : (WorktreeTracker.locate w.tree root).mapError StoreError.ofRead = .ok l) :
      l.workDir.components = root.components := by
    rw [mapError_eq_ok, locate_eq_ok] at h
    obtain ⟨-, rfl⟩ | ⟨gitDir, commonDir, -, -, rfl⟩ := h
    · rfl
    · rfl
  cases kind with
  | libgit => exact hdisk h
  | files => exact hdisk h
  | memory =>
    obtain ⟨worktree, hworktree, rfl⟩ := map_eq_ok.1 h
    exact hplaced _ _ (MemoryStore.worktree_eq_ok.1 (MemoryStore.worktree_of_checkRead hworktree))

namespace Tracker

/-! ## Registered roots -/

/-- Every handle is registered under its own root. -/
def Anchored (k : Tracker) : Prop :=
  ∀ key id, k.registered.find? key = some id →
    ∃ handle, k.handle? id = some handle ∧ handle.root.components = key

namespace Anchored

variable {k k' : Tracker}

theorem onBus (stores : StoreRegistry) (settings : TrackerSettings) (bus : EventBus) :
    Anchored (onBus stores settings bus) := by
  intro key id hfind
  cases hfind

/-- Handles that are refreshed keep their roots. -/
theorem of_refreshed (h : Anchored k) (hrefreshed : Refreshed k k')
    (hregistered : ∀ key id, k'.registered.find? key = some id →
      k.registered.find? key = some id) : Anchored k' := by
  intro key id hfind
  obtain ⟨before, hbefore, hroot⟩ := h key id (hregistered key id hfind)
  obtain ⟨after, hafter, hsame⟩ := hrefreshed.handle? hbefore
  refine ⟨after, hafter, ?_⟩
  rw [hsame]
  exact hroot

/-- A handle that is inserted under its own root is registered under it. -/
theorem insertHandle (h : Anchored k) {key : Path} {handle : Handle}
    (hroot : handle.root.components = key.components) :
    Anchored (k.insertHandle key handle).2 := by
  rcases insertHandle_cases k key handle with ⟨id, -, heq⟩ | ⟨-, heq⟩
  · rw [heq]
    exact h
  · rw [heq]
    intro other id hfind
    rw [OrderedMap.find?_insert] at hfind
    split at hfind
    next hother =>
      obtain rfl := Option.some.inj hfind
      exact ⟨handle, by simp [handle?], by rw [hroot, hother]⟩
    next =>
      obtain ⟨before, hbefore, hroot⟩ := h other id hfind
      exact ⟨before, (List.getElem?_append_left (handle?_lt hbefore)).trans hbefore, hroot⟩

/-- Unregistering leaves the other handles under their own roots. -/
theorem unregister (h : Anchored k) (t : FileTree) (root : Path) :
    Anchored (k.unregister t root).2 := by
  intro key id hfind
  have herase : (k.registered.erase (normalizeRoot t root).components).find? key = some id := hfind
  rw [OrderedMap.find?_erase] at herase
  split at herase
  next => cases herase
  next => exact h key id herase

/-- Every request keeps the handles under their own roots. -/
theorem perform (h : Anchored k) {w : World} (hplaced : w.memory.Placed) (request : Request) :
    Anchored (k.perform w request).2 := by
  by_cases hregister : ∃ root, request = .register root
  · obtain ⟨root, rfl⟩ := hregister
    rcases perform_register_cases k w root with
      ⟨id, -, heq⟩ | ⟨-, ⟨e, heq, -⟩ | ⟨handle, hmakes, heq⟩⟩
    · rw [heq]
      exact h
    · rw [heq]
      exact h
    · rw [heq]
      exact h.insertHandle (StoreKind.workDir_of_locate hplaced hmakes.located)
  · have hrefreshed : Refreshed k (k.perform w request).2 :=
      Refreshed.perform k w fun root heq => hregister ⟨root, heq⟩
    by_cases hunregister : ∃ root, request = .unregister root
    · obtain ⟨root, rfl⟩ := hunregister
      exact h.unregister w.tree root
    · refine h.of_refreshed hrefreshed fun key id hfind => ?_
      rwa [registered_of_perform k w (fun root heq => hregister ⟨root, heq⟩)
        fun root heq => hunregister ⟨root, heq⟩] at hfind

/-- A handle is registered once. -/
theorem nodup_values (h : Anchored k) : k.registered.values.Nodup := by
  unfold OrderedMap.values
  refine List.Nodup.map_on ?_ (List.Nodup.of_map Prod.fst k.registered.nodup_keys)
  rintro ⟨key, id⟩ hentry ⟨key', id'⟩ hentry' (rfl : id = id')
  -- both keys are the root of the handle
  obtain ⟨handle, hhandle, hroot⟩ := h key id (OrderedMap.find?_eq_some_iff.2 hentry)
  obtain ⟨handle', hhandle', hroot'⟩ := h key' id (OrderedMap.find?_eq_some_iff.2 hentry')
  obtain rfl := Option.some.inj (hhandle.symm.trans hhandle')
  rw [← hroot, ← hroot']

/-- Every registered handle was made. -/
theorem made (h : Anchored k) :
    ∀ id ∈ k.registered.values, ∃ handle, k.handle? id = some handle := by
  intro id hid
  obtain ⟨⟨key, _⟩, hentry, rfl⟩ := List.mem_map.1 hid
  obtain ⟨handle, hhandle, -⟩ := h key _ (OrderedMap.find?_eq_some_iff.2 hentry)
  exact ⟨handle, hhandle⟩

end Anchored

end Tracker

namespace Session

/-- In every session the worktrees in memory are under their own roots, and so are the handles. -/
theorem anchored_of (stores : StoreRegistry) (settings : TrackerSettings) (bus : EventBus)
    (t : FileTree) (occurrences : List Occurrence) :
    let k := Tracker.onBus stores settings bus
    let s := Session.of k t occurrences
    s.world.memory.Placed ∧ (s.tracker k).Anchored := by
  intro k
  induction occurrences using List.reverseRecOn with
  | nil => exact ⟨MemoryStore.placed_empty, .onBus stores settings bus⟩
  | append_singleton earlier o ih =>
    obtain ⟨hplaced, hanchored⟩ := ih
    rw [Session.of, List.foldl_concat]
    change (((Session.of k t earlier).step k o).world.memory.Placed ∧
      (((Session.of k t earlier).step k o).tracker k).Anchored)
    cases o with
    | call c => exact ⟨hplaced.perform c, hanchored⟩
    | files t => exact ⟨hplaced, hanchored⟩
    | ask request =>
      constructor
      · have hread := (Session.of k t earlier).tracker k |>.worldAfter_read
          (Session.of k t earlier).world request
        intro key worktree hfind
        rw [Session.step, hread.worktrees] at hfind
        exact hplaced key worktree hfind
      · rw [Session.tracker, Session.step, Tracker.Run.of_concat]
        exact hanchored.perform hplaced request

end Session

end WorktreeTracker
