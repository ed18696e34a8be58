import Mathlib.Data.Finset.Card
import WorktreeTracker.Program
import WorktreeTracker.Proofs.Tracker.RefreshAll

/-!
# Accounts of status reports

A status report registers the listed roots, refreshes every registered root once and then takes, for
each listed root in turn, the result of its refresh. A root that is listed more than once has one
handle and one result. When its refresh succeeds, every one of its places shows the new snapshot.
When it fails, only the first place shows the failure: the others show the stale snapshot that the
root was registered with, as if it had been read. So a report accounts for every listed root as it
should exactly when no root that cannot be read is listed twice.
-/

namespace WorktreeTracker

/-! ## Reports of outcomes -/

/-- The failure in an outcome. -/
def failure? : Except TrackError Snapshot → Option TrackError
  | .ok _ => none
  | .error e => some e

/-- The status report of roots with the given outcomes: a row for each snapshot, the message of each
failure, and how many of the roots failed. -/
def statusOf (c : RunContext) (json : Bool) (outcomes : List (Except TrackError Snapshot)) :
    CommandResult :=
  let rows := (outcomes.filterMap Except.toOption).map StatusRow.ofSnapshot
  let errors := (outcomes.filterMap failure?).map TrackError.message
  { output :=
      if json then JsonText.format (.list (rows.map StatusRow.toValue)) ++ "\n"
      else if rows.isEmpty then ""
      else c.printed (Table.format (rows.map StatusRow.cells))
    errors
    failure :=
      if errors.isEmpty then none
      else some (.ofMessage s!"{errors.length} of {outcomes.length} roots could not be read") }

/-- Every outcome is a row or a failure. -/
theorem length_rows_add_failures (outcomes : List (Except TrackError Snapshot)) :
    (outcomes.filterMap Except.toOption).length + (outcomes.filterMap failure?).length =
      outcomes.length := by
  induction outcomes with
  | nil => rfl
  | cons outcome rest ih =>
    cases outcome with
    | ok s =>
      rw [List.filterMap_cons_some (rfl : (Except.ok s).toOption = some s),
        List.filterMap_cons_none (rfl : failure? (.ok s) = none), List.length_cons, List.length_cons]
      omega
    | error e =>
      rw [List.filterMap_cons_none (rfl : (Except.error e).toOption = none),
        List.filterMap_cons_some (rfl : failure? (.error e) = some e), List.length_cons,
        List.length_cons]
      omega

/-! ## Handles that are listed more than once -/

namespace Handle

/-- Whether reading the root of the handle fails. -/
def fails (w : World) (h : Handle) : Bool := (failure? (h.read w)).isSome

/-- What is reported of a handle after the handles in `seen`: what reading its root gives, but of a
failure that was reported already the stale snapshot. -/
def reported (w : World) (seen : List Handle) (h : Handle) : Except TrackError Snapshot :=
  if h.fails w ∧ h ∈ seen then .ok (.stale h.layout) else h.read w

/-- What is reported of listed handles, after those in `seen`. -/
def account (w : World) : (seen : List Handle) → List Handle → List (Except TrackError Snapshot)
  | _, [] => []
  | seen, h :: rest => h.reported w seen :: account w (h :: seen) rest

variable {w : World} {h : Handle} {seen : List Handle}

theorem length_account (seen hs : List Handle) : (account w seen hs).length = hs.length := by
  induction hs generalizing seen with
  | nil => rfl
  | cons h rest ih => rw [account, List.length_cons, List.length_cons, ih]

theorem failure?_reported :
    failure? (h.reported w seen) = if h ∈ seen then none else failure? (h.read w) := by
  by_cases hseen : h ∈ seen
  · rw [if_pos hseen, reported]
    split
    next => rfl
    next hread =>
      rw [not_and_or, or_iff_left (not_not.2 hseen), fails, Option.isSome_iff_ne_none, not_not] at hread
      exact hread
  · rw [if_neg hseen, reported, if_neg fun h => hseen h.2]

/-- What is reported does not depend on what was read before. -/
theorem account_of_read {w' : World} (hw : w.Read w') (seen hs : List Handle) :
    account w' seen hs = account w seen hs := by
  have hread (h : Handle) : h.read w' = h.read w := read_of_same rfl hw
  induction hs generalizing seen with
  | nil => rfl
  | cons h rest ih => rw [account, account, reported, reported, fails, fails, hread, ih]

/-- A handle that is listed is no new failure any more. -/
theorem filter_fails_cons (hs : List Handle) :
    (hs.toFinset.filter fun other => other.fails w = true ∧ other ∉ h :: seen) =
      (hs.toFinset.filter fun other => other.fails w = true ∧ other ∉ seen).erase h := by
  ext other
  simp only [Finset.mem_erase, Finset.mem_filter, List.mem_cons, not_or]
  exact ⟨fun ⟨hmem, hfails, hne, hseen⟩ => ⟨hne, hmem, hfails, hseen⟩,
    fun ⟨hne, hmem, hfails, hseen⟩ => ⟨hmem, hfails, hne, hseen⟩⟩

/-- Of the handles that were not seen, each one that fails is reported to fail once. -/
theorem length_failures_account (seen hs : List Handle) :
    ((account w seen hs).filterMap failure?).length =
      (hs.toFinset.filter fun h => h.fails w = true ∧ h ∉ seen).card := by
  induction hs generalizing seen with
  | nil => rfl
  | cons h rest ih =>
    have hrest := ih (h :: seen)
    rw [filter_fails_cons] at hrest
    rw [account, List.toFinset_cons, Finset.filter_insert]
    by_cases hnew : h.fails w = true ∧ h ∉ seen
    · obtain ⟨e, he⟩ := Option.isSome_iff_exists.1 hnew.1
      have hreported : failure? (h.reported w seen) = some e := by
        rw [failure?_reported, if_neg hnew.2, he]
      rw [List.filterMap_cons_some hreported, List.length_cons, hrest, if_pos hnew,
        ← Finset.erase_insert_eq_erase]
      exact Finset.card_erase_add_one (Finset.mem_insert_self _ _)
    · have hreported : failure? (h.reported w seen) = none := by
        rw [failure?_reported]
        split
        next => rfl
        next hseen =>
          exact Option.not_isSome_iff_eq_none.1 fun hfails => hnew ⟨hfails, hseen⟩
      rw [List.filterMap_cons_none hreported, hrest, if_neg hnew, Finset.erase_eq_of_notMem]
      exact fun hmem => hnew (Finset.mem_filter.1 hmem).2

/-- Without repeated failures every outcome is reported as it is. -/
theorem account_eq_map {seen hs : List Handle} (hnodup : (hs.filter (·.fails w)).Nodup)
    (hnew : ∀ h ∈ hs, h.fails w = true → h ∉ seen) :
    account w seen hs = hs.map (·.read w) := by
  induction hs generalizing seen with
  | nil => rfl
  | cons h rest ih =>
    have hreported : h.reported w seen = h.read w :=
      if_neg fun hold => hnew h List.mem_cons_self hold.1 hold.2
    have hrest : (rest.filter (·.fails w)).Nodup :=
      hnodup.sublist ((List.sublist_cons_self h rest).filter _)
    rw [account, hreported, List.map_cons, ih hrest]
    intro other hother hfails hmem
    rcases List.mem_cons.1 hmem with rfl | hseen
    · rw [List.filter_cons_of_pos hfails, List.nodup_cons] at hnodup
      exact hnodup.1 (List.mem_filter.2 ⟨hother, hfails⟩)
    · exact hnew other (List.mem_cons_of_mem _ hother) hfails hseen

/-- The outcomes of listed handles have a failure for every handle that fails, as often as it is
listed. -/
theorem length_failures_map (hs : List Handle) :
    ((hs.map (·.read w)).filterMap failure?).length = (hs.filter (·.fails w)).length := by
  rw [List.filterMap_map, ← List.countP_eq_length_filter, List.length_filterMap_eq_countP]
  rfl

/-- The report is that of the outcomes exactly when no handle that fails is listed twice. -/
theorem statusOf_account_eq_iff (c : RunContext) (json : Bool) (hs : List Handle) :
    statusOf c json (account w [] hs) = statusOf c json (hs.map (·.read w)) ↔
      (hs.filter (·.fails w)).Nodup := by
  constructor
  · intro heq
    have herrors := congrArg (List.length ∘ CommandResult.errors) heq
    simp only [Function.comp_apply, statusOf, List.length_map] at herrors
    rw [length_failures_account, length_failures_map] at herrors
    have hcard : (hs.filter (·.fails w)).dedup.length = (hs.filter (·.fails w)).length := by
      rw [← List.card_toFinset, List.toFinset_filter, ← herrors]
      simp
    exact List.dedup_eq_self.1 ((List.dedup_sublist _).eq_of_length hcard)
  · intro hnodup
    rw [account_eq_map hnodup fun _ _ _ => List.not_mem_nil]

end Handle

/-! ## Registering the listed roots -/

namespace Tracker

variable {k k' : Tracker} {w w' : World} {bus : EventBus}

/-- The tracker `k'` has the registered roots and the handles of `k`. -/
structure Extends (k k' : Tracker) : Prop where
  /-- Registered roots keep their handles. -/
  registered : ∀ key id, k.registered.find? key = some id → k'.registered.find? key = some id
  /-- The handles are the same. -/
  handles : ∀ id handle, k.handle? id = some handle → k'.handle? id = some handle

/-- The handle with the number `id` is registered, under its own root. -/
structure Holds (k : Tracker) (id : HandleId) (handle : Handle) : Prop where
  /-- The handle has the number. -/
  made : k.handle? id = some handle
  /-- The root of the handle is registered with it. -/
  registered : k.registered.find? handle.root.components = some id

theorem Extends.refl (k : Tracker) : Extends k k :=
  ⟨fun _ _ h => h, fun _ _ h => h⟩

theorem Extends.trans {k'' : Tracker} (h : Extends k k') (h' : Extends k' k'') : Extends k k'' :=
  ⟨fun _ _ hfind => h'.registered _ _ (h.registered _ _ hfind),
    fun _ _ hid => h'.handles _ _ (h.handles _ _ hid)⟩

theorem Holds.extends {id : HandleId} {handle : Handle} (h : k.Holds id handle)
    (hextends : Extends k k') : k'.Holds id handle :=
  ⟨hextends.handles _ _ h.made, hextends.registered _ _ h.registered⟩

/-- A handle has one number. -/
theorem Holds.eq {id other : HandleId} {handle otherHandle : Handle} (h : k.Holds id handle)
    (h' : k.Holds other otherHandle)
    (hroot : handle.root.components = otherHandle.root.components) :
    id = other ∧ handle = otherHandle := by
  have hfind := h'.registered
  rw [← hroot, h.registered] at hfind
  obtain rfl := Option.some.inj hfind
  exact ⟨rfl, Option.some.inj (h.made.symm.trans h'.made)⟩

theorem Extends.insertHandle (k : Tracker) (key : Path) (handle : Handle) :
    Extends k (k.insertHandle key handle).2 where
  registered _ _ hfind := find?_insertHandle_of_some hfind key handle
  handles id before hid := by
    rcases insertHandle_cases k key handle with ⟨_, -, heq⟩ | ⟨-, heq⟩ <;> rw [heq]
    · exact hid
    · exact (List.getElem?_append_left (handle?_lt hid)).trans hid

/-- What holds of a tracker in which roots were registered and none was refreshed. -/
structure Fresh (bus : EventBus) (k : Tracker) : Prop where
  /-- Every handle is registered under its own root. -/
  anchored : k.Anchored
  /-- No handle was updated. -/
  keeps : Keeps bus [] k

/-- Every handle has the stale snapshot. -/
theorem Fresh.snapshot (h : Fresh bus k) {id : HandleId} {handle : Handle}
    (hid : k.handle? id = some handle) : handle.snapshot = .stale handle.layout :=
  h.keeps.snapshot id handle hid

/-- The handle is that of a root: it has one of the names that the root is looked up under. -/
def HandleOf (t : FileTree) (root : Path) (handle : Handle) : Prop :=
  handle.root.components = keyOf t root ∨ handle.root.components = reuseKey t root

/-- A root that is registered has its handle, and the handles of other roots stay. -/
theorem Fresh.register (h : Fresh bus k) (hplaced : w.memory.Placed) {root : Path} {id : HandleId}
    (hregister : k.register w root = (.ok id, k', w')) :
    Fresh bus k' ∧ Extends k k' ∧ ∃ handle, k'.Holds id handle ∧ HandleOf w.tree root handle := by
  rcases register_cases k w root with
    ⟨found, hfound, heq⟩ | ⟨-, ⟨e, _, heq, -⟩ | ⟨handle, _, hmakes, heq⟩⟩ <;>
    cases heq.symm.trans hregister
  · obtain ⟨handle, hhandle, hroot⟩ := h.anchored _ _ hfound
    exact ⟨h, .refl k, handle, ⟨hhandle, hroot ▸ hfound⟩, .inr hroot⟩
  · have hroot : handle.root.components = keyOf w.tree root :=
      StoreKind.workDir_of_locate hplaced hmakes.located
    have hanchored := h.anchored.insertHandle hroot
    have hfind := find?_insertHandle_self k (normalizeRoot w.tree root) handle
    obtain ⟨found, hfound, hfoundRoot⟩ := hanchored _ _ hfind
    exact ⟨⟨hanchored, h.keeps.insertHandle _ hmakes.snapshot⟩, .insertHandle k _ handle, found,
      ⟨hfound, hfoundRoot ▸ hfind⟩, .inl hfoundRoot⟩

/-- Registering listed roots one after the other gives each of them its handle. -/
theorem Fresh.registerAll {roots : List Path} {ids : List HandleId} (h : Fresh bus k)
    (hplaced : w.memory.Placed) (hall : WorktreeTracker.registerAll k w roots = .ok (ids, k', w')) :
    Fresh bus k' ∧ Extends k k' ∧ w.Read w' ∧
      ∃ hs, List.Forall₂ k'.Holds ids hs ∧ List.Forall₂ (HandleOf w.tree) roots hs := by
  induction roots generalizing k w ids with
  | nil =>
    cases hall
    exact ⟨h, .refl _, .refl _, [], .nil, .nil⟩
  | cons root rest ih =>
    rw [WorktreeTracker.registerAll] at hall
    rcases hregister : k.register w root with ⟨e | id, next, w''⟩ <;> rw [hregister] at hall
    · cases hall
    · obtain ⟨⟨others, _, _⟩, hrest, heq⟩ := map_eq_ok.1 hall
      cases heq
      have hread : w.Read w'' := by
        have hworld := (worldAfter_read k w (.register root)).toRead
        rwa [worldAfter, hregister] at hworld
      have hplaced' : w''.memory.Placed := fun key worktree hfind =>
        hplaced key worktree (hread.worktrees ▸ hfind)
      obtain ⟨hnext, hextends, handle, hholds, hnamed⟩ := h.register hplaced hregister
      obtain ⟨hlast, hextends', hread', hs, hheld, hothers⟩ := ih hnext hplaced' hrest
      rw [hread.tree] at hothers
      exact ⟨hlast, hextends.trans hextends', hread.trans hread', handle :: hs,
        .cons (hholds.extends hextends') hheld, .cons hnamed hothers⟩

/-! ## Taking the results -/

/-- A refresh gives the result of reading each registered handle. -/
theorem mem_refreshAll (hanchored : k.Anchored) {root : Path} {result : Except TrackError Snapshot} :
    (root, result) ∈ (k.refreshAll w).1 ↔
      ∃ id handle, k.Holds id handle ∧ handle.root = root ∧ handle.read w = result := by
  rw [refreshAll, refreshEach_results]
  simp only [List.mem_filterMap, Option.map_eq_some_iff, Prod.mk.injEq]
  constructor
  · rintro ⟨id, hid, handle, hhandle, hroot, hread⟩
    obtain ⟨⟨key, _⟩, hentry, rfl⟩ := List.mem_map.1 hid
    have hfind := OrderedMap.find?_eq_some_iff.2 hentry
    obtain ⟨found, hfound, hkey⟩ := hanchored _ _ hfind
    obtain rfl := Option.some.inj (hhandle.symm.trans hfound)
    exact ⟨_, handle, ⟨hhandle, hkey ▸ hfind⟩, hroot, hread⟩
  · rintro ⟨id, handle, hholds, hroot, hread⟩
    have hentry := OrderedMap.find?_eq_some_iff.1 hholds.registered
    exact ⟨id, List.mem_map.2 ⟨_, hentry, rfl⟩, handle, hholds.made, hroot, hread⟩

/-- The results of a refresh by root. -/
def resultsByRoot (k : Tracker) (w : World) : OrderedMap Path.Key (Except TrackError Snapshot) :=
  .ofList ((k.refreshAll w).1.map fun (root, result) => (root.components, result))

/-- Under the root of a registered handle is the result of reading it. -/
theorem Holds.find?_resultsByRoot {id : HandleId} {handle : Handle} (h : k.Holds id handle)
    (hanchored : k.Anchored) :
    (k.resultsByRoot w).find? handle.root.components = some (handle.read w) := by
  have hlisted : (handle.root, handle.read w) ∈ (k.refreshAll w).1 :=
    (mem_refreshAll hanchored).2 ⟨id, handle, h, rfl, rfl⟩
  cases hfound : (k.resultsByRoot w).find? handle.root.components with
  | none =>
    exact absurd rfl
      (OrderedMap.find?_ofList_eq_none_iff.1 hfound _ (List.mem_map.2 ⟨_, hlisted, rfl⟩))
  | some result =>
    obtain ⟨⟨root, _⟩, hmem, heq⟩ := List.mem_map.1 (OrderedMap.mem_of_find?_ofList hfound)
    obtain ⟨hkey, rfl⟩ := Prod.mk.inj heq
    -- the result is that of a handle with the same root, which is the same handle
    obtain ⟨other, otherHandle, hother, rfl, hread⟩ := (mem_refreshAll hanchored).1 hmem
    obtain ⟨-, rfl⟩ := h.eq hother hkey.symm
    rw [← hread]

/-- A refresh of every registered root refreshes the handles. -/
theorem Holds.handle?_refreshAll {id : HandleId} {handle : Handle} (h : k.Holds id handle)
    (hanchored : k.Anchored) :
    (k.refreshAll w).2.1.handle? id = some (handle.refreshed w) := by
  have hmem : id ∈ k.registered.values :=
    List.mem_map.2 ⟨_, OrderedMap.find?_eq_some_iff.1 h.registered, rfl⟩
  rw [refreshAll, refreshEach_handle? k w hanchored.nodup_values, h.made, Option.map_some,
    if_pos hmem]

/-- Once its result is taken, the snapshot of a handle is what is reported of it. -/
theorem Fresh.reported_of_mem (h : Fresh bus k) {id : HandleId} {handle : Handle}
    (hid : k.handle? id = some handle) {seen : List Handle} (hseen : handle ∈ seen) :
    handle.reported w seen = .ok (handle.refreshed w).snapshot := by
  rw [Handle.reported, Handle.refreshed, Handle.fails]
  cases hread : handle.read w with
  | ok next => rfl
  | error e =>
    rw [if_pos ⟨rfl, hseen⟩]
    exact congrArg Except.ok (h.snapshot hid).symm

/-- The results are taken in the order of the list, each of them once. -/
theorem Fresh.assignResults (h : Fresh bus k) {ids : List HandleId} {hs : List Handle}
    (hids : List.Forall₂ k.Holds ids hs)
    {results : OrderedMap Path.Key (Except TrackError Snapshot)} {seen : List Handle}
    (hresults : ∀ id handle, k.Holds id handle → results.find? handle.root.components =
      if handle ∈ seen then none else some (handle.read w)) :
    WorktreeTracker.assignResults (k.refreshAll w).2.1 results ids =
      Handle.account w seen hs := by
  induction hids generalizing results seen with
  | nil => rfl
  | @cons id handle ids hs hholds hids ih =>
    have hroot : (handle.refreshed w).root = handle.root := rfl
    rw [WorktreeTracker.assignResults, hholds.handle?_refreshAll h.anchored, Handle.account]
    simp only [hroot, hresults id handle hholds]
    by_cases hseen : handle ∈ seen
    · -- the result was taken before
      have hmore : ∀ id' handle', k.Holds id' handle' → results.find? handle'.root.components =
          if handle' ∈ handle :: seen then none else some (handle'.read w) := by
        intro id' handle' hholds'
        have hmem : handle' ∈ handle :: seen ↔ handle' ∈ seen :=
          ⟨fun h => (List.mem_cons.1 h).elim (· ▸ hseen) fun h => h, List.mem_cons_of_mem _⟩
        simp only [hresults id' handle' hholds', hmem]
      rw [if_pos hseen, h.reported_of_mem hholds.made hseen, ih hmore]
    · have hless : ∀ id' handle', k.Holds id' handle' →
          (results.erase handle.root.components).find? handle'.root.components =
            if handle' ∈ handle :: seen then none else some (handle'.read w) := by
        intro id' handle' hholds'
        rw [OrderedMap.find?_erase]
        split
        next hsame =>
          obtain ⟨-, rfl⟩ := hholds.eq hholds' hsame.symm
          rw [if_pos List.mem_cons_self]
        next hother =>
          have hne : handle' ≠ handle := fun heq => hother (heq ▸ rfl)
          simp only [hresults id' handle' hholds', List.mem_cons, hne, false_or]
      rw [if_neg hseen, Handle.reported, if_neg fun hold => hseen hold.2, ih hless]

end Tracker

/-! ## The report -/

/-- When the listed roots register, the report is that of the results that are taken. -/
theorem runStatus_eq {c : RunContext} {w w' : World} {paths : List Path} {json : Bool}
    {ids : List HandleId} {k : Tracker}
    (hall : registerAll c.tracker w (statusRoots c paths) = .ok (ids, k, w'))
    (hlength : (assignResults (k.refreshAll w').2.1 (k.resultsByRoot w') ids).length = ids.length) :
    runStatus c w paths json =
      statusOf c json (assignResults (k.refreshAll w').2.1 (k.resultsByRoot w') ids) := by
  have hrows (outcomes : List (Except TrackError Snapshot)) :
      (outcomes.filterMap fun result => result.toOption.map StatusRow.ofSnapshot) =
        (outcomes.filterMap Except.toOption).map StatusRow.ofSnapshot :=
    List.map_filterMap.symm
  have herrors (outcomes : List (Except TrackError Snapshot)) :
      (outcomes.filterMap fun result => match result with
        | .ok _ => none
        | .error e => some e.message) = (outcomes.filterMap failure?).map TrackError.message := by
    rw [List.map_filterMap]
    refine List.filterMap_congr fun result _ => ?_
    cases result <;> rfl
  unfold runStatus statusOf
  simp only [hall, hrows, ← hlength, ← herrors]
  rfl

/-- The report of listed roots that all register accounts for the handles that they have. It has one
result for each of them, a row or a failure. The outcomes are those of the refresh, except that a
failure is reported once for each handle that fails; where that handle is listed again there is a row
with the stale snapshot instead. So it is the report of all the outcomes exactly when no handle that
fails is listed twice. -/
theorem runStatus_account (c : RunContext) (t : FileTree) (paths : List Path) (json : Bool)
    {ids : List HandleId} {k : Tracker} {w : World}
    (hall : registerAll c.tracker ⟨t, .empty⟩ (statusRoots c paths) = .ok (ids, k, w)) :
    ∃ hs : List Handle,
      List.Forall₂ k.Holds ids hs ∧ List.Forall₂ (Tracker.HandleOf t) (statusRoots c paths) hs ∧
      (∀ handle ∈ hs, (handle.root, handle.read ⟨t, .empty⟩) ∈ (k.refreshAll w).1) ∧
      let outcomes := Handle.account ⟨t, .empty⟩ [] hs
      runStatus c ⟨t, .empty⟩ paths json = statusOf c json outcomes ∧
      (outcomes.filterMap Except.toOption).length + (outcomes.filterMap failure?).length =
        (statusRoots c paths).length ∧
      (outcomes.filterMap failure?).length =
        (hs.toFinset.filter fun h => h.fails ⟨t, .empty⟩ = true).card ∧
      (runStatus c ⟨t, .empty⟩ paths json = statusOf c json (hs.map (·.read ⟨t, .empty⟩)) ↔
        (hs.filter (·.fails ⟨t, .empty⟩)).Nodup) := by
  have hstart : Tracker.Fresh (.create c.configuration.eventCapacity) c.tracker :=
    ⟨.onBus _ _ _, .run _ _ _ []⟩
  obtain ⟨hfresh, -, hread, hs, hheld, hnamed⟩ := hstart.registerAll MemoryStore.placed_empty hall
  have hassigned : assignResults (k.refreshAll w).2.1 (k.resultsByRoot w) ids =
      Handle.account ⟨t, .empty⟩ [] hs := by
    rw [← Handle.account_of_read hread]
    refine hfresh.assignResults hheld fun id handle hholds => ?_
    rw [hholds.find?_resultsByRoot hfresh.anchored, if_neg List.not_mem_nil]
  have hreport : runStatus c ⟨t, .empty⟩ paths json =
      statusOf c json (Handle.account ⟨t, .empty⟩ [] hs) := by
    rw [runStatus_eq hall (by rw [hassigned, Handle.length_account, hheld.length_eq]), hassigned]
  refine ⟨hs, hheld, hnamed, fun handle hmem => ?_, hreport, ?_, ?_, ?_⟩
  · obtain ⟨id, -, hholds⟩ := exists_of_forall₂ hheld hmem
    rw [Tracker.mem_refreshAll hfresh.anchored]
    exact ⟨id, handle, hholds, rfl, Handle.read_of_same rfl hread⟩
  · rw [length_rows_add_failures, Handle.length_account, hnamed.length_eq]
  · rw [Handle.length_failures_account]
    simp
  · rw [hreport]
    exact Handle.statusOf_account_eq_iff c json hs

/-! ## Roots listed twice -/

/-- A clone on a branch without commits, and a directory that is marked as a clone but has no
HEAD. -/
def twoRoots : FileTree where
  entries := [(["a"], .directory), (["a", ".git"], .directory),
    (["a", ".git", "HEAD"], .file "ref: refs/heads/main\n".toUTF8),
    (["b"], .directory), (["b", ".git"], .directory)]
  workingDirectory := []
  named := by decide

/-- The program with the plain reader. -/
def plainContext : RunContext where
  cwd := ⟨"/"⟩
  verbosity := .normal
  configuration := .default
  backend := .files

/-- The handle of a root that is registered and never refreshed. -/
def staleHandle (root : Path) : Handle :=
  let l : Layout := ⟨root, root / ".git", root / ".git"⟩
  ⟨l, .files, .unrestricted, .stale l⟩

/-- The handles of listed roots, with all the handles that there are in the end. -/
def listedHandles (roots : List Path) : Except Failure (List HandleId × List Handle) :=
  (registerAll plainContext.tracker ⟨twoRoots, .empty⟩ (statusRoots plainContext roots)).map
    fun x => (x.1, x.2.1.handles)

/-- A root that can be read is listed twice and one that cannot is listed once, so the report shows
all the outcomes. -/
theorem runStatus_account_twoRoots :
    listedHandles [⟨"/a"⟩, ⟨"/b"⟩, ⟨"/a"⟩] =
        .ok ([0, 1, 0], [staleHandle ⟨"/a"⟩, staleHandle ⟨"/b"⟩]) ∧
      runStatus plainContext ⟨twoRoots, .empty⟩ [⟨"/a"⟩, ⟨"/b"⟩, ⟨"/a"⟩] false =
        statusOf plainContext false
          ([staleHandle ⟨"/a"⟩, staleHandle ⟨"/b"⟩, staleHandle ⟨"/a"⟩].map
            (·.read ⟨twoRoots, .empty⟩)) := by
  have hlisted : listedHandles [⟨"/a"⟩, ⟨"/b"⟩, ⟨"/a"⟩] =
      .ok ([0, 1, 0], [staleHandle ⟨"/a"⟩, staleHandle ⟨"/b"⟩]) := by
    decide +kernel
  obtain ⟨⟨ids, k, w⟩, hall, heq⟩ := map_eq_ok.1 hlisted
  obtain ⟨rfl, hhandles⟩ := Prod.mk.inj heq
  obtain ⟨hs, hheld, -, -, -, -, -, hiff⟩ :=
    runStatus_account plainContext twoRoots [⟨"/a"⟩, ⟨"/b"⟩, ⟨"/a"⟩] false hall
  have hmade {id : HandleId} {handle : Handle} (h : k.Holds id handle) :
      [staleHandle ⟨"/a"⟩, staleHandle ⟨"/b"⟩][id]? = some handle := by
    rw [← hhandles]
    exact h.made
  obtain _ | ⟨hfirst, _ | ⟨hsecond, _ | ⟨hthird, _ | _⟩⟩⟩ := hheld
  obtain rfl := Option.some.inj (hmade hfirst)
  obtain rfl := Option.some.inj (hmade hsecond)
  obtain rfl := Option.some.inj (hmade hthird)
  exact ⟨hlisted, hiff.2 (by decide +kernel)⟩

/-- A root that cannot be read is listed twice. Its failure is reported once, and its second place
shows the stale snapshot. -/
theorem repeated_failure_shown :
    listedHandles [⟨"/b"⟩, ⟨"/b"⟩] = .ok ([0, 0], [staleHandle ⟨"/b"⟩]) ∧
      (staleHandle ⟨"/b"⟩).fails ⟨twoRoots, .empty⟩ = true ∧
      let report := runStatus plainContext ⟨twoRoots, .empty⟩ [⟨"/b"⟩, ⟨"/b"⟩] false
      report.output = "/b  primary  (detached)  (unborn)  clean\n" ∧
      report.errors = ["no current branch in /b: ref not found: HEAD"] ∧
      report.failure = some (.ofMessage "1 of 2 roots could not be read") := by
  refine ⟨?_, ?_, ?_⟩
  · decide +kernel
  · decide +kernel
  · decide +kernel

end WorktreeTracker
