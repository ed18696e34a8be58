import Mathlib.Data.List.Induction
import WorktreeTracker.Proofs.Store
import WorktreeTracker.Proofs.Tracker.Run

/-!
# What a lookup gives

The registration of a root is in force from the step that made it until the root is unregistered,
and a lookup gives the latest snapshot of its handle. A registration names its root twice: the
handle to reuse is looked up under the name of the name. The two names can differ, because a path
that leads nowhere keeps its last part as written and that part may lead somewhere on its own. A
registration answered in this way leaves its own root unregistered, and that is the only way in
which a lookup goes wrong.
-/

namespace WorktreeTracker.Tracker

/-! ## Names of a root -/

/-- What a root is registered under. -/
def keyOf (t : FileTree) (root : Path) : Path.Key := (normalizeRoot t root).components

/-- What the handle of a registered root is looked up under when the root is registered again. -/
def reuseKey (t : FileTree) (root : Path) : Path.Key := keyOf t (normalizeRoot t root)

/-! ## Registrations in force -/

/-- The handle of the registration that is in force for a key: the first one since the key was last
unregistered. -/
def registration : List Step → Path.Key → Option HandleId
  | [], _ => none
  | ⟨w, .register root, .registered id⟩ :: earlier, key =>
    if keyOf w.tree root = key then (registration earlier key).or (some id)
    else registration earlier key
  | ⟨w, .unregister root, _⟩ :: earlier, key =>
    if keyOf w.tree root = key then none else registration earlier key
  | _ :: earlier, key => registration earlier key

/-- No registration of an unregistered root was answered with the handle of another root. -/
def Direct : List Step → Prop
  | [] => True
  | step :: earlier =>
    (∀ root, step.request = .register root →
      registration earlier (reuseKey step.world.tree root) ≠ none →
        registration earlier (keyOf step.world.tree root) ≠ none) ∧
      Direct earlier

/-- The registered roots are those with a registration in force, under the handle it gave. -/
def Run.Registered (r : Run) : Prop :=
  ∀ key, r.tracker.registered.find? key = registration r.past key

/-- A lookup of any root, in any state of the files, is refused when no registration of the root is
in force, and otherwise gives the snapshot of the latest successful update of its handle, or the
stale one. -/
def Run.LooksUp (r : Run) : Prop :=
  ∀ (t : FileTree) (root : Path),
    match registration r.past (keyOf t root) with
    | none => r.tracker.lookup t root = .error (.notRegistered root)
    | some id => ∃ handle, r.tracker.handle? id = some handle ∧
        r.tracker.lookup t root = .ok ((latest? r.updates id).getD (.stale handle.layout))

/-! ## What changes the registration in force -/

theorem registration_register (w : World) (root : Path) (id : HandleId) (earlier : List Step)
    (key : Path.Key) :
    registration (⟨w, .register root, .registered id⟩ :: earlier) key =
      if keyOf w.tree root = key then (registration earlier key).or (some id)
      else registration earlier key := by
  rw [registration]

theorem registration_unregister (w : World) (root : Path) (answer : Answer) (earlier : List Step)
    (key : Path.Key) :
    registration (⟨w, .unregister root, answer⟩ :: earlier) key =
      if keyOf w.tree root = key then none else registration earlier key := by
  rw [registration]

/-- Registrations that fail and requests of another kind leave the registrations in force alone. -/
theorem registration_of_ne {step : Step} (earlier : List Step) (key : Path.Key)
    (hregister : ∀ root id, step.request = .register root → step.answer ≠ .registered id)
    (hunregister : ∀ root, step.request ≠ .unregister root) :
    registration (step :: earlier) key = registration earlier key := by
  rw [registration]
  · rintro w root id rfl
    exact hregister root id rfl rfl
  · rintro w root answer rfl
    exact hunregister root rfl

/-! ## One registration -/

/-- What inserting a handle does: it gives the handle that is there, or it adds the new one. -/
theorem insertHandle_cases (k : Tracker) (key : Path) (handle : Handle) :
    (∃ id, k.registered.find? key.components = some id ∧ k.insertHandle key handle = (id, k)) ∨
      k.registered.find? key.components = none ∧
        k.insertHandle key handle = (k.handles.length,
          { k with
            registered := k.registered.insert key.components k.handles.length
            handles := k.handles ++ [handle] }) := by
  unfold insertHandle
  cases hfind : k.registered.find? key.components with
  | some id => exact .inl ⟨id, rfl, rfl⟩
  | none => exact .inr ⟨rfl, rfl⟩

/-- A handle that is registered under a name stays there when a handle is put in place. -/
theorem find?_insertHandle_of_some {k : Tracker} {key : Path.Key} {id : HandleId}
    (h : k.registered.find? key = some id) (name : Path) (handle : Handle) :
    (k.insertHandle name handle).2.registered.find? key = some id := by
  rcases insertHandle_cases k name handle with ⟨other, -, heq⟩ | ⟨hnone, heq⟩
  · rw [heq]
    exact h
  · rw [heq]
    refine (OrderedMap.find?_insert ..).trans ?_
    rw [if_neg, h]
    rintro rfl
    cases hnone.symm.trans h

/-- The handle that putting one in place gives is registered. -/
theorem find?_insertHandle_self (k : Tracker) (name : Path) (handle : Handle) :
    (k.insertHandle name handle).2.registered.find? name.components =
      some (k.insertHandle name handle).1 := by
  rcases insertHandle_cases k name handle with ⟨other, hother, heq⟩ | ⟨-, heq⟩
  · rw [heq]
    exact hother
  · rw [heq]
    exact (OrderedMap.find?_insert ..).trans (if_pos rfl)

/-- The store that a root is read through when the settings of its repository are the given ones. -/
def storeFor (backend : StoreKind) (settings : Option RepositorySettings) : StoreKind :=
  ((settings.getD .empty).backend.bind StoreKind.ofName?).getD backend

/-- A handle is made of the settings of the repository as they are read when it is made. -/
theorem makeHandle_eq_ok {k : Tracker} {t : FileTree} {l : Layout} {handle : Handle} :
    k.makeHandle t l = .ok handle ↔
      ∃ settings, RepositorySettings.load t l.trackerSettings = .ok settings ∧
        (storeFor k.settings.backend settings = k.settings.backend ∨
          k.stores.has (storeFor k.settings.backend settings) = true) ∧
        handle = ⟨l, storeFor k.settings.backend settings, ⟨(settings.getD .empty).remotes⟩,
          .stale l⟩ := by
  unfold makeHandle
  rw [bind_eq_ok]
  refine exists_congr fun settings => and_congr mapError_eq_ok ?_
  dsimp only
  unfold storeFor
  generalize (settings.getD .empty).backend.bind StoreKind.ofName? = chosen
  -- whichever way the store is chosen, the handle is made of it in the same way
  have hmade (store : StoreKind) :
      (Except.ok ⟨l, store, ⟨(settings.getD .empty).remotes⟩, .stale l⟩ :
          Except TrackError Handle) = .ok handle ↔
        handle = ⟨l, store, ⟨(settings.getD .empty).remotes⟩, .stale l⟩ :=
    ⟨fun h => (Except.ok.inj h).symm, fun h => congrArg Except.ok h.symm⟩
  cases chosen with
  | none =>
    rw [Option.getD_none, and_iff_right (.inl rfl)]
    exact hmade _
  | some kind =>
    rw [Option.getD_some]
    dsimp only
    by_cases hsame : kind = k.settings.backend
    · rw [if_pos hsame, or_iff_left_of_imp fun _ => hsame, and_iff_right hsame]
      exact hmade kind
    · rw [if_neg hsame, or_iff_right hsame, requireStore]
      by_cases hhas : k.stores.has kind = true
      · rw [if_pos hhas, and_iff_right hhas]
        exact hmade kind
      · rw [if_neg hhas]
        constructor
        · intro h
          cases h
        · rintro ⟨hkind, -⟩
          exact absurd hkind hhas

/-- A registration of a root makes a handle: the store of the tracker locates the root, and the
settings of the repository choose the rest. -/
structure Makes (k : Tracker) (w : World) (root : Path) (handle : Handle) : Prop where
  /-- The directories are those that the store locates. -/
  located : (k.settings.backend.locate w (normalizeRoot w.tree root)).1 = .ok handle.layout
  /-- The handle is made of these directories. -/
  made : k.makeHandle w.tree handle.layout = .ok handle

/-- A new handle has the stale snapshot. -/
theorem Makes.snapshot {k : Tracker} {w : World} {root : Path} {handle : Handle}
    (h : k.Makes w root handle) : handle.snapshot = .stale handle.layout := by
  obtain ⟨settings, -, -, heq⟩ := makeHandle_eq_ok.1 h.made
  rw [heq]

/-- What a registration does: it gives the handle found under the name of the name, it fails and
changes nothing, or it inserts the handle that it makes. -/
theorem register_cases (k : Tracker) (w : World) (root : Path) :
    (∃ id, k.registered.find? (reuseKey w.tree root) = some id ∧
        k.register w root = (.ok id, k, w)) ∨
      k.registered.find? (reuseKey w.tree root) = none ∧
        ((∃ e w', k.register w root = (.error e, k, w') ∧
            ¬ (k.stores.has k.settings.backend = true ∧ ∃ handle, k.Makes w root handle)) ∨
          ∃ handle w', k.Makes w root handle ∧
            k.register w root =
              (.ok (k.insertHandle (normalizeRoot w.tree root) handle).1,
                (k.insertHandle (normalizeRoot w.tree root) handle).2, w')) := by
  unfold register
  cases hfind : k.find? w.tree (normalizeRoot w.tree root) with
  | some id =>
    refine .inl ⟨id, hfind, ?_⟩
    simp only [hfind]
  | none =>
    refine .inr ⟨hfind, ?_⟩
    simp only [hfind, requireStore]
    cases hstore : k.stores.has k.settings.backend with
    | false => exact .inl ⟨_, w, rfl, fun h => Bool.false_ne_true h.1⟩
    | true =>
      simp only [if_true]
      have htree := (k.settings.backend.locate_read w (normalizeRoot w.tree root)).tree
      rcases hlocate : k.settings.backend.locate w (normalizeRoot w.tree root) with ⟨e | l, w'⟩
      · refine .inl ⟨_, w', rfl, ?_⟩
        rintro ⟨-, handle, hlocated, -⟩
        rw [hlocate] at hlocated
        cases hlocated
      · rw [hlocate] at htree
        cases hmake : k.makeHandle w'.tree l with
        | error e =>
          refine .inl ⟨e, w', by simp only [hmake], ?_⟩
          rintro ⟨-, handle, hlocated, hmade⟩
          rw [hlocate] at hlocated
          obtain rfl := Except.ok.inj hlocated
          rw [← htree, hmake] at hmade
          cases hmade
        | ok handle =>
          obtain ⟨settings, -, -, hlayout⟩ := makeHandle_eq_ok.1 hmake
          obtain rfl : l = handle.layout := by rw [hlayout]
          refine .inr ⟨handle, w', ⟨congrArg Prod.fst hlocate, ?_⟩, by simp only [hmake]⟩
          rw [← htree]
          exact hmake

/-! ## One step -/

variable {bus : EventBus} {updates : List Update} {k : Tracker}

/-- Inserting a handle with the stale snapshot keeps what holds after the updates so far. -/
theorem Keeps.insertHandle (hk : Keeps bus updates k) (key : Path) {handle : Handle}
    (hstale : handle.snapshot = .stale handle.layout) :
    Keeps bus updates (k.insertHandle key handle).2 := by
  rcases insertHandle_cases k key handle with ⟨id, -, heq⟩ | ⟨-, heq⟩
  · rw [heq]
    exact hk
  · rw [heq]
    constructor
    case made =>
      intro other id hfind
      rw [List.length_append, List.length_singleton]
      rw [OrderedMap.find?_insert] at hfind
      split at hfind
      · obtain rfl := Option.some.inj hfind
        exact Nat.lt_succ_self _
      · exact Nat.lt_succ_of_lt (hk.made other id hfind)
    case updated =>
      intro u hu
      rw [List.length_append, List.length_singleton]
      exact Nat.lt_succ_of_lt (hk.updated u hu)
    case snapshot =>
      intro id found hfound
      -- an older handle, the new one, or a number that was not given out
      rcases Nat.lt_trichotomy id k.handles.length with hlt | rfl | hgt
      · refine hk.snapshot id found ?_
        rw [← hfound]
        exact (List.getElem?_append_left hlt).symm
      · have hnew : handle = found := by
          simpa [handle?] using hfound
        subst hnew
        rw [latest?_eq_none fun u hu => Nat.ne_of_lt (hk.updated u hu)]
        exact hstale
      · have hlt := handle?_lt hfound
        rw [List.length_append, List.length_singleton] at hlt
        exact absurd hgt (Nat.not_lt.2 (Nat.le_of_lt_succ hlt))
    case read => exact hk.read
    case bus => exact hk.bus

/-- The handle of a root that is found has a number that was given out. -/
theorem require_eq {t : FileTree} {root : Path} {id : HandleId} {handle : Handle}
    (h : k.require t root = .ok (id, handle)) :
    k.registered.find? (keyOf t root) = some id ∧ k.handle? id = some handle := by
  unfold require at h
  split at h
  next found hfound =>
    obtain rfl := Except.ok.inj h
    obtain ⟨found, hfind, hpair⟩ := Option.bind_eq_some_iff.1 hfound
    obtain ⟨_, hhandle, heq⟩ := Option.map_eq_some_iff.1 hpair
    obtain ⟨rfl, rfl⟩ := Prod.mk.inj heq
    exact ⟨hfind, hhandle⟩
  next => cases h

/-- What a request to register does. -/
theorem perform_register_cases (k : Tracker) (w : World) (root : Path) :
    (∃ id, k.registered.find? (reuseKey w.tree root) = some id ∧
        k.perform w (.register root) = (.registered id, k)) ∨
      k.registered.find? (reuseKey w.tree root) = none ∧
        ((∃ e, k.perform w (.register root) = (.refused e, k) ∧
            ¬ (k.stores.has k.settings.backend = true ∧ ∃ handle, k.Makes w root handle)) ∨
          ∃ handle, k.Makes w root handle ∧
            k.perform w (.register root) =
              (.registered (k.insertHandle (normalizeRoot w.tree root) handle).1,
                (k.insertHandle (normalizeRoot w.tree root) handle).2)) := by
  unfold perform
  rcases register_cases k w root with
    ⟨id, hfind, heq⟩ | ⟨hfind, ⟨e, w', heq, hnone⟩ | ⟨handle, w', hmakes, heq⟩⟩
  · exact .inl ⟨id, hfind, by simp only [heq]⟩
  · exact .inr ⟨hfind, .inl ⟨e, by simp only [heq], hnone⟩⟩
  · exact .inr ⟨hfind, .inr ⟨handle, hmakes, by simp only [heq]⟩⟩

/-- Every request keeps what holds after the updates so far, with those it makes. -/
theorem Keeps.perform (hk : Keeps bus updates k) (w : World) (request : Request) :
    Keeps bus ((k.perform w request).1.updates.reverse ++ updates) (k.perform w request).2 := by
  cases request with
  | register root =>
    rcases perform_register_cases k w root with
      ⟨id, -, heq⟩ | ⟨-, ⟨e, heq, -⟩ | ⟨handle, hmakes, heq⟩⟩
    · rw [heq]
      exact hk
    · rw [heq]
      exact hk
    · rw [heq]
      exact hk.insertHandle _ hmakes.snapshot
  | unregister root =>
    refine ⟨?_, hk.updated, hk.snapshot, hk.read, hk.bus⟩
    intro key id hfind
    change (k.registered.erase (keyOf w.tree root)).find? key = some id at hfind
    by_cases hkey : key = keyOf w.tree root
    · rw [hkey, OrderedMap.find?_erase_self] at hfind
      cases hfind
    · rw [OrderedMap.find?_erase_of_ne _ hkey] at hfind
      exact hk.made key id hfind
  | refresh root =>
    cases hrequire : k.require w.tree root with
    | error e =>
      rw [perform_refresh_of_error hrequire]
      exact hk
    | ok found =>
      rw [perform_refresh_of_ok hrequire]
      exact hk.update w (require_eq hrequire).2
  | refreshAll =>
    refine hk.refreshEach w k.registered.values fun id hid => ?_
    obtain ⟨⟨key, _⟩, hentry, rfl⟩ := List.mem_map.1 hid
    exact hk.made key _ (OrderedMap.find?_eq_some_iff.2 hentry)
  | lookup root =>
    obtain ⟨hupdates, hsame⟩ := perform_lookup k w root
    rw [hupdates, hsame]
    exact hk
  | update id =>
    cases hhandle : k.handle? id with
    | none =>
      rw [perform_update_of_none hhandle]
      exact hk
    | some handle =>
      rw [perform_update_of_some hhandle]
      exact hk.update w hhandle

/-- A request that fails leaves the tracker as it is. -/
theorem perform_of_failed (k : Tracker) (w : World) (request : Request)
    (h : (k.perform w request).1.Failed) : (k.perform w request).2 = k := by
  have one (id : HandleId) (handle : Handle)
      (h : (k.updateHandle w id handle).1.toOption = none) :
      (k.updateHandle w id handle).2.1 = k := by
    rcases updateHandle_cases k w id handle with ⟨e, w', heq⟩ | ⟨next, w', -, heq⟩
    · rw [heq]
    · rw [heq] at h
      cases h
  cases request with
  | register root =>
    rcases perform_register_cases k w root with
      ⟨id, -, heq⟩ | ⟨-, ⟨e, heq, -⟩ | ⟨handle, -, heq⟩⟩
    · rw [heq]
    · rw [heq]
    · rw [heq] at h
      exact h.elim
  | unregister root => exact h.elim
  | refresh root =>
    cases hrequire : k.require w.tree root with
    | error e => rw [perform_refresh_of_error hrequire]
    | ok found =>
      rw [perform_refresh_of_ok hrequire] at h ⊢
      exact one found.1 found.2 (h _ List.mem_cons_self)
  | refreshAll =>
    refine refreshEach_of_failed fun result hresult => ?_
    rw [← map_pairResults (refreshEach_length_le k w k.registered.values)] at hresult
    obtain ⟨u, hu, rfl⟩ := List.mem_map.1 hresult
    exact h u hu
  | lookup root => exact (perform_lookup k w root).2
  | update id =>
    cases hhandle : k.handle? id with
    | none => rw [perform_update_of_none hhandle]
    | some handle =>
      rw [perform_update_of_some hhandle] at h ⊢
      exact one id handle (h _ List.mem_cons_self)

/-- Only registering and unregistering change which roots are registered. -/
theorem registered_of_perform (k : Tracker) (w : World) {request : Request}
    (hregister : ∀ root, request ≠ .register root)
    (hunregister : ∀ root, request ≠ .unregister root) :
    (k.perform w request).2.registered = k.registered := by
  cases request with
  | register root => exact absurd rfl (hregister root)
  | unregister root => exact absurd rfl (hunregister root)
  | refresh root =>
    cases hrequire : k.require w.tree root with
    | error e => rw [perform_refresh_of_error hrequire]
    | ok found =>
      rw [perform_refresh_of_ok hrequire]
      exact (updateHandle_frame k w found.1 found.2).1
  | refreshAll => exact (refreshEach_frame k w k.registered.values).1
  | lookup root => rw [(perform_lookup k w root).2]
  | update id =>
    cases hhandle : k.handle? id with
    | none => rw [perform_update_of_none hhandle]
    | some handle =>
      rw [perform_update_of_some hhandle]
      exact (updateHandle_frame k w id handle).1

/-! ## Runs -/

/-- A tracker without roots that publishes on the given bus. -/
def onBus (stores : StoreRegistry) (settings : TrackerSettings) (bus : EventBus) : Tracker :=
  ⟨stores, settings, .empty, [], bus⟩

variable (stores : StoreRegistry) (settings : TrackerSettings) (bus : EventBus)

/-- What holds after the updates of a run. -/
theorem Keeps.run (asked : List (World × Request)) :
    Keeps bus (Run.of (onBus stores settings bus) asked).updates
      (Run.of (onBus stores settings bus) asked).tracker := by
  induction asked using List.reverseRecOn with
  | nil =>
    constructor
    case made =>
      intro key id hfind
      cases hfind
    case updated =>
      intro u hu
      cases hu
    case snapshot =>
      intro id handle hhandle
      cases hhandle
    case read =>
      intro u hu
      cases hu
    case bus => rfl
  | append_singleton asked a ih =>
    rw [Run.of_concat, Run.updates_ask]
    exact ih.perform a.1 a.2

/-- Whoever subscribes before a run is handed the events of its updates, each once and in order, when
there is room for them. -/
theorem received_of_run {log : List RepositoryChanged} (hlog : bus.Logs log)
    (asked : List (World × Request)) :
    let run := Run.of (onBus stores settings bus.subscribe.2) asked
    (published run.updates).length ≤ bus.capacity →
      (run.tracker.bus.drain bus.subscribe.1).1 = (published run.updates).map .event := by
  intro run hroom
  rw [(Keeps.run stores settings bus.subscribe.2 asked).bus]
  exact hlog.drain_subscribe hroom

/-! ## Registered roots -/

/-- A direct registration keeps the registered roots to those with a registration in force. -/
theorem Run.Registered.register {r : Run} (h : r.Registered) (w : World) (root : Path)
    (hdirect : registration r.past (reuseKey w.tree root) ≠ none →
      registration r.past (keyOf w.tree root) ≠ none) :
    (r.ask w (.register root)).Registered := by
  intro key
  simp only [Run.ask]
  rcases perform_register_cases r.tracker w root with
    ⟨id, hfind, heq⟩ | ⟨-, ⟨e, heq, -⟩ | ⟨handle, -, heq⟩⟩
  · -- the handle is one that is there: the root itself is registered, since the step is direct
    have hreuse : registration r.past (reuseKey w.tree root) ≠ none := by
      rw [← h, hfind]
      simp
    obtain ⟨own, hown⟩ := Option.ne_none_iff_exists'.1 (hdirect hreuse)
    rw [heq, registration_register, h]
    split
    next hkey => rw [← hkey, hown, Option.some_or]
    next => rfl
  · -- nothing was registered
    rw [heq, registration_of_ne _ _ (by simp) (by simp), h]
  · rcases insertHandle_cases r.tracker (normalizeRoot w.tree root) handle with
      ⟨id, hfind, hinsert⟩ | ⟨hfind, hinsert⟩
    · -- the root is registered under its own name, so its handle stays the one in force
      rw [heq, hinsert, registration_register, h]
      split
      next hkey =>
        have hown : registration r.past key = some id := by
          rw [← h, ← hkey]
          exact hfind
        rw [hown, Option.some_or]
      next => rfl
    · -- the root is new, and so is the handle in force for it
      rw [heq, hinsert, registration_register, ← h]
      show (r.tracker.registered.insert (keyOf w.tree root) _).find? key = _
      by_cases hkey : key = keyOf w.tree root
      · have hnone : r.tracker.registered.find? key = none := by
          rw [hkey]
          exact hfind
        rw [hnone, OrderedMap.find?_insert, if_pos hkey, if_pos hkey.symm, Option.none_or]
      · rw [OrderedMap.find?_insert, if_neg hkey, if_neg (Ne.symm hkey)]

/-- So does unregistering a root. -/
theorem Run.Registered.unregister {r : Run} (h : r.Registered) (w : World) (root : Path) :
    (r.ask w (.unregister root)).Registered := by
  intro key
  simp only [Run.ask, registration_unregister]
  show (r.tracker.registered.erase (keyOf w.tree root)).find? key = _
  split
  next hkey => rw [← hkey, OrderedMap.find?_erase_self]
  next hkey => rw [OrderedMap.find?_erase_of_ne _ (Ne.symm hkey), h]

/-- So does every request of another kind. -/
theorem Run.Registered.other {r : Run} (h : r.Registered) (w : World) {request : Request}
    (hregister : ∀ root, request ≠ .register root)
    (hunregister : ∀ root, request ≠ .unregister root) : (r.ask w request).Registered := by
  intro key
  simp only [Run.ask]
  rw [registered_of_perform r.tracker w hregister hunregister, h,
    registration_of_ne _ _ (fun root id heq => absurd heq (hregister root)) hunregister]

/-- While every registration is direct, the registered roots are those with a registration in
force. -/
theorem registered_of_direct (asked : List (World × Request))
    (h : Direct (Run.of (onBus stores settings bus) asked).past) :
    (Run.of (onBus stores settings bus) asked).Registered := by
  induction asked using List.reverseRecOn with
  | nil =>
    intro key
    rfl
  | append_singleton asked a ih =>
    obtain ⟨w, request⟩ := a
    rw [Run.of_concat] at h ⊢
    obtain ⟨hstep, hearlier⟩ := h
    have hregistered := ih hearlier
    cases request with
    | register root => exact hregistered.register w root (hstep root rfl)
    | unregister root => exact hregistered.unregister w root
    | _ => exact hregistered.other w (by simp) (by simp)

/-! ## Lookups -/

/-- Where the registered roots are those with a registration in force, lookups go right. -/
theorem Run.Registered.looksUp {r : Run} (h : r.Registered)
    (hk : Keeps bus r.updates r.tracker) : r.LooksUp := by
  intro t root
  have hfind : r.tracker.find? t root = registration r.past (keyOf t root) := h _
  cases hreg : registration r.past (keyOf t root) with
  | none => simp only [lookup, require, hfind, hreg, Option.bind_none, Except.map]
  | some id =>
    rw [hreg] at hfind
    obtain ⟨handle, hhandle⟩ : ∃ handle, r.tracker.handle? id = some handle :=
      ⟨_, List.getElem?_eq_getElem (hk.made _ id hfind)⟩
    refine ⟨handle, hhandle, ?_⟩
    simp only [lookup, require, hfind, hhandle, Option.bind_some, Option.map_some, Except.map]
    rw [hk.snapshot id handle hhandle]

/-- Where lookups go right, a root with a registration in force is found. -/
theorem Run.LooksUp.find?_ne_none {r : Run} (h : r.LooksUp) (t : FileTree) (root : Path)
    (hreg : registration r.past (keyOf t root) ≠ none) : r.tracker.find? t root ≠ none := by
  intro hnone
  have hlookup := h t root
  obtain ⟨id, hid⟩ := Option.ne_none_iff_exists'.1 hreg
  rw [hid] at hlookup
  obtain ⟨handle, -, hlookup⟩ := hlookup
  simp only [lookup, require, hnone, Option.bind_none, Except.map] at hlookup
  cases hlookup

/-- A registration after which lookups go right is direct. -/
theorem Run.Registered.direct {r : Run} (h : r.Registered) {w : World} {root : Path}
    (hafter : (r.ask w (.register root)).LooksUp)
    (hreuse : registration r.past (reuseKey w.tree root) ≠ none) :
    registration r.past (keyOf w.tree root) ≠ none := by
  intro hown
  rcases perform_register_cases r.tracker w root with ⟨id, -, heq⟩ | ⟨hnone, -⟩
  · -- the handle is reused, so the registrations stay as they are and the root is not found
    simp only [Run.ask, heq] at hafter
    refine hafter.find?_ne_none w.tree root ?_ ?_
    · rw [registration_register, if_pos rfl, hown]
      simp
    · exact (h _).trans hown
  · exact hreuse ((h _).symm.trans hnone)

theorem Direct.of_append {newer earlier : List Step} (h : Direct (newer ++ earlier)) :
    Direct earlier := by
  induction newer with
  | nil => exact h
  | cons step newer ih => exact ih h.2

/-- The steps of a run start with those of a run in which less was asked. -/
theorem Run.past_append (k : Tracker) (asked later : List (World × Request)) :
    ∃ newer, (Run.of k (asked ++ later)).past = newer ++ (Run.of k asked).past := by
  induction later using List.reverseRecOn with
  | nil => exact ⟨[], by rw [List.append_nil, List.nil_append]⟩
  | append_singleton later a ih =>
    obtain ⟨newer, hnewer⟩ := ih
    obtain ⟨w, request⟩ := a
    rw [← List.append_assoc, Run.of_concat, Run.ask, hnewer]
    exact ⟨_ :: newer, rfl⟩

/-- Lookups go right all through a run exactly when every registration in it is direct. -/
theorem looksUp_iff_direct (asked : List (World × Request)) :
    (∀ earlier, earlier <+: asked → (Run.of (onBus stores settings bus) earlier).LooksUp) ↔
      Direct (Run.of (onBus stores settings bus) asked).past := by
  constructor
  · intro h
    induction asked using List.reverseRecOn with
    | nil => trivial
    | append_singleton asked a ih =>
      obtain ⟨w, request⟩ := a
      have hafter := h _ (List.prefix_refl _)
      have hearlier := ih fun earlier hstart => h earlier (hstart.trans (List.prefix_append _ _))
      have hregistered := registered_of_direct stores settings bus asked hearlier
      rw [Run.of_concat] at hafter ⊢
      refine ⟨?_, hearlier⟩
      rintro root rfl
      exact hregistered.direct hafter
  · rintro h earlier ⟨later, rfl⟩
    obtain ⟨newer, hnewer⟩ := Run.past_append (onBus stores settings bus) earlier later
    rw [hnewer] at h
    have hregistered := registered_of_direct stores settings bus earlier h.of_append
    exact hregistered.looksUp bus (Keeps.run stores settings bus earlier)

/-- What is known after every run. Lookups go right all through it exactly when every registration
is direct. A request that fails changes nothing. Every handle that was ever made has the snapshot of
its latest successful update, or the stale one, and the bus has got one event for each successful
update, in order, with the root and the snapshot of the update. -/
theorem run_account (asked : List (World × Request)) :
    let run := Run.of (onBus stores settings bus)
    ((∀ earlier, earlier <+: asked → (run earlier).LooksUp) ↔ Direct (run asked).past) ∧
      (∀ w request, ((run asked).tracker.perform w request).1.Failed →
        ((run asked).tracker.perform w request).2 = (run asked).tracker) ∧
      (∀ id handle, (run asked).tracker.handle? id = some handle →
        handle.snapshot = (latest? (run asked).updates id).getD (.stale handle.layout)) ∧
      (run asked).tracker.bus = bus.publishAll (published (run asked).updates) ∧
      (published (run asked).updates).map (fun e => (e.root, e.state)) =
        (run asked).updates.reverse.filterMap Update.success? := by
  intro run
  have hkeeps := Keeps.run stores settings bus asked
  refine ⟨looksUp_iff_direct stores settings bus asked, ?_, hkeeps.snapshot, hkeeps.bus, ?_⟩
  · intro w request hfailed
    exact perform_of_failed _ w request hfailed
  · exact published_map _

/-! ## A registration that is not direct

A clone and a link to it. When the clone makes way for a file, the link with a slash after it leads
nowhere, so it is named after the link itself, and that name leads to where the clone was.
-/

/-- A clone and a link to it. -/
def linkedClone : FileTree where
  entries := [(["a"], .directory), (["a", ".git"], .directory), (["l"], .link "a")]
  workingDirectory := []
  named := by decide

/-- The same link, to a file. -/
def linkedFile : FileTree where
  entries := [(["a"], .file .empty), (["l"], .link "a")]
  workingDirectory := []
  named := by decide

/-- The run in which the clone is registered, and then the link to the file. -/
def reuseRun : Run :=
  .of (create .standard ⟨.files, 64⟩)
    [(⟨linkedClone, .empty⟩, .register ⟨"/a"⟩), (⟨linkedFile, .empty⟩, .register ⟨"/l/"⟩)]

/-- The link is registered, and yet a lookup of it is refused. -/
theorem registered_root_refused :
    reuseRun.past.head?.map Step.answer = some (.registered 0) ∧
      registration reuseRun.past (keyOf linkedFile ⟨"/l/"⟩) = some 0 ∧
      reuseRun.tracker.lookup linkedFile ⟨"/l/"⟩ = .error (.notRegistered ⟨"/l/"⟩) := by
  refine ⟨rfl, ?_, ?_⟩
  · decide +kernel
  · decide +kernel

end WorktreeTracker.Tracker
