import WorktreeTracker.Proofs.Tracker.Anchored
import WorktreeTracker.Proofs.Tracker.RegistrationRace

/-!
# The root that contains a path most closely

Roots that contain one path contain each other, so among the registered ones there is one that every
other one contains, and it is the only one. It is found by its length, whatever the order in which the
roots are tried, because a key is registered once. What is found depends on the registered keys alone,
and not on how they came there.
-/

namespace WorktreeTracker.Tracker

/-! ## The longest of some keys -/

/-- Among `roots`, the one that contains a path and that every other one that contains it contains. -/
def IsDeepest (roots : List Path.Key) (path root : Path.Key) : Prop :=
  (root ∈ roots ∧ root <+: path) ∧ ∀ other ∈ roots, other <+: path → other <+: root

/-- There is one such root only. -/
theorem IsDeepest.unique {roots : List Path.Key} {path root other : Path.Key}
    (h : IsDeepest roots path root) (hother : IsDeepest roots path other) : root = other :=
  (hother.2 root h.1.1 h.1.2).eq_of_length_le (h.2 other hother.1.1 hother.1.2).length_le

variable {α : Type}

/-- The entry with the longer key, the newer one when they are equally long. -/
def longer (best : Option (Path.Key × α)) (entry : Path.Key × α) : Option (Path.Key × α) :=
  match best with
  | some b => if b.1.length ≤ entry.1.length then some entry else some b
  | none => some entry

/-- The entry with the longest key. -/
def longest (entries : List (Path.Key × α)) : Option (Path.Key × α) := entries.foldl longer none

theorem longest_concat (entries : List (Path.Key × α)) (entry : Path.Key × α) :
    longest (entries ++ [entry]) = longer (longest entries) entry :=
  List.foldl_concat ..

/-- There is a longest entry when there is any, it is one of them, and none is longer. -/
theorem longest_cases (entries : List (Path.Key × α)) :
    (entries = [] ∧ longest entries = none) ∨
      ∃ best ∈ entries, longest entries = some best ∧ ∀ e ∈ entries, e.1.length ≤ best.1.length := by
  induction entries using List.reverseRecOn with
  | nil => exact .inl ⟨rfl, rfl⟩
  | append_singleton entries entry ih =>
    refine .inr ?_
    rw [longest_concat]
    rcases ih with ⟨rfl, hnone⟩ | ⟨best, hbest, hsome, hmax⟩
    · rw [hnone]
      exact ⟨entry, by simp, rfl, by simp⟩
    · rw [hsome, longer]
      split
      next hle =>
        refine ⟨entry, by simp, rfl, fun e he => ?_⟩
        rcases List.mem_append.1 he with he | he
        · exact (hmax e he).trans hle
        · rw [List.mem_singleton.1 he]
      next hlt =>
        refine ⟨best, List.mem_append_left _ hbest, rfl, fun e he => ?_⟩
        rcases List.mem_append.1 he with he | he
        · exact hmax e he
        · rw [List.mem_singleton.1 he]
          omega

/-- The entry whose key contains a path most closely. -/
def deepest (entries : List (Path.Key × α)) (path : Path.Key) : Option (Path.Key × α) :=
  longest (entries.filter fun entry => entry.1.isPrefixOf path)

/-- The entries whose keys contain a path. -/
theorem mem_filter_containing {entries : List (Path.Key × α)} {path : Path.Key}
    {e : Path.Key × α} :
    e ∈ entries.filter (fun entry => entry.1.isPrefixOf path) ↔ e ∈ entries ∧ e.1 <+: path := by
  rw [List.mem_filter, List.isPrefixOf_iff_prefix]

/-- An entry is found when any key contains the path. -/
theorem isSome_deepest_iff {entries : List (Path.Key × α)} {path : Path.Key} :
    (deepest entries path).isSome = true ↔ ∃ root ∈ entries.map Prod.fst, root <+: path := by
  rw [deepest]
  rcases longest_cases (entries.filter fun entry => entry.1.isPrefixOf path) with
    ⟨hnil, hnone⟩ | ⟨best, hbest, hsome, -⟩
  · rw [hnone]
    refine iff_of_false Bool.false_ne_true ?_
    rintro ⟨root, hroot, hprefix⟩
    obtain ⟨e, he, rfl⟩ := List.mem_map.1 hroot
    exact List.ne_nil_of_mem (mem_filter_containing.2 ⟨he, hprefix⟩) hnil
  · rw [hsome]
    obtain ⟨hmem, hprefix⟩ := mem_filter_containing.1 hbest
    exact iff_of_true rfl ⟨best.1, List.mem_map_of_mem hmem, hprefix⟩

/-- The entry found has the deepest key. -/
theorem isDeepest_of_deepest {entries : List (Path.Key × α)} {path : Path.Key}
    {best : Path.Key × α} (h : deepest entries path = some best) :
    best ∈ entries ∧ IsDeepest (entries.map Prod.fst) path best.1 := by
  rw [deepest] at h
  rcases longest_cases (entries.filter fun entry => entry.1.isPrefixOf path) with
    ⟨-, hnone⟩ | ⟨found, hfound, hsome, hmax⟩
  · cases hnone.symm.trans h
  · obtain rfl := Option.some.inj (hsome.symm.trans h)
    obtain ⟨hmem, hprefix⟩ := mem_filter_containing.1 hfound
    refine ⟨hmem, ⟨List.mem_map_of_mem hmem, hprefix⟩, fun other hother hcontains => ?_⟩
    obtain ⟨e, he, rfl⟩ := List.mem_map.1 hother
    -- both contain the path, so the shorter one contains the longer one
    exact List.prefix_of_prefix_length_le hcontains hprefix
      (hmax e (mem_filter_containing.2 ⟨he, hcontains⟩))

/-- The entry found is the one with the deepest key. -/
theorem deepest_eq_some_iff {entries : List (Path.Key × α)}
    (hnodup : (entries.map Prod.fst).Nodup) {path : Path.Key} {best : Path.Key × α} :
    deepest entries path = some best ↔
      best ∈ entries ∧ IsDeepest (entries.map Prod.fst) path best.1 := by
  refine ⟨isDeepest_of_deepest, fun ⟨hmem, hbest⟩ => ?_⟩
  obtain ⟨found, hfound⟩ := Option.isSome_iff_exists.1 (isSome_deepest_iff.2 ⟨best.1, hbest.1⟩)
  obtain ⟨hfoundMem, hdeepest⟩ := isDeepest_of_deepest hfound
  rw [hfound, List.inj_on_of_nodup_map hnodup hfoundMem hmem (hdeepest.unique hbest)]

/-- The order in which the entries are tried does not matter. -/
theorem deepest_of_perm {entries entries' : List (Path.Key × α)} (h : entries.Perm entries')
    (hnodup : (entries'.map Prod.fst).Nodup) (path : Path.Key) :
    deepest entries path = deepest entries' path := by
  have hkeys := h.map Prod.fst
  refine Option.ext fun best => ?_
  rw [deepest_eq_some_iff (hkeys.nodup_iff.2 hnodup), deepest_eq_some_iff hnodup]
  simp only [IsDeepest, hkeys.mem_iff, h.mem_iff]

/-! ## The registered root of a path -/

/-- The registered root that contains a path is looked for among the registered keys. -/
theorem forPath?_eq (k : Tracker) (files : FileTree) (p : Path) :
    k.forPath? files p =
      (deepest k.registered.entries (keyOf files p)).bind fun entry => k.handle? entry.2 := by
  rw [forPath?, deepest, longest]
  congr 2
  funext best entry
  cases best <;> rfl

/-- A path is in the handle of the registered root that contains it most closely. -/
structure FindsDeepest (k : Tracker) : Prop where
  /-- There is a handle exactly when any registered root contains the path. -/
  isSome_iff : ∀ files p, (k.forPath? files p).isSome = true ↔
    ∃ root ∈ k.registered.keys, root <+: keyOf files p
  /-- There is one root then that contains the path and that every other one contains. -/
  existsUnique : ∀ files p, (∃ root ∈ k.registered.keys, root <+: keyOf files p) →
    ∃! root, IsDeepest k.registered.keys (keyOf files p) root
  /-- The handle is the one that is registered for this root. -/
  eq_some_iff : ∀ files p handle, k.forPath? files p = some handle ↔
    ∃ id, k.registered.find? handle.root.components = some id ∧ k.handle? id = some handle ∧
      IsDeepest k.registered.keys (keyOf files p) handle.root.components
  /-- The order in which the registered roots are tried does not matter. -/
  any_order : ∀ files p entries, entries.Perm k.registered.entries →
    (deepest entries (keyOf files p)).bind (fun entry => k.handle? entry.2) = k.forPath? files p

/-- When every handle is registered under its own root, the closest root is found. -/
theorem Anchored.findsDeepest {k : Tracker} (h : k.Anchored) : k.FindsDeepest := by
  have hnodup : (k.registered.entries.map Prod.fst).Nodup := k.registered.nodup_keys
  -- what is registered has a handle with that root
  have hfound {files : FileTree} {p : Path} {handle : Handle}
      (hhandle : k.forPath? files p = some handle) :
      ∃ id, k.registered.find? handle.root.components = some id ∧ k.handle? id = some handle ∧
        IsDeepest k.registered.keys (keyOf files p) handle.root.components := by
    rw [forPath?_eq, Option.bind_eq_some_iff] at hhandle
    obtain ⟨⟨key, id⟩, hbest, hid⟩ := hhandle
    obtain ⟨hmem, hdeepest⟩ := isDeepest_of_deepest hbest
    have hregistered := OrderedMap.find?_eq_some_iff.2 hmem
    obtain ⟨other, hother, hroot⟩ := h key id hregistered
    obtain rfl := Option.some.inj (hother.symm.trans hid)
    rw [hroot]
    exact ⟨id, hregistered, hother, hdeepest⟩
  have hsome {files : FileTree} {p : Path} : (k.forPath? files p).isSome = true ↔
      ∃ root ∈ k.registered.keys, root <+: keyOf files p := by
    refine Iff.trans ?_ isSome_deepest_iff
    rw [forPath?_eq]
    cases hbest : deepest k.registered.entries (keyOf files p) with
    | none => rfl
    | some best =>
      obtain ⟨other, hother, -⟩ :=
        h best.1 best.2 (OrderedMap.find?_eq_some_iff.2 (isDeepest_of_deepest hbest).1)
      rw [Option.bind_some, hother]
      exact iff_of_true rfl rfl
  refine ⟨fun files p => hsome, fun files p hroot => ?_, fun files p handle => ⟨hfound, ?_⟩,
    fun files p entries hperm => ?_⟩
  · obtain ⟨handle, hhandle⟩ := Option.isSome_iff_exists.1 (hsome.2 hroot)
    obtain ⟨-, -, -, hdeepest⟩ := hfound hhandle
    exact ⟨_, hdeepest, fun root hroot => hroot.unique hdeepest⟩
  · rintro ⟨id, hregistered, hid, hdeepest⟩
    have hbest := (deepest_eq_some_iff hnodup).2
      ⟨OrderedMap.find?_eq_some_iff.1 hregistered, hdeepest⟩
    rw [forPath?_eq, hbest]
    exact hid
  · rw [forPath?_eq, deepest_of_perm hperm hnodup]

/-- The root that is found depends on the registered keys alone. -/
theorem FindsDeepest.root_eq {k k' : Tracker} (h : k.FindsDeepest) (h' : k'.FindsDeepest)
    (hkeys : ∀ root, root ∈ k.registered.keys ↔ root ∈ k'.registered.keys) (files : FileTree)
    (p : Path) : (k.forPath? files p).map (·.root.components) =
      (k'.forPath? files p).map (·.root.components) := by
  have hroot {k : Tracker} (h : k.FindsDeepest) (root : Path.Key) :
      (k.forPath? files p).map (·.root.components) = some root ↔
        IsDeepest k.registered.keys (keyOf files p) root := by
    rw [Option.map_eq_some_iff]
    constructor
    · rintro ⟨handle, hhandle, rfl⟩
      obtain ⟨-, -, -, hdeepest⟩ := (h.eq_some_iff files p handle).1 hhandle
      exact hdeepest
    · intro hdeepest
      obtain ⟨handle, hhandle⟩ :=
        Option.isSome_iff_exists.1 ((h.isSome_iff files p).2 ⟨root, hdeepest.1⟩)
      obtain ⟨-, -, -, hother⟩ := (h.eq_some_iff files p handle).1 hhandle
      exact ⟨handle, hhandle, hother.unique hdeepest⟩
  refine Option.ext fun root => ?_
  rw [hroot h, hroot h']
  simp only [IsDeepest, hkeys]

/-! ## Registrations under way -/

/-- What a call has found so far is for the root that it registers. -/
def RegisterStage.Rooted : RegisterStage → Prop
  | .located key l => l.workDir.components = key.components
  | .made key handle => handle.root.components = key.components
  | _ => True

/-- Every handle is registered under its own root, and the calls keep to their roots. -/
structure Race.Rooted (r : Race) : Prop where
  /-- The handles are registered under their own roots. -/
  anchored : r.tracker.Anchored
  /-- The worktrees in memory are under their own roots. -/
  placed : r.world.memory.Placed
  /-- The calls keep to their roots. -/
  calls : ∀ stage ∈ r.calls, stage.Rooted

namespace Race

variable {r : Race}

/-- The calls keep to their roots when one of them comes to a stage that does. -/
theorem Rooted.calls_set (h : r.Rooted) (i : Nat) {stage : RegisterStage} (hstage : stage.Rooted) :
    ∀ other ∈ r.calls.set i stage, other.Rooted := by
  intro other hother
  rcases List.mem_or_eq_of_mem_set hother with hother | rfl
  · exact h.calls other hother
  · exact hstage

/-- The step of a call keeps handles and calls to their roots: what is located for a root is at the
root, and the handle made of it is put in place under the same root. -/
theorem Rooted.act (h : r.Rooted) (i : Nat) {stage : RegisterStage} (hstage : stage.Rooted) :
    (r.act i stage).Rooted := by
  cases stage with
  | begun root => exact ⟨h.anchored, h.placed, h.calls_set i trivial⟩
  | named key =>
    rw [Race.act, look]
    split
    next id hfind => exact ⟨h.anchored, h.placed, h.calls_set i trivial⟩
    next => exact ⟨h.anchored, h.placed, h.calls_set i trivial⟩
  | missed key =>
    rw [Race.act, seek]
    split
    next => exact ⟨h.anchored, h.placed, h.calls_set i trivial⟩
    next backend _ =>
      have hread := backend.locate_read r.world key
      refine ⟨h.anchored, fun root worktree hfind => ?_, h.calls_set i ?_⟩
      · exact h.placed root worktree (hread.worktrees ▸ hfind)
      · cases hlocated : (backend.locate r.world key).1 with
        | error e => exact trivial
        | ok l => exact StoreKind.workDir_of_locate h.placed hlocated
  | located key l =>
    refine ⟨h.anchored, h.placed, h.calls_set i ?_⟩
    cases hmade : r.tracker.makeHandle r.world.tree l with
    | error e => exact trivial
    | ok handle =>
      obtain ⟨settings, -, -, rfl⟩ := makeHandle_eq_ok.1 hmade
      exact hstage
  | made key handle =>
    exact ⟨h.anchored.insertHandle hstage, h.placed, h.calls_set i trivial⟩
  | returned key result => exact h

/-- Whatever happens next keeps handles and calls to their roots. -/
theorem Rooted.step (h : r.Rooted) {turn : Turn}
    (hturn : ∀ w, turn = .change w → w.memory.Placed) : (r.step turn).Rooted := by
  cases turn with
  | call root =>
    refine ⟨h.anchored, h.placed, fun stage hstage => ?_⟩
    rcases List.mem_append.1 hstage with hstage | hstage
    · exact h.calls stage hstage
    · rw [List.mem_singleton.1 hstage]
      exact trivial
  | proceed i =>
    rw [Race.step, proceed]
    split
    next => exact h
    next stage hcall => exact h.act i (h.calls stage (List.mem_of_getElem? hcall))
  | unregister t root => exact ⟨h.anchored.unregister t root, h.placed, h.calls⟩
  | change w => exact ⟨h.anchored, hturn w rfl, h.calls⟩

/-- Handles and calls keep to their roots all the time. -/
theorem Rooted.run (h : r.Rooted) {turns : List Turn}
    (hturns : ∀ w, .change w ∈ turns → w.memory.Placed) : (r.run turns).Rooted := by
  induction turns generalizing r with
  | nil => exact h
  | cons turn rest ih =>
    refine ih (h.step fun w heq => ?_) fun w hw => hturns w (List.mem_cons_of_mem _ hw)
    exact hturns w (heq ▸ List.mem_cons_self)

end Race

/-! ## The root of a path -/

/-- In every session, and while registrations are under way, a path is in the handle of the registered
root that contains it most closely, and in none when no registered root contains it. In whatever order
the roots were registered, when the same ones are registered in the end, the same one is found. -/
theorem forPath_deepest (stores : StoreRegistry) (settings : TrackerSettings) (bus : EventBus)
    (t : FileTree) :
    let begun := onBus stores settings bus
    (∀ occurrences, ((Session.of begun t occurrences).tracker begun).FindsDeepest) ∧
    (∀ occurrences turns, (∀ w, Race.Turn.change w ∈ turns → w.memory.Placed) →
      let s := Session.of begun t occurrences
      ((Race.start (s.tracker begun) s.world).run turns).tracker.FindsDeepest) ∧
    ∀ occurrences occurrences',
      let k := (Session.of begun t occurrences).tracker begun
      let k' := (Session.of begun t occurrences').tracker begun
      (∀ root, root ∈ k.registered.keys ↔ root ∈ k'.registered.keys) →
        ∀ files p, (k.forPath? files p).map (·.root.components) =
          (k'.forPath? files p).map (·.root.components) := by
  intro begun
  have hsession (occurrences : List Occurrence) :=
    Session.anchored_of stores settings bus t occurrences
  refine ⟨fun occurrences => (hsession occurrences).2.findsDeepest, fun occurrences turns hturns => ?_,
    fun occurrences occurrences' => ?_⟩
  · obtain ⟨hplaced, hanchored⟩ := hsession occurrences
    have hrooted : (Race.start _ _).Rooted :=
      ⟨hanchored, hplaced, fun stage hstage => absurd hstage List.not_mem_nil⟩
    exact (hrooted.run hturns).anchored.findsDeepest
  · exact (hsession occurrences).2.findsDeepest.root_eq (hsession occurrences').2.findsDeepest

/-- What is done in a session in which a root and one inside it are registered. -/
def nestedRoots (first second : Path) : List Occurrence :=
  [.call (.addRepository ⟨"/a"⟩), .call (.addRepository ⟨"/a/b"⟩), .ask (.register first),
    .ask (.register second)]

/-- The session with a root inside another one. -/
def nestedSession (first second : Path) : Session :=
  .of (onBus ⟨[.memory]⟩ ⟨.memory, 4⟩ (.create 4)) .empty (nestedRoots first second)

/-- The tracker of that session. -/
def nestedTracker (first second : Path) : Tracker :=
  (nestedSession first second).tracker (onBus ⟨[.memory]⟩ ⟨.memory, 4⟩ (.create 4))

/-- A path in both roots is in the inner one, in whatever order they were registered, and also while
the outer one is unregistered and registered again, when the stores are emptied at last. -/
theorem forPath_deepest_nested :
    ((nestedTracker ⟨"/a"⟩ ⟨"/a/b"⟩).forPath? .empty ⟨"/a/b/c"⟩).map (·.root.components) =
        some [.root, .name "a", .name "b"] ∧
      ((nestedTracker ⟨"/a"⟩ ⟨"/a/b"⟩).forPath? .empty ⟨"/a/b/c"⟩).map (·.root.components) =
        ((nestedTracker ⟨"/a/b"⟩ ⟨"/a"⟩).forPath? .empty ⟨"/a/b/c"⟩).map (·.root.components) ∧
      ((Race.start (nestedTracker ⟨"/a"⟩ ⟨"/a/b"⟩) (nestedSession ⟨"/a"⟩ ⟨"/a/b"⟩).world).run
        [.unregister .empty ⟨"/a"⟩, .call ⟨"/a"⟩, .proceed 0, .proceed 0, .proceed 0,
          .change ⟨.empty, .empty⟩]).tracker.FindsDeepest := by
  obtain ⟨-, hrace, horder⟩ := forPath_deepest ⟨[.memory]⟩ ⟨.memory, 4⟩ (.create 4) .empty
  have hkeys : (nestedTracker ⟨"/a"⟩ ⟨"/a/b"⟩).registered.keys =
      (nestedTracker ⟨"/a/b"⟩ ⟨"/a"⟩).registered.keys := by
    decide +kernel
  refine ⟨by decide +kernel, ?_, hrace _ _ fun w hw => ?_⟩
  · exact horder (nestedRoots ⟨"/a"⟩ ⟨"/a/b"⟩) (nestedRoots ⟨"/a/b"⟩ ⟨"/a"⟩)
      (fun root => iff_of_eq (congrArg (root ∈ ·) hkeys)) .empty ⟨"/a/b/c"⟩
  · obtain rfl : w = ⟨.empty, .empty⟩ := by simpa using hw
    exact MemoryStore.placed_empty

end WorktreeTracker.Tracker
