import WorktreeTracker.Proofs.MemoryStore.Calls
import WorktreeTracker.Proofs.Tracker.Naming
import WorktreeTracker.Proofs.Tracker.Updates

/-!
# Registrations under way

Any number of registrations are under way at the same time. Each of them names its root, looks
whether the root is registered already, locates it, makes a handle with the settings of its
repository and puts the handle in place, unless another registration has put one there meanwhile.
Their steps come in any order, roots are unregistered and the stores change in between.

The last step looks once more, so a registration that makes a handle is given the one that is
registered under its name, whichever registration put it there. The look at the beginning goes by
the name of the name. Where that is another name, what it finds is the handle of another root. A root
that leads to itself has no other name.
-/

namespace WorktreeTracker.Tracker

/-! ## The steps of a registration -/

/-- How far a call of a registration has come. -/
inductive RegisterStage where
  /-- The call was made. -/
  | begun (root : Path)
  /-- The root has its name. -/
  | named (key : Path)
  /-- No handle was found for the name. -/
  | missed (key : Path)
  /-- The directories of the root are known. -/
  | located (key : Path) (l : Layout)
  /-- There is a handle to put in place. -/
  | made (key : Path) (handle : Handle)
  /-- The call is over. -/
  | returned (key : Path) (result : Except TrackError HandleId)

/-- The handle that a call for the root named `key` was given, if it is over and was successful. -/
def RegisterStage.answer? (key : Path.Key) : RegisterStage → Option HandleId
  | .returned name (.ok id) => if name.components = key then some id else none
  | _ => none

/-- The stage that locating the root leads to. -/
def RegisterStage.ofLocated (key : Path) : Except StoreError Layout → RegisterStage
  | .error e => .returned key (.error (.ofStore key e))
  | .ok l => .located key l

/-- The stage that making a handle leads to. -/
def RegisterStage.ofMade (key : Path) : Except TrackError Handle → RegisterStage
  | .error e => .returned key (.error e)
  | .ok handle => .made key handle

@[simp] theorem RegisterStage.answer?_ofLocated (key : Path) (located : Except StoreError Layout)
    (name : Path.Key) : (ofLocated key located).answer? name = none := by
  cases located <;> rfl

@[simp] theorem RegisterStage.answer?_ofMade (key : Path) (made : Except TrackError Handle)
    (name : Path.Key) : (ofMade key made).answer? name = none := by
  cases made <;> rfl

theorem RegisterStage.ofLocated_ne_named (key : Path) (located : Except StoreError Layout)
    (name : Path) : ofLocated key located ≠ .named name := by
  cases located <;> exact RegisterStage.noConfusion

theorem RegisterStage.ofMade_ne_named (key : Path) (made : Except TrackError Handle)
    (name : Path) : ofMade key made ≠ .named name := by
  cases made <;> exact RegisterStage.noConfusion

/-- A handle that was found by the look at the beginning of a registration. -/
structure Reuse where
  /-- The name of the root. -/
  key : Path.Key
  /-- The name of that name, which the handle was found under. -/
  again : Path.Key
  /-- The handle that was found. -/
  handle : HandleId
  /-- The handle that was registered under the name of the root, if any. -/
  own : Option HandleId

/-- A tracker with registrations under way. -/
structure Race where
  /-- The tracker. -/
  tracker : Tracker
  /-- What a read sees now. -/
  world : World
  /-- The calls, in the order in which they were made. -/
  calls : List RegisterStage
  /-- The handles that were found so far by a look at the beginning, in order. -/
  reuses : List Reuse

namespace Race

/-- What can happen next. -/
inductive Turn where
  /-- A root is to be registered. -/
  | call (root : Path)
  /-- A call takes its next step. -/
  | proceed (i : Nat)
  /-- A root is unregistered. Its name is that of the moment at which this was asked for. -/
  | unregister (t : FileTree) (root : Path)
  /-- The stores change. -/
  | change (w : World)

/-- A tracker without registrations under way. -/
def start (k : Tracker) (w : World) : Race := ⟨k, w, [], []⟩

variable (r : Race)

/-- A call comes to a stage. -/
def goTo (i : Nat) (stage : RegisterStage) : Race := { r with calls := r.calls.set i stage }

/-- A call ends with the handle that its look at the beginning has found. -/
def reuse (i : Nat) (key : Path) (id : HandleId) : Race :=
  { r with
    calls := r.calls.set i (.returned key (.ok id))
    reuses := r.reuses ++
      [⟨key.components, keyOf r.world.tree key, id, r.tracker.registered.find? key.components⟩] }

/-- A call looks for a handle to reuse. -/
def look (i : Nat) (key : Path) : Race :=
  match r.tracker.find? r.world.tree key with
  | some id => r.reuse i key id
  | none => r.goTo i (.missed key)

/-- A call locates its root. -/
def seek (i : Nat) (key : Path) : Race :=
  match r.tracker.requireStore r.tracker.settings.backend with
  | .error e => r.goTo i (.returned key (.error e))
  | .ok backend =>
    let (located, w) := backend.locate r.world key
    { r.goTo i (.ofLocated key located) with world := w }

/-- A call makes a handle. -/
def make (i : Nat) (key : Path) (l : Layout) : Race :=
  r.goTo i (.ofMade key (r.tracker.makeHandle r.world.tree l))

/-- A call puts its handle in place, unless there is one by now, and ends. -/
def insert (i : Nat) (key : Path) (handle : Handle) : Race :=
  let inserted := r.tracker.insertHandle key handle
  { r.goTo i (.returned key (.ok inserted.1)) with tracker := inserted.2 }

/-- The next step of a call at a stage. -/
def act (i : Nat) : RegisterStage → Race
  | .begun root => r.goTo i (.named (normalizeRoot r.world.tree root))
  | .named key => r.look i key
  | .missed key => r.seek i key
  | .located key l => r.make i key l
  | .made key handle => r.insert i key handle
  | .returned _ _ => r

/-- The next step of a call. -/
def proceed (i : Nat) : Race :=
  match r.calls[i]? with
  | none => r
  | some stage => r.act i stage

/-- The registrations after something happens. -/
def step : Turn → Race
  | .call root => { r with calls := r.calls ++ [.begun root] }
  | .proceed i => r.proceed i
  | .unregister t root => { r with tracker := (r.tracker.unregister t root).2 }
  | .change w => { r with world := w }

/-- The registrations after all that happens. -/
def run (turns : List Turn) : Race := turns.foldl step r

theorem run_append (turns later : List Turn) :
    r.run (turns ++ later) = (r.run turns).run later :=
  List.foldl_append

/-- The handles that the calls for the root named `key` were given. -/
def answers (key : Path.Key) : List HandleId := r.calls.filterMap (·.answer? key)

/-- What a step of a call does: it names its root, it ends with a handle that was found or put in
place, or it changes nothing but how far it has come and what was read. -/
inductive Proceeds (i : Nat) : Race → Prop
  | stay : Proceeds i r
  | name {root : Path} (hcall : r.calls[i]? = some (.begun root)) :
      Proceeds i (r.goTo i (.named (normalizeRoot r.world.tree root)))
  | quiet (w : World) (stage : RegisterStage) (htree : w.tree = r.world.tree)
      (hnamed : ∀ key, stage ≠ .named key) (hquiet : ∀ key, stage.answer? key = none) :
      Proceeds i { r with world := w, calls := r.calls.set i stage }
  | reuse {key : Path} {id : HandleId} (hcall : r.calls[i]? = some (.named key))
      (hfind : r.tracker.find? r.world.tree key = some id) : Proceeds i (r.reuse i key id)
  | insert {key : Path} {handle : Handle} (hcall : r.calls[i]? = some (.made key handle)) :
      Proceeds i (r.insert i key handle)

theorem proceed_cases (i : Nat) : r.Proceeds i (r.proceed i) := by
  have hgoTo (stage : RegisterStage) (hnamed : ∀ key, stage ≠ .named key)
      (hquiet : ∀ key, stage.answer? key = none) : r.Proceeds i (r.goTo i stage) :=
    .quiet r.world stage rfl hnamed hquiet
  unfold proceed
  split
  next => exact .stay
  next stage hcall =>
    cases stage with
    | begun root => exact .name hcall
    | named key =>
      rw [act, look]
      split
      next id hfind => exact .reuse hcall hfind
      next => exact hgoTo _ (by simp) fun _ => rfl
    | missed key =>
      rw [act, seek]
      split
      next => exact hgoTo _ (by simp) fun _ => rfl
      next backend _ =>
        exact .quiet _ _ (backend.locate_read r.world key).tree
          (RegisterStage.ofLocated_ne_named key _) (RegisterStage.answer?_ofLocated key _)
    | located key l =>
      exact hgoTo _ (RegisterStage.ofMade_ne_named key _) (RegisterStage.answer?_ofMade key _)
    | made key handle => exact .insert hcall
    | returned key result => exact .stay

end Race

/-! ## A single call -/

section Single

attribute [local simp] Race.proceed Race.act Race.goTo Race.look Race.reuse Race.seek Race.make
  Race.insert RegisterStage.ofLocated RegisterStage.ofMade

/-- The steps of a single call in a row are a registration. Five steps are enough: the name, the
look, the directories, the handle and its place. -/
theorem race_single (k : Tracker) (w : World) (root : Path) :
    let r := (Race.start k w).run (.call root :: List.replicate 5 (.proceed 0))
    r.tracker = (k.register w root).2.1 ∧ r.world = (k.register w root).2.2 ∧
      r.calls = [.returned (normalizeRoot w.tree root) (k.register w root).1] := by
  simp only [List.replicate_succ, List.replicate_zero, Race.run, List.foldl_cons, List.foldl_nil,
    Race.step, Race.start, List.nil_append, register]
  -- a step that ends the call leaves nothing to do for those that are left
  cases hfind : k.find? w.tree (normalizeRoot w.tree root) with
  | some id => simp [hfind]
  | none =>
    cases hstore : k.requireStore k.settings.backend with
    | error e => simp [hfind, hstore]
    | ok backend =>
      rcases hlocate : backend.locate w (normalizeRoot w.tree root) with ⟨e | l, w'⟩
      · simp [hfind, hstore, hlocate]
      · cases hmake : k.makeHandle w'.tree l with
        | error e => simp [hfind, hstore, hlocate, hmake]
        | ok handle => simp [hfind, hstore, hlocate, hmake]

end Single

/-! ## One handle for a root -/

/-- The calls for the root named `key` that were successful were all given the handle that is
registered under that name. -/
structure Race.OneHandle (key : Path.Key) (r : Race) : Prop where
  /-- The handle is registered. -/
  registered : ∀ id ∈ r.answers key, r.tracker.registered.find? key = some id
  /-- No two calls were given different handles. -/
  same : ∀ id ∈ r.answers key, ∀ other ∈ r.answers key, id = other

/-- The handles that were found for the root named `key` by a look at the beginning were registered
under that name. -/
def Race.Direct (key : Path.Key) (r : Race) : Prop :=
  ∀ a ∈ r.reuses, a.key = key → a.own = some a.handle

namespace Race

variable {key : Path.Key} {r : Race}

theorem OneHandle.of_registered
    (h : ∀ id ∈ r.answers key, r.tracker.registered.find? key = some id) : OneHandle key r :=
  ⟨h, fun id hid other hother => Option.some.inj ((h id hid).symm.trans (h other hother))⟩

/-- An answer after a call came to a stage is that of the stage, or was there before. -/
theorem mem_answers_set {i : Nat} {stage : RegisterStage} {id : HandleId}
    (h : id ∈ (r.calls.set i stage).filterMap (·.answer? key)) :
    stage.answer? key = some id ∨ id ∈ r.answers key := by
  obtain ⟨other, hother, hanswer⟩ := List.mem_filterMap.1 h
  rcases List.mem_or_eq_of_mem_set hother with hbefore | rfl
  · exact .inr (List.mem_filterMap.2 ⟨other, hbefore, hanswer⟩)
  · exact .inl hanswer

/-- The answer of a call that is over and was successful is the handle it was given. -/
theorem answer?_eq_some {name : Path} {id other : HandleId}
    (h : (RegisterStage.returned name (.ok id)).answer? key = some other) :
    name.components = key ∧ id = other := by
  rw [RegisterStage.answer?] at h
  split at h
  next hname => exact ⟨hname, Option.some.inj h⟩
  next => cases h

/-- A step adds to the handles that were found, and takes none away. -/
theorem reuses_step (r : Race) (turn : Turn) : r.reuses <+: (r.step turn).reuses := by
  cases turn with
  | call root => exact List.prefix_rfl
  | unregister t root => exact List.prefix_rfl
  | change w => exact List.prefix_rfl
  | proceed i =>
    have hproceeds := r.proceed_cases i
    rw [step]
    generalize r.proceed i = after at hproceeds ⊢
    cases hproceeds with
    | reuse hcall hfind => exact List.prefix_append ..
    | _ => exact List.prefix_rfl

theorem reuses_run (r : Race) (turns later : List Turn) :
    (r.run turns).reuses <+: (r.run (turns ++ later)).reuses := by
  induction later using List.reverseRecOn with
  | nil => simp
  | append_singleton later turn ih =>
    rw [← List.append_assoc, run_append]
    exact ih.trans (reuses_step _ turn)

/-- The calls for a root keep to one handle when a step finds none but that. -/
theorem OneHandle.step (h : OneHandle key r) {turn : Turn}
    (hkept : ∀ t root, turn = .unregister t root → keyOf t root ≠ key)
    (hdirect : (r.step turn).Direct key) : OneHandle key (r.step turn) := by
  refine .of_registered fun id hid => ?_
  cases turn with
  | call root =>
    have hcalls : (r.step (.call root)).answers key = r.answers key := by
      simp [Race.step, answers, RegisterStage.answer?]
    rw [hcalls] at hid
    exact h.registered id hid
  | change w => exact h.registered id hid
  | unregister t root =>
    -- another root is unregistered
    have hne : key ≠ (normalizeRoot t root).components := (hkept t root rfl).symm
    refine (OrderedMap.find?_erase ..).trans ?_
    rw [if_neg hne]
    exact h.registered id hid
  | proceed i =>
    have hproceeds := r.proceed_cases i
    rw [Race.step] at hid hdirect ⊢
    generalize r.proceed i = after at hproceeds hid hdirect ⊢
    cases hproceeds with
    | stay => exact h.registered id hid
    | name hcall =>
      rcases mem_answers_set hid with hanswer | hbefore
      · cases hanswer
      · exact h.registered id hbefore
    | quiet w stage htree hnamed hquiet =>
      rcases mem_answers_set hid with hanswer | hbefore
      · rw [hquiet] at hanswer
        cases hanswer
      · exact h.registered id hbefore
    | @reuse name found hcall hfind =>
      rcases mem_answers_set hid with hanswer | hbefore
      · obtain ⟨rfl, rfl⟩ := answer?_eq_some hanswer
        exact hdirect _ (List.mem_append_right _ List.mem_cons_self) rfl
      · exact h.registered id hbefore
    | @insert name handle hcall =>
      rcases mem_answers_set hid with hanswer | hbefore
      · obtain ⟨rfl, rfl⟩ := answer?_eq_some hanswer
        exact find?_insertHandle_self r.tracker name handle
      · exact find?_insertHandle_of_some (h.registered id hbefore) name handle

/-- What a look finds is registered for the root when the calls for it keep to one handle. -/
theorem Direct.step (h : r.Direct key) {turn : Turn} (hone : OneHandle key (r.step turn)) :
    (r.step turn).Direct key := by
  cases turn with
  | call root => exact h
  | unregister t root => exact h
  | change w => exact h
  | proceed i =>
    have hproceeds := r.proceed_cases i
    rw [Race.step] at hone ⊢
    generalize r.proceed i = after at hproceeds hone ⊢
    cases hproceeds with
    | @reuse name found hcall hfind =>
      intro a ha hkey
      rcases List.mem_append.1 ha with ha | ha
      · exact h a ha hkey
      · obtain rfl := List.mem_singleton.1 ha
        obtain rfl : name.components = key := hkey
        refine hone.registered found (List.mem_filterMap.2 ⟨.returned name (.ok found), ?_, ?_⟩)
        · exact List.mem_set (List.getElem?_eq_some_iff.1 hcall).1 _
        · exact if_pos rfl
    | _ => exact h

/-- What was found so far is registered for the root when everything found in the end is. -/
theorem Direct.of_run {turns later : List Turn} (h : (r.run (turns ++ later)).Direct key) :
    (r.run turns).Direct key :=
  fun a ha => h a ((reuses_run r turns later).subset ha)

/-- The calls for a root keep to one handle when the looks at the beginning find no other. -/
theorem OneHandle.run (h : OneHandle key r) {turns : List Turn}
    (hkept : ∀ t root, .unregister t root ∈ turns → keyOf t root ≠ key)
    (hdirect : (r.run turns).Direct key) : OneHandle key (r.run turns) := by
  induction turns using List.reverseRecOn with
  | nil => exact h
  | append_singleton earlier turn ih =>
    have hearlier := ih (fun t root hmem => hkept t root (List.mem_append_left _ hmem))
      hdirect.of_run
    rw [run_append] at hdirect ⊢
    refine hearlier.step (fun t root heq => ?_) hdirect
    exact hkept t root (List.mem_append_right _ (List.mem_singleton.2 heq.symm))

/-- The looks at the beginning find no other handle when the calls for a root always keep to one. -/
theorem Direct.run (h : r.Direct key) {turns : List Turn}
    (hone : ∀ earlier, earlier <+: turns → OneHandle key (r.run earlier)) :
    (r.run turns).Direct key := by
  induction turns using List.reverseRecOn with
  | nil => exact h
  | append_singleton earlier turn ih =>
    have hearlier := ih fun first hfirst => hone first (hfirst.trans (List.prefix_append ..))
    have hall := hone _ List.prefix_rfl
    rw [run_append] at hall ⊢
    exact hearlier.step hall

/-- A handle that was found under the name of the root is registered under it. -/
def Faithful (r : Race) : Prop :=
  ∀ a ∈ r.reuses, a.again = a.key → a.own = some a.handle

theorem Faithful.step (h : r.Faithful) (turn : Turn) : (r.step turn).Faithful := by
  cases turn with
  | call root => exact h
  | unregister t root => exact h
  | change w => exact h
  | proceed i =>
    have hproceeds := r.proceed_cases i
    rw [Race.step]
    generalize r.proceed i = after at hproceeds ⊢
    cases hproceeds with
    | @reuse name found hcall hfind =>
      intro a ha hagain
      rcases List.mem_append.1 ha with ha | ha
      · exact h a ha hagain
      · obtain rfl := List.mem_singleton.1 ha
        have hname : keyOf r.world.tree name = name.components := hagain
        change r.tracker.registered.find? name.components = some found
        rw [← hname]
        exact hfind
    | _ => exact h

theorem Faithful.run (h : r.Faithful) (turns : List Turn) : (r.run turns).Faithful := by
  induction turns generalizing r with
  | nil => exact h
  | cons turn rest ih => exact ih (h.step turn)

/-- The root `q` leads to itself in the files as they are now. It did so whenever a call was given a
name, and the name of its name was the same for every handle that was found. -/
structure Stable (q : Path) (r : Race) : Prop where
  /-- The root leads to itself. -/
  tree : r.world.tree.canonicalPath q = .ok q
  /-- So it did for every call that has its name. -/
  named : ∀ (i : Nat) (p : Path), r.calls[i]? = some (.named p) →
    ∃ t root, t.canonicalPath q = .ok q ∧ p = normalizeRoot t root
  /-- The name is its own name. -/
  reuses : ∀ a ∈ r.reuses, a.key = q.components → a.again = q.components

namespace Stable

variable {q : Path}

theorem start {w : World} (hq : w.tree.canonicalPath q = .ok q) (k : Tracker) :
    Stable q (Race.start k w) := by
  refine ⟨hq, fun i p hcall => ?_, fun a ha => absurd ha List.not_mem_nil⟩
  rw [Race.start, List.getElem?_nil] at hcall
  cases hcall

/-- A call comes to a stage, with a name only if that is one. -/
theorem set (h : Stable q r) {i : Nat} {stage : RegisterStage}
    (hstage : ∀ p, stage = .named p →
      ∃ t root, t.canonicalPath q = .ok q ∧ p = normalizeRoot t root)
    (j : Nat) (p : Path) (hcall : (r.calls.set i stage)[j]? = some (.named p)) :
    ∃ t root, t.canonicalPath q = .ok q ∧ p = normalizeRoot t root := by
  rw [List.getElem?_set] at hcall
  split at hcall
  next =>
    split at hcall
    next => exact hstage p (Option.some.inj hcall)
    next => cases hcall
  next => exact h.named j p hcall

theorem proceed (h : Stable q r) (i : Nat) : Stable q (r.proceed i) := by
  have hproceeds := r.proceed_cases i
  generalize r.proceed i = after at hproceeds ⊢
  cases hproceeds with
  | stay => exact h
  | @name root hcall =>
    refine ⟨h.tree, h.set fun p hp => ⟨r.world.tree, root, h.tree, ?_⟩, h.reuses⟩
    exact (RegisterStage.named.inj hp).symm
  | quiet w stage htree hnamed hquiet =>
    refine ⟨?_, h.set fun p hp => absurd hp (hnamed p), h.reuses⟩
    dsimp only
    rw [htree]
    exact h.tree
  | @reuse name found hcall hfind =>
    refine ⟨h.tree, h.set (by simp), fun a ha hkey => ?_⟩
    rcases List.mem_append.1 ha with ha | ha
    · exact h.reuses a ha hkey
    · obtain rfl := List.mem_singleton.1 ha
      obtain ⟨t, root, hq, hname⟩ := h.named i name hcall
      have hroot : keyOf t root = q.components := by
        rw [keyOf, ← hname]
        exact hkey
      change keyOf r.world.tree name = q.components
      rw [hname]
      exact keyOf_normalizeRoot hq h.tree hroot
  | insert hcall => exact ⟨h.tree, h.set (by simp), h.reuses⟩

theorem step (h : Stable q r) {turn : Turn}
    (hturn : ∀ w, turn = .change w → w.tree.canonicalPath q = .ok q) : Stable q (r.step turn) := by
  cases turn with
  | call root =>
    refine ⟨h.tree, fun i p hcall => h.named i p ?_, h.reuses⟩
    exact getElem?_of_concat hcall RegisterStage.noConfusion
  | proceed i => exact h.proceed i
  | unregister t root => exact ⟨h.tree, h.named, h.reuses⟩
  | change w => exact ⟨hturn w rfl, h.named, h.reuses⟩

theorem run (h : Stable q r) {turns : List Turn}
    (hturns : ∀ w, .change w ∈ turns → w.tree.canonicalPath q = .ok q) :
    Stable q (r.run turns) := by
  induction turns generalizing r with
  | nil => exact h
  | cons turn rest ih =>
    refine ih (h.step fun w heq => ?_) fun w hw => hturns w (List.mem_cons_of_mem _ hw)
    exact hturns w (heq ▸ List.mem_cons_self)

end Stable

/-! ## Calls come to an end -/

end Race

/-- The number of steps that a call has taken, where the steps that a failure or a reuse saves count
as taken. -/
def RegisterStage.rank : RegisterStage → Nat
  | .begun _ => 0
  | .named _ => 1
  | .missed _ => 2
  | .located _ _ => 3
  | .made _ _ => 4
  | .returned _ _ => 5

theorem RegisterStage.eq_returned (stage : RegisterStage) (h : 5 ≤ stage.rank) :
    ∃ key result, stage = .returned key result := by
  cases stage with
  | returned key result => exact ⟨key, result, rfl⟩
  | _ => exact absurd h (by simp [rank])

namespace Race

variable {key : Path.Key} {r : Race}

/-- Whether a call takes a step. -/
def Turn.isStepOf (i : Nat) : Turn → Bool
  | .proceed j => i == j
  | _ => false

/-- A call that takes a step gets further, up to its end. -/
theorem rank_proceed {i : Nat} {stage : RegisterStage} (h : r.calls[i]? = some stage) :
    ∃ after, (r.proceed i).calls[i]? = some after ∧ min (stage.rank + 1) 5 ≤ after.rank := by
  have hset (after : RegisterStage) : (r.calls.set i after)[i]? = some after := by
    rw [getElem?_set_of_some h, if_pos rfl]
  have hproceed : r.proceed i = r.act i stage := by
    rw [proceed, h]
  rw [hproceed]
  cases stage with
  | begun root => exact ⟨_, hset _, Nat.le_refl _⟩
  | named key =>
    rw [act, look]
    split
    next => exact ⟨_, hset _, by simp [RegisterStage.rank]⟩
    next => exact ⟨_, hset _, Nat.le_refl _⟩
  | missed key =>
    rw [act, seek]
    split
    next => exact ⟨_, hset _, by simp [RegisterStage.rank]⟩
    next backend _ =>
      refine ⟨_, hset _, ?_⟩
      cases (backend.locate r.world key).1 <;>
        simp [RegisterStage.rank, RegisterStage.ofLocated]
  | located key l =>
    refine ⟨_, hset _, ?_⟩
    cases r.tracker.makeHandle r.world.tree l <;> simp [RegisterStage.rank, RegisterStage.ofMade]
  | made key handle => exact ⟨_, hset _, Nat.le_refl _⟩
  | returned key result => exact ⟨_, h, Nat.min_le_right _ _⟩

/-- What happens otherwise does not set a call back. -/
theorem calls_step_of_ne {i : Nat} {stage : RegisterStage} (h : r.calls[i]? = some stage)
    {turn : Turn} (hturn : turn.isStepOf i = false) : (r.step turn).calls[i]? = some stage := by
  cases turn with
  | call root => exact (List.getElem?_append_left (List.getElem?_eq_some_iff.1 h).1).trans h
  | unregister t root => exact h
  | change w => exact h
  | proceed j =>
    have hne : j ≠ i := fun heq => by simp [Turn.isStepOf, heq] at hturn
    have hset (after : RegisterStage) : (r.calls.set j after)[i]? = some stage := by
      rw [List.getElem?_set_ne hne, h]
    have hproceeds := r.proceed_cases j
    rw [step]
    generalize r.proceed j = after at hproceeds ⊢
    cases hproceeds with
    | stay => exact h
    | name hcall => exact hset _
    | quiet w after htree hnamed hquiet => exact hset after
    | reuse hcall hfind => exact hset _
    | insert hcall => exact hset _

/-- A call that gets to take its steps returns, whatever the others do in between. -/
theorem returned_of_steps {i : Nat} {stage : RegisterStage} (h : r.calls[i]? = some stage)
    (turns : List Turn) (hsteps : 5 ≤ stage.rank + turns.countP (Turn.isStepOf i)) :
    ∃ key result, (r.run turns).calls[i]? = some (.returned key result) := by
  induction turns generalizing r stage with
  | nil =>
    obtain ⟨key, result, rfl⟩ := stage.eq_returned hsteps
    exact ⟨key, result, h⟩
  | cons turn rest ih =>
    cases hturn : turn.isStepOf i with
    | false =>
      rw [List.countP_cons_of_neg (by simp [hturn])] at hsteps
      exact ih (calls_step_of_ne h hturn) hsteps
    | true =>
      rw [List.countP_cons_of_pos hturn] at hsteps
      obtain ⟨j, rfl⟩ : ∃ j, turn = .proceed j := by
        cases turn with
        | proceed j => exact ⟨j, rfl⟩
        | _ => cases hturn
      obtain rfl : i = j := by simpa [Turn.isStepOf] using hturn
      obtain ⟨after, hafter, hrank⟩ := rank_proceed h
      exact ih hafter (by omega)

end Race

/-! ## Registrations in any order -/

/-- Registrations of any roots are under way, and no root named `key` is unregistered. At all times
the calls for the root of that name that were successful were given one handle, the one registered
under it, exactly when no look at the beginning finds another one for that root. So it is when the
name of the name is the name itself, and therefore when the name is that of a root that leads to
itself all the time. A call that gets to take five steps comes to its end. -/
theorem registrations_agree (k : Tracker) (w : World) (turns : List Race.Turn) (key : Path.Key)
    (hkept : ∀ t root, Race.Turn.unregister t root ∈ turns → keyOf t root ≠ key) :
    let r := (Race.start k w).run turns
    ((∀ earlier, earlier <+: turns → ((Race.start k w).run earlier).OneHandle key) ↔
        r.Direct key) ∧
      ((∀ a ∈ r.reuses, a.key = key → a.again = key) → r.Direct key) ∧
      (∀ q : Path, q.components = key → w.tree.canonicalPath q = .ok q →
        (∀ w', Race.Turn.change w' ∈ turns → w'.tree.canonicalPath q = .ok q) → r.Direct key) ∧
      ∀ earlier later i, turns = earlier ++ later →
        i < ((Race.start k w).run earlier).calls.length →
        5 ≤ later.countP (Race.Turn.isStepOf i) →
        ∃ name result, r.calls[i]? = some (.returned name result) := by
  intro r
  have hnone : (Race.start k w).Direct key := fun a ha => absurd ha List.not_mem_nil
  have hnew : (Race.start k w).OneHandle key := .of_registered fun id hid =>
    absurd hid List.not_mem_nil
  have hnamed : (∀ a ∈ r.reuses, a.key = key → a.again = key) → r.Direct key := by
    intro hstable a ha hkey
    have hfaithful : r.Faithful :=
      Race.Faithful.run (fun a ha => absurd ha List.not_mem_nil) turns
    exact hfaithful a ha ((hstable a ha hkey).trans hkey.symm)
  refine ⟨⟨fun hone => hnone.run hone, ?_⟩, hnamed, ?_, fun earlier later i hturns hi hsteps => ?_⟩
  · rintro hdirect earlier ⟨later, rfl⟩
    exact hnew.run (fun t root hmem => hkept t root (List.mem_append_left _ hmem)) hdirect.of_run
  · rintro q rfl hq hturns
    exact hnamed ((Race.Stable.start hq k).run hturns).reuses
  · have hr : r = ((Race.start k w).run earlier).run later := by
      rw [← Race.run_append, ← hturns]
    rw [hr]
    exact Race.returned_of_steps (List.getElem?_eq_getElem hi) later (by omega)

/-- Two registrations of one root, where both have made a handle before the first one puts its own
in place. Another root is unregistered in between. -/
def bothMade : List Race.Turn :=
  [.call ⟨"/r"⟩, .call ⟨"/r"⟩] ++ List.replicate 4 (.proceed 0) ++ List.replicate 4 (.proceed 1) ++
    [.unregister .empty ⟨"/s"⟩]

/-- The two registrations, up to their end. -/
def bothPlaced : List Race.Turn := bothMade ++ [.proceed 1, .proceed 0]

/-- The race of the two registrations for a clone with one commit. -/
def cloneRace (turns : List Race.Turn) : Race :=
  (Race.start (create ⟨[.memory]⟩ ⟨.memory, 4⟩) ⟨.empty, .committed⟩).run turns

/-- Both registrations are given the handle that was put in place first. -/
theorem bothPlaced_agree :
    let key := keyOf .empty ⟨"/r"⟩
    (∀ t root, Race.Turn.unregister t root ∈ bothPlaced → keyOf t root ≠ key) ∧
      (cloneRace bothMade).calls.map RegisterStage.rank = [4, 4] ∧
      (cloneRace bothPlaced).answers key = [0, 0] ∧ (cloneRace bothPlaced).OneHandle key := by
  intro key
  have hkept : ∀ t root, Race.Turn.unregister t root ∈ bothPlaced → keyOf t root ≠ key := by
    intro t root hmem
    obtain ⟨rfl, rfl⟩ : t = .empty ∧ root = ⟨"/s"⟩ := by
      simpa [bothPlaced, bothMade] using hmem
    decide +kernel
  have hreuses : (cloneRace bothPlaced).reuses.length = 0 := by decide +kernel
  have hdirect : (cloneRace bothPlaced).Direct key := by
    intro a ha
    rw [List.eq_nil_of_length_eq_zero hreuses] at ha
    cases ha
  obtain ⟨hagree, -⟩ := registrations_agree _ _ bothPlaced key hkept
  exact ⟨hkept, by decide +kernel, by decide +kernel, hagree.2 hdirect _ List.prefix_rfl⟩

/-! ## A name that is not its own name

A file and a link to it, both tracked in memory. The link with a slash after it leads nowhere, so it
is named after the link itself, and the name of that is the file.
-/

/-- Two registrations of the link: one looks for a handle while the file is registered, the other
one when it no longer is. -/
def linkTwice : List Race.Turn :=
  [.call ⟨"/a"⟩] ++ List.replicate 5 (.proceed 0) ++ [.call ⟨"/l/"⟩, .call ⟨"/l/"⟩] ++
    List.replicate 2 (.proceed 1) ++ [.unregister linkedFile ⟨"/a"⟩] ++
      List.replicate 5 (.proceed 2)

/-- The race of the two registrations. -/
def linkRace : Race :=
  let repositories := [Call.addRepository ⟨"/a"⟩, .addRepository ⟨"/l"⟩]
  (Race.start (create ⟨[.memory]⟩ ⟨.memory, 4⟩)
    ⟨linkedFile, repositories.foldl MemoryStore.perform .empty⟩).run linkTwice

/-- The two registrations are given different handles, although the link is never unregistered. -/
theorem linkTwice_disagree :
    let key := keyOf linkedFile ⟨"/l/"⟩
    (∀ t root, Race.Turn.unregister t root ∈ linkTwice → keyOf t root ≠ key) ∧
      linkRace.answers key = [0, 1] ∧ linkRace.tracker.registered.find? key = some 1 ∧
      ¬ linkRace.OneHandle key := by
  intro key
  have hanswers : linkRace.answers key = [0, 1] := by decide +kernel
  refine ⟨fun t root hmem => ?_, hanswers, by decide +kernel, fun hone => ?_⟩
  · obtain ⟨rfl, rfl⟩ : t = linkedFile ∧ root = ⟨"/a"⟩ := by
      simpa [linkTwice] using hmem
    decide +kernel
  · have hsame := hone.same 0 (by simp [hanswers]) 1 (by simp [hanswers])
    cases hsame

end WorktreeTracker.Tracker
