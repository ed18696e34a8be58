import WorktreeTracker.Proofs.MemoryStore.Refresh
import WorktreeTracker.Proofs.Tracker.Run

/-!
# Updates under way

Any number of updates of the handles of a tracker are under way at the same time. Each of them waits
for the lock of its handle, makes the reads of a refresh one after the other, puts the snapshot in
place, publishes the event and lets the lock go. Their steps come in any order, and the stores
change in between.

The lock is held until the event is out, and the event is made from the snapshot that was replaced.
So the events of a handle are a chain: one for each snapshot in the order in which these were put in
place, each compared with the one before.
-/

namespace WorktreeTracker.Tracker

/-! ## The steps of an update -/

/-- How far a call of an update has come. -/
inductive Stage where
  /-- The call waits for the lock of its handle. -/
  | waiting
  /-- The call has the lock and reads. -/
  | reading (progress : Progress)
  /-- The snapshot `next` is in place of `previous`. -/
  | swapped (previous next : Snapshot)
  /-- The event is published as well. -/
  | published (next : Snapshot)
  /-- The lock is free again, and the call is over. -/
  | returned (result : Except TrackError Snapshot)

/-- Whether a call has the lock of its handle. -/
def Stage.isActive : Stage → Bool
  | .waiting => false
  | .reading _ => true
  | .swapped _ _ => true
  | .published _ => true
  | .returned _ => false

/-- A call of an update. -/
structure UpdateCall where
  /-- The handle that is updated. -/
  handle : HandleId
  /-- How far the call has come. -/
  stage : Stage

/-- A tracker with updates under way. -/
structure Updates where
  /-- The tracker. -/
  tracker : Tracker
  /-- What a read sees now. -/
  world : World
  /-- The handles whose locks are taken. -/
  held : List HandleId
  /-- The calls, in the order in which they were made. -/
  calls : List UpdateCall
  /-- The snapshots that were put in place so far, in order. -/
  swaps : List (HandleId × Snapshot)
  /-- The events that were published so far, in order. -/
  events : List (HandleId × RepositoryChanged)
  /-- The results of the calls that are over, in the order in which they ended. -/
  results : List (HandleId × Except TrackError Snapshot)

/-- What concerns one handle in a list of what concerns all. -/
def ofHandle {α : Type} (id : HandleId) (log : List (HandleId × α)) : List α :=
  log.filterMap fun entry => if entry.1 = id then some entry.2 else none

@[simp] theorem ofHandle_concat_self {α : Type} (id : HandleId) (log : List (HandleId × α)) (a : α) :
    ofHandle id (log ++ [(id, a)]) = ofHandle id log ++ [a] := by
  simp [ofHandle]

@[simp] theorem ofHandle_concat_of_ne {α : Type} {id other : HandleId} (h : other ≠ id)
    (log : List (HandleId × α)) (a : α) : ofHandle id (log ++ [(other, a)]) = ofHandle id log := by
  simp [ofHandle, h]

/-- What can happen next. -/
inductive Turn where
  /-- A call takes its next step, unless it waits for a lock that is taken. -/
  | proceed (i : Nat)
  /-- The stores change. -/
  | change (w : World)
  /-- The stores change in the middle of a read of a call, or its reading is broken off: it may have
  come to anything. -/
  | disturb (i : Nat) (progress : Progress)
  /-- One more update of a handle is asked for. -/
  | call (id : HandleId)

namespace Updates

/-- A tracker without updates. -/
def start (k : Tracker) (w : World) : Updates := ⟨k, w, [], [], [], [], []⟩

variable (u : Updates)

/-- A call takes the lock of its handle. -/
def take (i : Nat) (id : HandleId) : Updates :=
  { u with held := id :: u.held, calls := u.calls.set i ⟨id, .reading .begun⟩ }

/-- A call makes its next read. -/
def read (i : Nat) (id : HandleId) (handle : Handle) (progress : Progress) : Updates :=
  let next := progress.advance handle.store handle.layout handle.options u.world
  { u with world := next.2, calls := u.calls.set i ⟨id, .reading next.1⟩ }

/-- A call puts the snapshot that it has read in place. -/
def swap (i : Nat) (id : HandleId) (handle : Handle) (next : Snapshot) : Updates :=
  { u with
    tracker :=
      { u.tracker with handles := u.tracker.handles.set id { handle with snapshot := next } }
    calls := u.calls.set i ⟨id, .swapped handle.snapshot next⟩
    swaps := u.swaps ++ [(id, next)] }

/-- A call publishes the event for its snapshot. -/
def publish (i : Nat) (id : HandleId) (handle : Handle) (previous next : Snapshot) : Updates :=
  let event : RepositoryChanged := ⟨handle.root, next, previous.changed next⟩
  { u with
    tracker := { u.tracker with bus := (u.tracker.bus.publish event).2 }
    calls := u.calls.set i ⟨id, .published next⟩
    events := u.events ++ [(id, event)] }

/-- A call lets the lock of its handle go and ends. -/
def finish (i : Nat) (id : HandleId) (result : Except TrackError Snapshot) : Updates :=
  { u with
    held := u.held.erase id
    calls := u.calls.set i ⟨id, .returned result⟩
    results := u.results ++ [(id, result)] }

/-- The next step of a call at a stage. -/
def act (i : Nat) (id : HandleId) (handle : Handle) : Stage → Updates
  | .waiting => if id ∈ u.held then u else u.take i id
  | .reading (.ended (.error e)) => u.finish i id (.error e)
  | .reading (.ended (.ok next)) => u.swap i id handle next
  | .reading progress => u.read i id handle progress
  | .swapped previous next => u.publish i id handle previous next
  | .published next => u.finish i id (.ok next)
  | .returned _ => u

/-- The next step of a call. -/
def proceed (i : Nat) : Updates :=
  match u.calls[i]? with
  | none => u
  | some c =>
    match u.tracker.handle? c.handle with
    | none => u
    | some handle => u.act i c.handle handle c.stage

/-- What happens when the reading of a call comes to something else than what the stores have. -/
def disturb (i : Nat) (progress : Progress) : Updates :=
  match u.calls[i]? with
  | some ⟨id, .reading _⟩ => { u with calls := u.calls.set i ⟨id, .reading progress⟩ }
  | _ => u

/-- The updates after something happens. -/
def step : Turn → Updates
  | .proceed i => u.proceed i
  | .change w => { u with world := w }
  | .disturb i progress => u.disturb i progress
  | .call id => { u with calls := u.calls ++ [⟨id, .waiting⟩] }

/-- The updates after all that happens. -/
def run (turns : List Turn) : Updates := turns.foldl step u

theorem run_append (turns later : List Turn) :
    u.run (turns ++ later) = (u.run turns).run later :=
  List.foldl_append

/-- What a step of a call does: nothing, or one of the steps of an update. -/
inductive Proceeds (i : Nat) : Updates → Prop
  | stay : Proceeds i u
  | take {id : HandleId} (hcall : u.calls[i]? = some ⟨id, .waiting⟩) (hfree : id ∉ u.held) :
      Proceeds i (u.take i id)
  | read {id : HandleId} {handle : Handle} {progress : Progress}
      (hcall : u.calls[i]? = some ⟨id, .reading progress⟩)
      (hhandle : u.tracker.handle? id = some handle) : Proceeds i (u.read i id handle progress)
  | fail {id : HandleId} {e : TrackError}
      (hcall : u.calls[i]? = some ⟨id, .reading (.ended (.error e))⟩) :
      Proceeds i (u.finish i id (.error e))
  | swap {id : HandleId} {handle : Handle} {next : Snapshot}
      (hcall : u.calls[i]? = some ⟨id, .reading (.ended (.ok next))⟩)
      (hhandle : u.tracker.handle? id = some handle) : Proceeds i (u.swap i id handle next)
  | publish {id : HandleId} {handle : Handle} {previous next : Snapshot}
      (hcall : u.calls[i]? = some ⟨id, .swapped previous next⟩)
      (hhandle : u.tracker.handle? id = some handle) :
      Proceeds i (u.publish i id handle previous next)
  | finish {id : HandleId} {next : Snapshot} (hcall : u.calls[i]? = some ⟨id, .published next⟩) :
      Proceeds i (u.finish i id (.ok next))

theorem proceed_cases (i : Nat) : u.Proceeds i (u.proceed i) := by
  unfold proceed
  split
  next => exact .stay
  next c hcall =>
    obtain ⟨id, stage⟩ := c
    dsimp only
    split
    next => exact .stay
    next handle hhandle =>
      cases stage with
      | waiting =>
        rw [act]
        split
        next => exact .stay
        next hfree => exact .take hcall hfree
      | reading progress =>
        cases progress with
        | begun => exact .read hcall hhandle
        | headRead head => exact .read hcall hhandle
        | listed head branches remotes => exact .read hcall hhandle
        | ended result =>
          cases result with
          | error e => exact .fail hcall
          | ok next => exact .swap hcall hhandle
      | swapped previous next => exact .publish hcall hhandle
      | published next => exact .finish hcall
      | returned result => exact .stay

variable {u} in
theorem proceed_eq {i : Nat} {id : HandleId} {stage : Stage} {handle : Handle}
    (hcall : u.calls[i]? = some ⟨id, stage⟩) (hhandle : u.tracker.handle? id = some handle) :
    u.proceed i = u.act i id handle stage := by
  simp only [proceed, hcall, hhandle]

end Updates

/-! ## A single call -/

section Single

attribute [local simp] Updates.proceed Updates.act Updates.take Updates.read Updates.swap
  Updates.publish Updates.finish Progress.advance

/-- The steps of a single call in a row are an update. Seven steps are enough: the lock, three
reads, the snapshot, the event and the end. -/
theorem run_single {k : Tracker} {id : HandleId} {handle : Handle}
    (hhandle : k.handle? id = some handle) (w : World) :
    let u := (Updates.start k w).run (.call id :: List.replicate 7 (.proceed 0))
    u.tracker = (k.updateHandle w id handle).2.1 ∧ u.world = (k.updateHandle w id handle).2.2 ∧
      u.results = [(id, (k.updateHandle w id handle).1)] := by
  have hplaced (next : Snapshot) (bus : EventBus) :
      Tracker.handle?
        { k with handles := k.handles.set id { handle with snapshot := next }, bus } id =
          some { handle with snapshot := next } :=
    List.getElem?_set_self (handle?_lt hhandle)
  simp only [List.replicate_succ, List.replicate_zero, Updates.run, List.foldl_cons, List.foldl_nil,
    Updates.step, Updates.start, List.nil_append, updateHandle, readSnapshot]
  -- a read that fails ends the call, and the steps that are left do nothing
  rcases hhead : resolveHead handle.store w handle.layout with ⟨_ | head, w₁⟩
  · simp [hhandle, hhead]
  rcases hlisting : readListing handle.store w₁ handle.layout with ⟨_ | listing, w₂⟩
  · simp [hhandle, hhead, hlisting]
  cases hbuild : Catalog.build handle.options handle.layout.workDir listing with
  | error e => simp [hhandle, hhead, hlisting, hbuild]
  | ok branches =>
    rcases hstate : resolveState handle.store w₂ handle.layout with ⟨_ | state, w₃⟩
    · simp [hhandle, hhead, hlisting, hbuild, hstate]
    · simp [hhandle, hhead, hlisting, hbuild, hstate, hplaced, commit, eventFor, Handle.root]

end Single

/-! ## One holder of a lock -/

theorem getElem?_set_of_some {α : Type} {as : List α} {i : Nat} {a : α} (h : as[i]? = some a)
    (b : α) (j : Nat) : (as.set i b)[j]? = if i = j then some b else as[j]? := by
  obtain ⟨hlt, -⟩ := List.getElem?_eq_some_iff.1 h
  rw [List.getElem?_set, if_pos hlt]

/-- What is in a list with one more member is that or was there. -/
theorem getElem?_of_concat {α : Type} {as : List α} {a b : α} {j : Nat}
    (h : (as ++ [a])[j]? = some b) (hne : b ≠ a) : as[j]? = some b := by
  rw [List.getElem?_append] at h
  split at h
  next => exact h
  next => exact absurd (List.mem_singleton.1 (List.mem_of_getElem? h)) hne

/-- A call has the lock of its handle only while that is taken, and no two calls have the same
lock. -/
structure Exclusive (held : List HandleId) (calls : List UpdateCall) : Prop where
  /-- The lock of a call that has one is taken. -/
  held : ∀ (i : Nat) (c : UpdateCall), calls[i]? = some c → c.stage.isActive = true →
    c.handle ∈ held
  /-- Two calls that have the lock of one handle are the same. -/
  alone : ∀ (i j : Nat) (c d : UpdateCall), calls[i]? = some c → calls[j]? = some d →
    c.handle = d.handle → c.stage.isActive = true → d.stage.isActive = true → i = j

namespace Exclusive

variable {held : List HandleId} {calls : List UpdateCall} {i : Nat} {id : HandleId}
  {before after : Stage}

theorem nil : Exclusive [] [] := by
  constructor <;> intros <;> simp_all

/-- A call that has no lock takes one that is free, or goes on without one. -/
theorem take (h : Exclusive held calls) (hcall : calls[i]? = some ⟨id, before⟩) (hfree : id ∉ held) :
    Exclusive (id :: held) (calls.set i ⟨id, after⟩) := by
  -- nobody has the lock, so the call is the only one that has it afterwards
  have hnone : ∀ (j : Nat) (c : UpdateCall), calls[j]? = some c → c.handle = id →
      c.stage.isActive = false := by
    intro j c hc heq
    by_contra hactive
    apply hfree
    rw [← heq]
    exact h.held j c hc (by simpa using hactive)
  constructor
  case held =>
    intro j c hc hactive
    rw [getElem?_set_of_some hcall] at hc
    split at hc
    next =>
      obtain rfl := Option.some.inj hc
      exact List.mem_cons_self
    next => exact List.mem_cons_of_mem _ (h.held j c hc hactive)
  case alone =>
    intro j k c d hc hd heq hcactive hdactive
    rw [getElem?_set_of_some hcall] at hc hd
    split at hc <;> split at hd
    next hj hk => exact hj.symm.trans hk
    next =>
      obtain rfl := Option.some.inj hc
      rw [hnone k d hd heq.symm] at hdactive
      cases hdactive
    next =>
      obtain rfl := Option.some.inj hd
      rw [hnone j c hc heq] at hcactive
      cases hcactive
    next => exact h.alone j k c d hc hd heq hcactive hdactive

/-- A call that has a lock goes on with it. -/
theorem keep (h : Exclusive held calls) (hcall : calls[i]? = some ⟨id, before⟩)
    (hactive : before.isActive = true) : Exclusive held (calls.set i ⟨id, after⟩) := by
  constructor
  case held =>
    intro j c hc hcactive
    rw [getElem?_set_of_some hcall] at hc
    split at hc
    next =>
      obtain rfl := Option.some.inj hc
      exact h.held i ⟨id, before⟩ hcall hactive
    next => exact h.held j c hc hcactive
  case alone =>
    intro j k c d hc hd heq hcactive hdactive
    rw [getElem?_set_of_some hcall] at hc hd
    split at hc <;> split at hd
    next hj hk => exact hj.symm.trans hk
    next hj _ =>
      obtain rfl := Option.some.inj hc
      exact hj.symm.trans (h.alone i k _ d hcall hd heq hactive hdactive)
    next _ hk =>
      obtain rfl := Option.some.inj hd
      exact (h.alone j i c _ hc hcall heq hcactive hactive).trans hk
    next => exact h.alone j k c d hc hd heq hcactive hdactive

/-- A call that lets its lock go has none. -/
theorem release (h : Exclusive held calls) (hcall : calls[i]? = some ⟨id, before⟩)
    (hactive : before.isActive = true) (hdone : after.isActive = false) :
    Exclusive (held.erase id) (calls.set i ⟨id, after⟩) := by
  have hkept : Exclusive held (calls.set i ⟨id, after⟩) := h.keep hcall hactive
  refine ⟨fun j c hc hcactive => ?_, hkept.alone⟩
  have hheld := hkept.held j c hc hcactive
  rw [getElem?_set_of_some hcall] at hc
  split at hc
  next =>
    obtain rfl := Option.some.inj hc
    rw [hdone] at hcactive
    cases hcactive
  next hj =>
    have hne : c.handle ≠ id := fun heq => hj (h.alone i j _ c hcall hc heq.symm hactive hcactive)
    exact (List.mem_erase_of_ne hne).2 hheld

/-- A call that is made has no lock. -/
theorem concat (h : Exclusive held calls) (hwaiting : before.isActive = false) :
    Exclusive held (calls ++ [⟨id, before⟩]) := by
  have hold : ∀ (j : Nat) (c : UpdateCall), (calls ++ [⟨id, before⟩])[j]? = some c →
      c.stage.isActive = true → calls[j]? = some c := by
    intro j c hc hactive
    refine getElem?_of_concat hc fun heq => ?_
    rw [heq, hwaiting] at hactive
    cases hactive
  exact ⟨fun j c hc hactive => h.held j c (hold j c hc hactive) hactive,
    fun j k c d hc hd heq hcactive hdactive =>
      h.alone j k c d (hold j c hc hcactive) (hold k d hd hdactive) heq hcactive hdactive⟩

/-- Whatever happens next, no two calls have the same lock. -/
theorem step {u : Updates} (h : Exclusive u.held u.calls) (turn : Turn) :
    Exclusive (u.step turn).held (u.step turn).calls := by
  cases turn with
  | proceed i =>
    have hproceeds := u.proceed_cases i
    rw [Updates.step]
    generalize u.proceed i = next at hproceeds ⊢
    cases hproceeds with
    | stay => exact h
    | take hcall hfree => exact h.take hcall hfree
    | read hcall _ => exact h.keep hcall rfl
    | fail hcall => exact h.release hcall rfl rfl
    | swap hcall _ => exact h.keep hcall rfl
    | publish hcall _ => exact h.keep hcall rfl
    | finish hcall => exact h.release hcall rfl rfl
  | change w => exact h
  | disturb i progress =>
    rw [Updates.step, Updates.disturb]
    split
    next hcall => exact h.keep hcall rfl
    next => exact h
  | call id => exact h.concat rfl

end Exclusive

/-! ## The chain of events -/

/-- The events for snapshots that are put in place one after the other, when the fingerprint was
`before`: each carries its snapshot and tells whether the fingerprint changed with it. -/
def chain (root : Path) : (before : Option Fingerprint) → List Snapshot → List RepositoryChanged
  | _, [] => []
  | before, next :: rest =>
    ⟨root, next, before ≠ next.fingerprint⟩ :: chain root next.fingerprint rest

@[simp] theorem length_chain (root : Path) (before : Option Fingerprint) (swaps : List Snapshot) :
    (chain root before swaps).length = swaps.length := by
  induction swaps generalizing before with
  | nil => rfl
  | cons next rest ih => simp [chain, ih]

/-- The event for one more snapshot compares it with the last one. -/
theorem chain_concat (root : Path) (before : Snapshot) (swaps : List Snapshot) (next : Snapshot) :
    chain root before.fingerprint (swaps ++ [next]) =
      chain root before.fingerprint swaps ++
        [⟨root, next, (swaps.getLast?.getD before).changed next⟩] := by
  induction swaps generalizing before with
  | nil => rfl
  | cons first rest ih =>
    rw [List.cons_append, chain, ih, chain, List.getLast?_cons, Option.getD_some, List.cons_append]

/-- What holds of a handle that was `first` when the updates began. -/
structure Chained (id : HandleId) (first : Handle) (u : Updates) : Prop where
  /-- The handle has the snapshot that was last put in place, or its first one. -/
  snapshot : u.tracker.handle? id =
    some { first with snapshot := (ofHandle id u.swaps).getLast?.getD first.snapshot }
  /-- While a call has a snapshot in place that it did not publish, its event is all that is
  missing. -/
  pending : ∀ (i : Nat) (previous next : Snapshot),
    u.calls[i]? = some ⟨id, .swapped previous next⟩ →
      ofHandle id u.events ++ [⟨first.root, next, previous.changed next⟩] =
        chain first.root first.snapshot.fingerprint (ofHandle id u.swaps)
  /-- While there is no such call, there is an event for each snapshot. -/
  settled : (∀ (i : Nat) (previous next : Snapshot),
    u.calls[i]? ≠ some ⟨id, .swapped previous next⟩) →
      ofHandle id u.events = chain first.root first.snapshot.fingerprint (ofHandle id u.swaps)

namespace Chained

variable {id : HandleId} {first : Handle} {u u' : Updates} {i : Nat}

/-- A step of a call that neither puts a snapshot of the handle in place nor publishes it. -/
theorem replace (h : Chained id first u) {c d : UpdateCall} (hcall : u.calls[i]? = some c)
    (hc : ∀ previous next, c ≠ ⟨id, .swapped previous next⟩)
    (hd : ∀ previous next, d ≠ ⟨id, .swapped previous next⟩) (hcalls : u'.calls = u.calls.set i d)
    (hhandle : u'.tracker.handle? id = u.tracker.handle? id)
    (hswaps : ofHandle id u'.swaps = ofHandle id u.swaps)
    (hevents : ofHandle id u'.events = ofHandle id u.events) :
    Chained id first u' := by
  have hsame (j : Nat) (previous next : Snapshot) :
      u'.calls[j]? = some ⟨id, .swapped previous next⟩ ↔
        u.calls[j]? = some ⟨id, .swapped previous next⟩ := by
    rw [hcalls, getElem?_set_of_some hcall]
    split
    next hj =>
      rw [← hj, hcall]
      simp only [Option.some.injEq]
      exact iff_of_false (hd previous next) (hc previous next)
    next => exact Iff.rfl
  constructor
  case snapshot =>
    rw [hhandle, hswaps]
    exact h.snapshot
  case pending =>
    intro j previous next hj
    rw [hevents, hswaps]
    exact h.pending j previous next ((hsame j previous next).1 hj)
  case settled =>
    intro hnone
    rw [hevents, hswaps]
    exact h.settled fun j previous next hj => hnone j previous next ((hsame j previous next).2 hj)

/-- Putting a snapshot in place makes its event the one that is missing. -/
theorem swap (h : Chained id first u) (hexclusive : Exclusive u.held u.calls)
    {progress : Progress} {handle : Handle} {next : Snapshot}
    (hcall : u.calls[i]? = some ⟨id, .reading progress⟩)
    (hhandle : u.tracker.handle? id = some handle) :
    Chained id first (u.swap i id handle next) := by
  -- the call has the lock, so no other call has a snapshot in place
  have hnone : ∀ (j : Nat) (previous next : Snapshot),
      u.calls[j]? ≠ some ⟨id, .swapped previous next⟩ := by
    intro j previous next hj
    obtain rfl := hexclusive.alone i j _ _ hcall hj rfl rfl rfl
    rw [hcall] at hj
    cases hj
  obtain rfl := Option.some.inj (hhandle.symm.trans h.snapshot)
  have hchain : ofHandle id u.events ++
      [⟨first.root, next, ((ofHandle id u.swaps).getLast?.getD first.snapshot).changed next⟩] =
        chain first.root first.snapshot.fingerprint (ofHandle id u.swaps ++ [next]) := by
    rw [h.settled hnone]
    exact (chain_concat first.root first.snapshot _ next).symm
  have hcalls (j : Nat) := getElem?_set_of_some hcall
    ⟨id, .swapped ((ofHandle id u.swaps).getLast?.getD first.snapshot) next⟩ j
  constructor
  case snapshot =>
    rw [Updates.swap, ofHandle_concat_self, List.getLast?_concat]
    exact List.getElem?_set_self (handle?_lt hhandle)
  case pending =>
    intro j previous other hj
    rw [Updates.swap, hcalls] at hj
    rw [Updates.swap, ofHandle_concat_self]
    split at hj
    next =>
      cases hj
      exact hchain
    next => exact absurd hj (hnone j previous other)
  case settled =>
    intro hother
    refine absurd ?_ (hother i ((ofHandle id u.swaps).getLast?.getD first.snapshot) next)
    exact (hcalls i).trans (if_pos rfl)

/-- Publishing the event that is missing completes the chain. -/
theorem publish (h : Chained id first u) (hexclusive : Exclusive u.held u.calls)
    {handle : Handle} {previous next : Snapshot}
    (hcall : u.calls[i]? = some ⟨id, .swapped previous next⟩)
    (hhandle : u.tracker.handle? id = some handle) :
    Chained id first (u.publish i id handle previous next) := by
  have hroot : handle.root = first.root := by
    obtain rfl := Option.some.inj (hhandle.symm.trans h.snapshot)
    rfl
  have hnone : ∀ (j : Nat) (before after : Snapshot),
      (u.publish i id handle previous next).calls[j]? ≠ some ⟨id, .swapped before after⟩ := by
    intro j before after hj
    rw [Updates.publish, getElem?_set_of_some hcall] at hj
    split at hj
    next => cases hj
    next hne => exact hne (hexclusive.alone i j _ _ hcall hj rfl rfl rfl)
  constructor
  case snapshot => exact h.snapshot
  case pending =>
    intro j before after hj
    exact absurd hj (hnone j before after)
  case settled =>
    intro
    rw [Updates.publish, ofHandle_concat_self, hroot]
    exact h.pending i previous next hcall

/-- One more call does nothing yet. -/
theorem call (h : Chained id first u) (other : HandleId) :
    Chained id first (u.step (.call other)) := by
  constructor
  case snapshot => exact h.snapshot
  case pending =>
    intro j previous next hj
    refine h.pending j previous next (getElem?_of_concat hj fun heq => ?_)
    cases heq
  case settled =>
    intro hnone
    refine h.settled fun j previous next hj => hnone j previous next ?_
    exact (List.getElem?_append_left (List.getElem?_eq_some_iff.1 hj).1).trans hj

/-- Whatever a call does next, the events are a chain. -/
theorem proceed (h : Chained id first u) (hexclusive : Exclusive u.held u.calls) (i : Nat) :
    Chained id first (u.proceed i) := by
  have hproceeds := u.proceed_cases i
  generalize u.proceed i = after at hproceeds ⊢
  cases hproceeds with
  | stay => exact h
  | take hcall _ => exact h.replace hcall (by simp) (by simp) rfl rfl rfl rfl
  | read hcall _ => exact h.replace hcall (by simp) (by simp) rfl rfl rfl rfl
  | fail hcall => exact h.replace hcall (by simp) (by simp) rfl rfl rfl rfl
  | finish hcall => exact h.replace hcall (by simp) (by simp) rfl rfl rfl rfl
  | @swap other handle next hcall hhandle =>
    by_cases heq : other = id
    · subst heq
      exact h.swap hexclusive hcall hhandle
    · exact h.replace hcall (by simp) (by simp [heq]) rfl (List.getElem?_set_ne heq)
        (ofHandle_concat_of_ne heq _ _) rfl
  | @publish other handle previous next hcall hhandle =>
    by_cases heq : other = id
    · subst heq
      exact h.publish hexclusive hcall hhandle
    · exact h.replace hcall (by simp [heq]) (by simp) rfl rfl rfl (ofHandle_concat_of_ne heq _ _)

/-- Whatever happens next, the events are a chain. -/
theorem step (h : Chained id first u) (hexclusive : Exclusive u.held u.calls)
    (turn : Turn) : Chained id first (u.step turn) := by
  cases turn with
  | proceed i => exact h.proceed hexclusive i
  | change w => exact ⟨h.snapshot, h.pending, h.settled⟩
  | disturb i progress =>
    rw [Updates.step, Updates.disturb]
    split
    next hcall => exact h.replace hcall (by simp) (by simp) rfl rfl rfl rfl
    next => exact h
  | call other => exact h.call other

/-- At most the event for the last snapshot is missing. -/
theorem missing (h : Chained id first u) :
    ∃ rest, ofHandle id u.events ++ rest =
        chain first.root first.snapshot.fingerprint (ofHandle id u.swaps) ∧
      rest.length ≤ 1 := by
  by_cases hpending : ∃ (i : Nat) (previous next : Snapshot),
      u.calls[i]? = some ⟨id, .swapped previous next⟩
  · obtain ⟨i, previous, next, hcall⟩ := hpending
    exact ⟨_, h.pending i previous next hcall, Nat.le_refl 1⟩
  · refine ⟨[], ?_, Nat.zero_le 1⟩
    rw [List.append_nil]
    exact h.settled fun i previous next hcall => hpending ⟨i, previous, next, hcall⟩

end Chained

/-! ## Runs -/

/-- The bus got the events that were published and no other. -/
theorem bus_step {bus : EventBus} {u : Updates}
    (h : u.tracker.bus = bus.publishAll (u.events.map Prod.snd)) (turn : Turn) :
    (u.step turn).tracker.bus = bus.publishAll ((u.step turn).events.map Prod.snd) := by
  cases turn with
  | proceed i =>
    have hproceeds := u.proceed_cases i
    rw [Updates.step]
    generalize u.proceed i = after at hproceeds ⊢
    cases hproceeds with
    | publish hcall hhandle =>
      rw [Updates.publish, List.map_append, List.map_singleton, EventBus.publishAll_concat, ← h]
    | _ => exact h
  | change w => exact h
  | disturb i progress =>
    rw [Updates.step, Updates.disturb]
    split <;> exact h
  | call id => exact h

theorem bus_run {bus : EventBus} {u : Updates}
    (h : u.tracker.bus = bus.publishAll (u.events.map Prod.snd)) (turns : List Turn) :
    (u.run turns).tracker.bus = bus.publishAll ((u.run turns).events.map Prod.snd) := by
  induction turns generalizing u with
  | nil => exact h
  | cons turn rest ih => exact ih (bus_step h turn)

/-- What holds at any time of the updates of a tracker and of a handle that was `first` when they
began. -/
structure Serialized (id : HandleId) (first : Handle) (u : Updates) : Prop where
  /-- No two calls have the same lock. -/
  exclusive : Exclusive u.held u.calls
  /-- The events of the handle are a chain. -/
  chained : Chained id first u

namespace Serialized

variable {id : HandleId} {first : Handle} {u : Updates}

theorem start {k : Tracker} (hfirst : k.handle? id = some first) (w : World) :
    Serialized id first (.start k w) := by
  refine ⟨.nil, hfirst, fun i previous next hcall => ?_, fun _ => rfl⟩
  rw [Updates.start, List.getElem?_nil] at hcall
  cases hcall

theorem step (h : Serialized id first u) (turn : Turn) :
    Serialized id first (u.step turn) :=
  ⟨h.exclusive.step turn, h.chained.step h.exclusive turn⟩

theorem run (h : Serialized id first u) (turns : List Turn) :
    Serialized id first (u.run turns) := by
  induction turns generalizing u with
  | nil => exact h
  | cons turn rest ih => exact ih (h.step turn)

end Serialized

/-- Updates of any handles are under way, with anything happening to the stores. At any time the
events published for a handle that was new are a chain: one for each snapshot in the order in which
these were put in place, where the last one may be missing, and none is missing while no call has
the lock of the handle. No two calls read for the handle at the same time, and its snapshot is the
stale one or the last one that was put in place. The bus got exactly the events that were published,
and a subscriber is handed these after what it had not received before. -/
theorem updates_serialized (k : Tracker) (w : World) (turns : List Turn) (id : HandleId) (l : Layout)
    (store : StoreKind) (options : CatalogOptions)
    (hnew : k.handle? id = some ⟨l, store, options, .stale l⟩) :
    let u := (Updates.start k w).run turns
    let swaps := ofHandle id u.swaps
    let events := ofHandle id u.events
    events <+: chain l.workDir none swaps ∧ swaps.length ≤ events.length + 1 ∧
      ((∀ c ∈ u.calls, c.handle = id → c.stage.isActive = false) →
        events = chain l.workDir none swaps) ∧
      (∀ (i j : Nat) (p q : Progress), u.calls[i]? = some ⟨id, .reading p⟩ →
        u.calls[j]? = some ⟨id, .reading q⟩ → i = j) ∧
      u.tracker.handle? id = some ⟨l, store, options, swaps.getLast?.getD (.stale l)⟩ ∧
      u.tracker.bus = k.bus.publishAll (u.events.map Prod.snd) ∧
      ∀ log, k.bus.Logs log → ∀ subscriber position,
        k.bus.positions.find? subscriber = some position →
          (u.tracker.bus.drain subscriber).1 =
            EventBus.handed k.bus.capacity (log ++ u.events.map Prod.snd) position := by
  intro u swaps events
  have h : Serialized id ⟨l, store, options, .stale l⟩ u :=
    (Serialized.start hnew w).run turns
  obtain ⟨rest, hrest, hlength⟩ := h.chained.missing
  have hbus : u.tracker.bus = k.bus.publishAll (u.events.map Prod.snd) := bus_run rfl turns
  refine ⟨⟨rest, hrest⟩, ?_, fun hidle => ?_, fun i j p q hi hj => ?_, h.chained.snapshot, hbus,
    fun log hlog subscriber position hposition => ?_⟩
  · have hlengths := congrArg List.length hrest
    rw [List.length_append, length_chain] at hlengths
    change (ofHandle id u.swaps).length ≤ (ofHandle id u.events).length + 1
    omega
  · refine h.chained.settled fun i previous next hcall => ?_
    have hactive := hidle _ (List.mem_of_getElem? hcall) rfl
    cases hactive
  · exact h.exclusive.alone i j _ _ hi hj rfl rfl rfl
  · rw [hbus]
    exact hlog.drain_publishAll hposition _

/-- A tracker that has the clone with one commit registered, and a subscriber. -/
def cloneTracker : Tracker :=
  let k := ((create ⟨[.memory]⟩ ⟨.memory, 4⟩).register ⟨.empty, .committed⟩ ⟨"/r"⟩).2.1
  { k with bus := k.bus.subscribe.2 }

/-- Two updates of the clone: the second one asks for the lock while the first one reads, and a
commit is made before the first one publishes. -/
def overlapping : List Turn :=
  [.call 0, .call 0, .proceed 0, .proceed 1, .proceed 0, .proceed 0, .proceed 0, .proceed 1,
    .proceed 0, .change ⟨.empty, MemoryStore.committed.perform (.commit ⟨"/r"⟩)⟩, .proceed 1,
    .proceed 0, .proceed 0] ++ List.replicate 7 (.proceed 1)

/-- The second of the two updates waits for the first one, both publish, and the subscriber is
handed both events. -/
theorem overlapping_serialized :
    let u := (Updates.start cloneTracker ⟨.empty, .committed⟩).run overlapping
    cloneTracker.handle? 0 = some ⟨cloneLayout, .memory, .unrestricted, .stale cloneLayout⟩ ∧
      (ofHandle 0 u.swaps).length = 2 ∧
      ofHandle 0 u.events = chain ⟨"/r"⟩ none (ofHandle 0 u.swaps) ∧
      (u.tracker.bus.drain 0).1 = (u.events.map Prod.snd).map .event := by
  intro u
  have hnew : cloneTracker.handle? 0 =
      some ⟨cloneLayout, .memory, .unrestricted, .stale cloneLayout⟩ := by
    decide +kernel
  have hidle : ∀ c ∈ u.calls, c.handle = 0 → c.stage.isActive = false := by
    decide +kernel
  have hlog : cloneTracker.bus.Logs [] := (EventBus.logs_create 4).subscribe
  have hroom : (u.events.map Prod.snd).length ≤ cloneTracker.bus.capacity := by
    decide +kernel
  obtain ⟨-, -, hchain, -, -, -, hhanded⟩ :=
    updates_serialized cloneTracker ⟨.empty, .committed⟩ overlapping 0 _ _ _ hnew
  refine ⟨hnew, by decide +kernel, hchain hidle, ?_⟩
  exact (hhanded [] hlog 0 0 (by decide +kernel)).trans (EventBus.handed_append hroom)

end WorktreeTracker.Tracker
