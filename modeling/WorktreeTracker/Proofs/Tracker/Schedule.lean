import WorktreeTracker.Proofs.Tracker.Origin
import WorktreeTracker.Proofs.Tracker.Updates

/-!
# Updates of several handles in any order

Every handle of a list is updated once, and the stores stay as they are meanwhile. The updates are
under way at the same time and take their steps in any order. What each of them reads, puts in place
and publishes does not depend on the order: it is what the update gives on its own. Only the order
of the events and of the results is that of the schedule.
-/

namespace WorktreeTracker

/-! ## Reading stores that stay as they are -/

namespace Progress

variable {kind : StoreKind} {l : Layout} {options : CatalogOptions} {w w' : World}

/-- What the reads that are left of a refresh lead to when the stores stay as they are. -/
def result (kind : StoreKind) (l : Layout) (options : CatalogOptions) (w : World) :
    Progress → Except TrackError Snapshot
  | .begun => (readSnapshot kind w l options).1
  | .headRead head => do
    let listing ← (readListing kind w l).1
    let branches ← Catalog.build options l.workDir listing
    let state ← (resolveState kind w l).1
    return .fresh l branches head state listing.remotes
  | .listed head branches remotes => do
    let state ← (resolveState kind w l).1
    return .fresh l branches head state remotes
  | .ended result => result

/-- A read changes nothing but the record of reads. -/
theorem advance_read (progress : Progress) : w.Read (progress.advance kind l options w).2 := by
  cases progress with
  | begun =>
    have hhead := (resolveHead_read kind w l).toRead
    rw [advance]
    rcases hread : resolveHead kind w l with ⟨_ | head, w₁⟩ <;> rw [hread] at hhead <;> exact hhead
  | headRead head =>
    have hlisting := (readListing_read kind w l).toRead
    rw [advance]
    rcases hread : readListing kind w l with ⟨_ | listing, w₁⟩ <;> rw [hread] at hlisting
    · exact hlisting
    · dsimp only
      cases Catalog.build options l.workDir listing <;> exact hlisting
  | listed head branches remotes =>
    have hstate := (resolveState_read kind w l).toRead
    rw [advance]
    rcases hread : resolveState kind w l with ⟨_ | state, w₁⟩ <;> rw [hread] at hstate <;>
      exact hstate
  | ended result => exact .refl w

/-- A read does not change what the reads lead to. -/
theorem result_advance (h : w.Read w') (progress : Progress) :
    (progress.advance kind l options w').1.result kind l options w =
      progress.result kind l options w := by
  cases progress with
  | begun =>
    rw [result, readSnapshot_eq, ← resolveHead_of_read h, advance]
    rcases resolveHead kind w' l with ⟨_ | head, w₁⟩ <;> rfl
  | headRead head =>
    rw [result, ← readListing_of_read h, advance]
    rcases readListing kind w' l with ⟨_ | listing, w₁⟩
    · rfl
    · dsimp only [bind, Except.bind]
      cases Catalog.build options l.workDir listing <;> rfl
  | listed head branches remotes =>
    rw [result, ← resolveState_of_read h, advance]
    rcases resolveState kind w' l with ⟨_ | state, w₁⟩ <;> rfl
  | ended result => rfl

/-- The number of steps that a call has taken when it is in the middle of its reads, where the steps
that a failure saves count as taken. -/
def rank : Progress → Nat
  | .begun => 1
  | .headRead _ => 2
  | .listed _ _ _ => 3
  | .ended _ => 4

theorem rank_advance (progress : Progress) (h : ∀ result, progress ≠ .ended result) :
    progress.rank < (progress.advance kind l options w).1.rank := by
  cases progress with
  | begun =>
    rw [advance]
    rcases resolveHead kind w l with ⟨_ | head, w₁⟩ <;> simp [rank]
  | headRead head =>
    rw [advance]
    rcases readListing kind w l with ⟨_ | listing, w₁⟩
    · simp [rank]
    · dsimp only
      cases Catalog.build options l.workDir listing <;> simp [rank]
  | listed head branches remotes =>
    rw [advance]
    rcases resolveState kind w l with ⟨_ | state, w₁⟩ <;> simp [rank]
  | ended result => exact absurd rfl (h result)

end Progress

namespace Handle

/-- What reading the root of a handle gives. -/
def read (handle : Handle) (w : World) : Except TrackError Snapshot :=
  (readSnapshot handle.store w handle.layout handle.options).1

/-- The handle after an update. -/
def refreshed (handle : Handle) (w : World) : Handle :=
  { handle with snapshot := (handle.read w).toOption.getD handle.snapshot }

/-- The event that an update of the handle publishes. -/
def event? (handle : Handle) (w : World) : Option RepositoryChanged :=
  (handle.read w).toOption.map (Tracker.eventFor handle)

end Handle

namespace Tracker

/-! ## Steps of a call -/

/-- The number of steps that a call has taken, where the steps that a failure saves count as
taken. -/
def Stage.rank : Stage → Nat
  | .waiting => 0
  | .reading progress => progress.rank
  | .swapped _ _ => 5
  | .published _ => 6
  | .returned _ => 7

theorem Stage.eq_returned (stage : Stage) (h : 7 ≤ stage.rank) :
    ∃ result, stage = .returned result := by
  cases stage with
  | waiting => cases h
  | reading progress =>
    have hless : progress.rank ≤ 4 := by cases progress <;> simp [Progress.rank]
    simp only [Stage.rank] at h
    omega
  | swapped previous next => exact absurd h (by simp [Stage.rank])
  | published next => exact absurd h (by simp [Stage.rank])
  | returned result => exact ⟨result, rfl⟩

/-- Where the only call for a handle, which was `first` when the call was made, has come to when the
stores stay as they are: what it did so far is what an update on its own does. -/
def OnCourse (w : World) (id : HandleId) (first : Handle) (u : Updates) : Stage → Prop
  | .waiting => id ∉ u.held ∧ ofHandle id u.swaps = [] ∧ ofHandle id u.results = []
  | .reading progress =>
    progress.result first.store first.layout first.options w = first.read w ∧
      ofHandle id u.swaps = [] ∧ ofHandle id u.results = []
  | .swapped _ next =>
    first.read w = .ok next ∧ ofHandle id u.swaps = [next] ∧ ofHandle id u.results = []
  | .published next =>
    first.read w = .ok next ∧ ofHandle id u.swaps = [next] ∧ ofHandle id u.results = []
  | .returned result =>
    first.read w = result ∧ ofHandle id u.swaps = result.toOption.toList ∧
      ofHandle id u.results = [result]

/-- The call `i` is the only one for a handle, is on its course and has taken `n` steps, or is
over. -/
structure Steady (w : World) (id : HandleId) (first : Handle) (i n : Nat) (u : Updates) : Prop where
  /-- No other call is for the handle. -/
  alone : ∀ (j : Nat) (c : UpdateCall), u.calls[j]? = some c → c.handle = id → j = i
  /-- The call is on its course. -/
  course : ∃ stage, u.calls[i]? = some ⟨id, stage⟩ ∧ min n 7 ≤ stage.rank ∧
    OnCourse w id first u stage

namespace Steady

variable {w : World} {id : HandleId} {first : Handle} {i n : Nat} {u u' : Updates}

/-- Whether a call is the only one for a handle does not depend on how far it has come. -/
theorem alone_set (h : Steady w id first i n u) {j : Nat} {other : HandleId} {before : Stage}
    (hcall : u.calls[j]? = some ⟨other, before⟩) (after : Stage) :
    ∀ (m : Nat) (c : UpdateCall), (u.calls.set j ⟨other, after⟩)[m]? = some c → c.handle = id →
      m = i := by
  intro m c hc heq
  rw [getElem?_set_of_some hcall] at hc
  split at hc
  next hm =>
    obtain rfl := Option.some.inj hc
    rw [← hm]
    exact h.alone j _ hcall heq
  next => exact h.alone m c hc heq

/-- The call takes a step to another stage. -/
theorem advance (h : Steady w id first i n u) {before after : Stage}
    (hcall : u.calls[i]? = some ⟨id, before⟩) (hcalls : u'.calls = u.calls.set i ⟨id, after⟩)
    (hrank : min (n + 1) 7 ≤ after.rank) (hcourse : OnCourse w id first u' after) :
    Steady w id first i (n + 1) u' := by
  refine ⟨?_, after, ?_, hrank, hcourse⟩
  · rw [hcalls]
    exact h.alone_set hcall after
  · rw [hcalls, getElem?_set_of_some hcall, if_pos rfl]

/-- Another call takes a step. -/
theorem frame (h : Steady w id first i n u) {j : Nat} {other : HandleId} {before after : Stage}
    (hj : j ≠ i) (hcall : u.calls[j]? = some ⟨other, before⟩)
    (hcalls : u'.calls = u.calls.set j ⟨other, after⟩) (hheld : id ∉ u.held → id ∉ u'.held)
    (hswaps : ofHandle id u'.swaps = ofHandle id u.swaps)
    (hresults : ofHandle id u'.results = ofHandle id u.results) : Steady w id first i n u' := by
  obtain ⟨stage, hstage, hrank, hcourse⟩ := h.course
  refine ⟨?_, stage, ?_, hrank, ?_⟩
  · rw [hcalls]
    exact h.alone_set hcall after
  · rw [hcalls, getElem?_set_of_some hcall, if_neg hj]
    exact hstage
  · cases stage with
    | waiting =>
      rw [OnCourse, hswaps, hresults]
      exact hcourse.imp_left hheld
    | _ =>
      rw [OnCourse, hswaps, hresults]
      exact hcourse

/-- A read of the call. -/
theorem read (h : Steady w id first i n u) (hread : w.Read u.world) {current : Handle}
    (hcurrent : current = { first with snapshot := current.snapshot }) {progress : Progress}
    (hcall : u.calls[i]? = some ⟨id, .reading progress⟩)
    (hprogress : ∀ result, progress ≠ .ended result) (hrank : min n 7 ≤ progress.rank)
    (hcourse : OnCourse w id first u (.reading progress)) :
    Steady w id first i (n + 1) (u.read i id current progress) := by
  obtain ⟨hresult, hswaps, hresults⟩ := hcourse
  have hless : progress.rank <
      (progress.advance current.store current.layout current.options u.world).1.rank :=
    progress.rank_advance hprogress
  refine h.advance hcall rfl ?_ ⟨?_, hswaps, hresults⟩
  · change min (n + 1) 7 ≤
      (progress.advance current.store current.layout current.options u.world).1.rank
    omega
  · rw [hcurrent]
    exact (Progress.result_advance hread progress).trans hresult

/-- A step of the call. -/
theorem proceed_self (h : Steady w id first i n u) (hread : w.Read u.world)
    (hchained : Chained id first u) : Steady w id first i (n + 1) (u.proceed i) := by
  obtain ⟨stage, hcall, hrank, hcourse⟩ := h.course
  rw [Updates.proceed_eq hcall hchained.snapshot]
  cases stage with
  | waiting =>
    obtain ⟨hfree, hswaps, hresults⟩ := hcourse
    rw [Updates.act, if_neg hfree]
    refine h.advance hcall rfl ?_ ⟨rfl, hswaps, hresults⟩
    simp only [Stage.rank, Progress.rank] at hrank ⊢
    omega
  | reading progress =>
    obtain ⟨hresult, hswaps, hresults⟩ := hcourse
    simp only [Stage.rank] at hrank
    cases progress with
    | begun => exact h.read hread rfl hcall (by simp) hrank ⟨hresult, hswaps, hresults⟩
    | headRead head => exact h.read hread rfl hcall (by simp) hrank ⟨hresult, hswaps, hresults⟩
    | listed head branches remotes =>
      exact h.read hread rfl hcall (by simp) hrank ⟨hresult, hswaps, hresults⟩
    | ended result =>
      cases result with
      | error e =>
        refine h.advance hcall rfl (Nat.min_le_right _ _) ⟨hresult.symm, hswaps, ?_⟩
        simp [Updates.act, Updates.finish, hresults]
      | ok next =>
        refine h.advance hcall rfl ?_ ⟨hresult.symm, ?_, hresults⟩
        · simp only [Stage.rank, Progress.rank] at hrank ⊢
          omega
        · simp [Updates.act, Updates.swap, hswaps]
  | swapped previous next =>
    obtain ⟨hresult, hswaps, hresults⟩ := hcourse
    refine h.advance hcall rfl ?_ ⟨hresult, hswaps, hresults⟩
    simp only [Stage.rank] at hrank ⊢
    omega
  | published next =>
    obtain ⟨hresult, hswaps, hresults⟩ := hcourse
    refine h.advance hcall rfl (Nat.min_le_right _ _) ⟨hresult, hswaps, ?_⟩
    simp [Updates.act, Updates.finish, hresults]
  | returned result =>
    exact ⟨h.alone, _, hcall, Nat.min_le_right _ _, hcourse⟩

/-- A step of another call. -/
theorem proceed_other (h : Steady w id first i n u) {j : Nat} (hj : j ≠ i) :
    Steady w id first i n (u.proceed j) := by
  have hother {other : HandleId} {stage : Stage} (hcall : u.calls[j]? = some ⟨other, stage⟩) :
      other ≠ id := fun heq => hj (h.alone j _ hcall heq)
  have hproceeds := u.proceed_cases j
  generalize u.proceed j = after at hproceeds ⊢
  cases hproceeds with
  | stay => exact h
  | take hcall _ =>
    refine h.frame hj hcall rfl (fun hheld hmem => ?_) rfl rfl
    exact (List.mem_cons.1 hmem).elim (fun heq => hother hcall heq.symm) hheld
  | read hcall _ => exact h.frame hj hcall rfl (fun hheld => hheld) rfl rfl
  | fail hcall =>
    exact h.frame hj hcall rfl (fun hheld hmem => hheld (List.mem_of_mem_erase hmem)) rfl
      (ofHandle_concat_of_ne (hother hcall) _ _)
  | swap hcall _ =>
    exact h.frame hj hcall rfl (fun hheld => hheld) (ofHandle_concat_of_ne (hother hcall) _ _) rfl
  | publish hcall _ => exact h.frame hj hcall rfl (fun hheld => hheld) rfl rfl
  | finish hcall =>
    exact h.frame hj hcall rfl (fun hheld hmem => hheld (List.mem_of_mem_erase hmem)) rfl
      (ofHandle_concat_of_ne (hother hcall) _ _)

end Steady

/-! ## Schedules -/

/-- The stores stay as they are while calls take their steps. -/
theorem read_proceed {w : World} {u : Updates} (h : w.Read u.world) (i : Nat) :
    w.Read (u.proceed i).world := by
  have hproceeds := u.proceed_cases i
  generalize u.proceed i = after at hproceeds ⊢
  cases hproceeds with
  | @read id handle progress _ _ => exact h.trans progress.advance_read
  | _ => exact h

/-- A call that takes its steps in any order with others is on its course. -/
theorem Steady.run {w : World} {id : HandleId} {first : Handle} {i n : Nat}
    {u : Updates} (h : Steady w id first i n u) (hread : w.Read u.world)
    (hserialized : Serialized id first u) (order : List Nat) :
    Steady w id first i (n + order.count i) (u.run (order.map .proceed)) := by
  induction order generalizing u n with
  | nil => exact h
  | cons j rest ih =>
    have hnext := hserialized.step (.proceed j)
    by_cases hj : j = i
    · subst hj
      have hrest := ih (h.proceed_self hread hserialized.chained) (read_proceed hread j) hnext
      rw [List.count_cons_self, Nat.add_comm (rest.count j), ← Nat.add_assoc]
      exact hrest
    · rw [List.count_cons_of_ne hj]
      exact ih (h.proceed_other hj) (read_proceed hread j) hnext

/-- Nothing concerns a handle. -/
structure Idle (id : HandleId) (u : Updates) : Prop where
  /-- No call is for the handle. -/
  calls : ∀ (i : Nat) (c : UpdateCall), u.calls[i]? = some c → c.handle ≠ id
  /-- No snapshot was put in place for it. -/
  swaps : ofHandle id u.swaps = []
  /-- No event was published for it. -/
  events : ofHandle id u.events = []
  /-- No call for it is over. -/
  results : ofHandle id u.results = []

namespace Idle

variable {id : HandleId} {u u' : Updates}

/-- The step of a call for another handle. -/
theorem frame (h : Idle id u) {i : Nat} {other : HandleId} {before after : Stage}
    (hcall : u.calls[i]? = some ⟨other, before⟩) (hcalls : u'.calls = u.calls.set i ⟨other, after⟩)
    (hswaps : ofHandle id u'.swaps = ofHandle id u.swaps)
    (hevents : ofHandle id u'.events = ofHandle id u.events)
    (hresults : ofHandle id u'.results = ofHandle id u.results) : Idle id u' := by
  refine ⟨fun j c hc => ?_, hswaps.trans h.swaps, hevents.trans h.events,
    hresults.trans h.results⟩
  rw [hcalls, getElem?_set_of_some hcall] at hc
  split at hc
  next =>
    obtain rfl := Option.some.inj hc
    exact h.calls i ⟨other, before⟩ hcall
  next => exact h.calls j c hc

theorem proceed (h : Idle id u) (i : Nat) : Idle id (u.proceed i) := by
  have hother {other : HandleId} {stage : Stage} (hcall : u.calls[i]? = some ⟨other, stage⟩) :
      other ≠ id := h.calls i _ hcall
  have hproceeds := u.proceed_cases i
  generalize u.proceed i = after at hproceeds ⊢
  cases hproceeds with
  | stay => exact h
  | take hcall _ => exact h.frame hcall rfl rfl rfl rfl
  | read hcall _ => exact h.frame hcall rfl rfl rfl rfl
  | fail hcall => exact h.frame hcall rfl rfl rfl (ofHandle_concat_of_ne (hother hcall) _ _)
  | swap hcall _ => exact h.frame hcall rfl (ofHandle_concat_of_ne (hother hcall) _ _) rfl rfl
  | publish hcall _ => exact h.frame hcall rfl rfl (ofHandle_concat_of_ne (hother hcall) _ _) rfl
  | finish hcall => exact h.frame hcall rfl rfl rfl (ofHandle_concat_of_ne (hother hcall) _ _)

theorem run (h : Idle id u) (order : List Nat) : Idle id (u.run (order.map .proceed)) := by
  induction order generalizing u with
  | nil => exact h
  | cons i rest ih => exact ih (h.proceed i)

end Idle

/-- A step does not change what handle a call is for. -/
theorem handles_proceed (u : Updates) (i : Nat) :
    (u.proceed i).calls.map UpdateCall.handle = u.calls.map UpdateCall.handle := by
  have hset {other : HandleId} {before : Stage} (hcall : u.calls[i]? = some ⟨other, before⟩)
      (after : Stage) : (u.calls.set i ⟨other, after⟩).map UpdateCall.handle =
        u.calls.map UpdateCall.handle := by
    have hget : (u.calls.map UpdateCall.handle)[i]? = some other := by
      rw [List.getElem?_map, hcall]
      rfl
    rw [List.map_set]
    refine List.ext_getElem? fun j => ?_
    rw [getElem?_set_of_some hget]
    split
    next hj => rw [← hj, hget]
    next => rfl
  have hproceeds := u.proceed_cases i
  generalize u.proceed i = after at hproceeds ⊢
  cases hproceeds with
  | stay => rfl
  | take hcall _ => exact hset hcall _
  | read hcall _ => exact hset hcall _
  | fail hcall => exact hset hcall _
  | swap hcall _ => exact hset hcall _
  | publish hcall _ => exact hset hcall _
  | finish hcall => exact hset hcall _

/-- Calls that take their steps change nothing of the tracker but snapshots and the bus. -/
theorem refreshed_run (u : Updates) (order : List Nat) :
    Refreshed u.tracker (u.run (order.map .proceed)).tracker ∧
      (u.run (order.map .proceed)).tracker.registered = u.tracker.registered := by
  induction order generalizing u with
  | nil => exact ⟨.refl _, rfl⟩
  | cons i rest ih =>
    obtain ⟨hrest, hregistered⟩ := ih (u.proceed i)
    have hproceeds := u.proceed_cases i
    have hstep : Refreshed u.tracker (u.proceed i).tracker ∧
        (u.proceed i).tracker.registered = u.tracker.registered := by
      generalize u.proceed i = after at hproceeds ⊢
      cases hproceeds with
      | swap hcall hhandle =>
        obtain ⟨hstores, hsettings, hlength, hhandles⟩ := Refreshed.commit hhandle _
        exact ⟨⟨hstores, hsettings, hlength, hhandles⟩, rfl⟩
      | publish hcall hhandle =>
        obtain ⟨hstores, hsettings, hlength, hhandles⟩ := Refreshed.refl u.tracker
        exact ⟨⟨hstores, hsettings, hlength, hhandles⟩, rfl⟩
      | _ => exact ⟨.refl _, rfl⟩
    exact ⟨hstep.1.trans hrest, hregistered.trans hstep.2⟩

/-! ## What concerns a handle -/

/-- The members of a list that concern a handle are counted in the whole list. -/
theorem count_ofHandle {α : Type} [DecidableEq α] (id : HandleId) (a : α)
    (log : List (HandleId × α)) : (ofHandle id log).count a = log.count (id, a) := by
  induction log with
  | nil => rfl
  | cons entry rest ih =>
    obtain ⟨other, b⟩ := entry
    have hcons : ofHandle id ((other, b) :: rest) =
        if other = id then b :: ofHandle id rest else ofHandle id rest := by
      unfold ofHandle
      by_cases h : other = id <;> simp [h]
    rw [hcons, List.count_cons, ← ih]
    by_cases h : other = id
    · subst h
      simp [List.count_cons]
    · simp [h]

/-- Two lists in which the same concerns every handle have the same members. -/
theorem perm_of_ofHandle {α : Type} {log log' : List (HandleId × α)}
    (h : ∀ id, ofHandle id log = ofHandle id log') : log.Perm log' := by
  classical
  refine List.perm_iff_count.2 fun entry => ?_
  rw [← count_ofHandle entry.1 entry.2, h, count_ofHandle]

/-- In a list with one member for each of several handles, that member concerns the handle. -/
theorem ofHandle_filterMap {α : Type} {ids : List HandleId} (hids : ids.Nodup)
    (f : HandleId → Option α) (id : HandleId) :
    ofHandle id (ids.filterMap fun other => (f other).map (other, ·)) =
      if id ∈ ids then (f id).toList else [] := by
  induction ids with
  | nil => rfl
  | cons first rest ih =>
    obtain ⟨hfirst, hrest⟩ := List.nodup_cons.1 hids
    have hsplit : (first :: rest).filterMap (fun other => (f other).map (other, ·)) =
        ((f first).map (first, ·)).toList ++
          rest.filterMap fun other => (f other).map (other, ·) := by
      rw [List.filterMap_cons]
      cases f first <;> rfl
    rw [hsplit, ofHandle, List.filterMap_append, ← ofHandle, ← ofHandle, ih hrest]
    by_cases hid : id = first
    · subst hid
      rw [if_neg hfirst, if_pos List.mem_cons_self, List.append_nil]
      cases f id <;> simp [ofHandle]
    · have hmem : id ∈ first :: rest ↔ id ∈ rest := by simp [hid]
      simp only [hmem]
      cases f first <;> simp [ofHandle, Ne.symm hid]

/-! ## The end of a schedule -/

/-- Every handle of a list is updated once. The steps are taken in the given order, in which the
updates go by their places in the list. -/
def scheduled (k : Tracker) (w : World) (ids : List HandleId) (order : List Nat) : Updates :=
  (Updates.start k w).run (ids.map .call ++ order.map .proceed)

/-- Every call has returned. -/
def Updates.Over (u : Updates) : Prop :=
  ∀ c ∈ u.calls, ∃ result, c.stage = .returned result

/-- An order in which every one of the given updates gets to take its steps. -/
def Complete (ids : List HandleId) (order : List Nat) : Prop :=
  ∀ i < ids.length, 7 ≤ order.count i

instance (ids : List HandleId) (order : List Nat) : Decidable (Complete ids order) :=
  inferInstanceAs (Decidable (∀ i < ids.length, 7 ≤ order.count i))

/-- The calls of a schedule before they take their steps. -/
def awaiting (k : Tracker) (w : World) (ids : List HandleId) : Updates :=
  ⟨k, w, [], ids.map (⟨·, .waiting⟩), [], [], []⟩

theorem run_calls (k : Tracker) (w : World) (ids : List HandleId) :
    (Updates.start k w).run (ids.map .call) = awaiting k w ids := by
  have hcalls (u : Updates) : u.run (ids.map .call) =
      { u with calls := u.calls ++ ids.map (⟨·, .waiting⟩) } := by
    induction ids generalizing u with
    | nil => simp [Updates.run]
    | cons id rest ih =>
      have hrest := ih (u.step (.call id))
      simpa [Updates.run, Updates.step] using hrest
  rw [hcalls]
  rfl

theorem scheduled_eq (k : Tracker) (w : World) (ids : List HandleId) (order : List Nat) :
    scheduled k w ids order = (awaiting k w ids).run (order.map .proceed) := by
  rw [scheduled, Updates.run_append, run_calls]

/-- How a tracker is left by updates of the given handles, one for each, in whatever order: what an
update of a handle gives on its own is the result of the call for it, it is in place, and its event
is published. -/
structure Settled (k : Tracker) (w : World) (ids : List HandleId) (u : Updates) : Prop where
  /-- There is one result for each handle. -/
  results : u.results.Perm
    (ids.filterMap fun id => ((k.handle? id).map (·.read w)).map (id, ·))
  /-- There is one event for each update that was successful. -/
  events : u.events.Perm (ids.filterMap fun id => ((k.handle? id).bind (·.event? w)).map (id, ·))
  /-- The handles are updated, and no other is changed. -/
  handles : ∀ id, u.tracker.handle? id =
    (k.handle? id).map fun handle => if id ∈ ids then handle.refreshed w else handle
  /-- The bus got the events. -/
  bus : u.tracker.bus = k.bus.publishAll (u.events.map Prod.snd)
  /-- Nothing else of the tracker is changed. -/
  refreshed : Refreshed k u.tracker
  /-- Nor are the registrations. -/
  registered : u.tracker.registered = k.registered

section Settled

variable {k : Tracker} {w : World} {ids : List HandleId} {order : List Nat}

/-- The calls of a schedule are for the handles of the list. -/
theorem calls_scheduled (k : Tracker) (w : World) (ids : List HandleId) (order : List Nat) :
    (scheduled k w ids order).calls.map UpdateCall.handle = ids := by
  have hrun (u : Updates) : (u.run (order.map .proceed)).calls.map UpdateCall.handle =
      u.calls.map UpdateCall.handle := by
    induction order generalizing u with
    | nil => rfl
    | cons i rest ih => exact (ih (u.proceed i)).trans (handles_proceed u i)
  rw [scheduled_eq, hrun, awaiting, List.map_map]
  exact List.map_id ids

/-- The call at a place of the list is on its course, as far as it got to take its steps. -/
theorem steady_scheduled (hids : ids.Nodup) {i : Nat} {id : HandleId} (hi : ids[i]? = some id)
    {first : Handle} (hfirst : k.handle? id = some first) :
    Steady w id first i (order.count i) (scheduled k w ids order) := by
  have hserialized : Serialized id first (awaiting k w ids) := by
    rw [← run_calls]
    exact (Serialized.start hfirst w).run _
  have hwaiting : Steady w id first i 0 (awaiting k w ids) := by
    refine ⟨fun j c hc heq => ?_, .waiting, ?_, Nat.zero_le _, List.not_mem_nil, rfl, rfl⟩
    · rw [awaiting, List.getElem?_map, Option.map_eq_some_iff] at hc
      obtain ⟨other, hother, rfl⟩ := hc
      exact (List.getElem?_inj (List.getElem?_eq_some_iff.1 hother).1 hids).1
        (hother.trans ((congrArg some heq).trans hi.symm))
    · rw [awaiting, List.getElem?_map, hi]
      rfl
  have hsteady := hwaiting.run (.refl w) hserialized order
  rwa [Nat.zero_add, ← scheduled_eq] at hsteady

/-- Every call returns when it gets to take its steps, whatever the others do in between. -/
theorem over_of_complete (hids : ids.Nodup) (hmade : ∀ id ∈ ids, id < k.handles.length)
    (hcomplete : Complete ids order) : (scheduled k w ids order).Over := by
  intro c hc
  obtain ⟨i, hi⟩ := List.mem_iff_getElem?.1 hc
  have hid : ids[i]? = some c.handle := by
    rw [← calls_scheduled k w ids order, List.getElem?_map, hi]
    rfl
  obtain ⟨first, hfirst⟩ : ∃ first, k.handle? c.handle = some first :=
    ⟨_, List.getElem?_eq_getElem (hmade _ (List.mem_of_getElem? hid))⟩
  have hsteady : Steady w c.handle first i (order.count i) (scheduled k w ids order) :=
    steady_scheduled hids hid hfirst
  obtain ⟨stage, hcall, hrank, -⟩ := hsteady.course
  have hsteps := hcomplete i (List.getElem?_eq_some_iff.1 hid).1
  rw [Option.some.inj (hi.symm.trans hcall)]
  exact stage.eq_returned (by omega)

/-- At the end of a schedule the call at a place of the list did what an update of its handle
does. -/
theorem scheduled_of_getElem? (hids : ids.Nodup) (hover : (scheduled k w ids order).Over) {i : Nat}
    {id : HandleId} (hi : ids[i]? = some id) {first : Handle} (hfirst : k.handle? id = some first) :
    let u := scheduled k w ids order
    ofHandle id u.results = [first.read w] ∧
      ofHandle id u.events = (first.event? w).toList ∧
      u.tracker.handle? id = some (first.refreshed w) := by
  intro u
  have hsteady : Steady w id first i (order.count i) u := steady_scheduled hids hi hfirst
  have hchained : Chained id first u := ((Serialized.start hfirst w).run _).chained
  obtain ⟨stage, hcall, -, hcourse⟩ := hsteady.course
  obtain ⟨result, rfl⟩ : ∃ result, stage = .returned result :=
    hover _ (List.mem_of_getElem? hcall)
  obtain ⟨hresult, hswaps, hresults⟩ := hcourse
  have hevents := hchained.settled fun j previous next hj => by
    obtain rfl := hsteady.alone j _ hj rfl
    rw [hcall] at hj
    cases hj
  have hhandle := hchained.snapshot
  rw [hswaps] at hevents hhandle
  rw [Handle.refreshed, Handle.event?, hresult]
  cases result with
  | error e => exact ⟨hresults, hevents, hhandle⟩
  | ok next => exact ⟨hresults, hevents, hhandle⟩

/-- Nothing concerns a handle that is not in the list. -/
theorem scheduled_of_not_mem {id : HandleId} (hid : id ∉ ids) :
    Idle id (scheduled k w ids order) := by
  rw [scheduled_eq]
  refine Idle.run ⟨fun i c hc heq => ?_, rfl, rfl, rfl⟩ order
  rw [awaiting, List.getElem?_map, Option.map_eq_some_iff] at hc
  obtain ⟨other, hother, rfl⟩ := hc
  obtain rfl : other = id := heq
  exact hid (List.mem_of_getElem? hother)

/-- Whatever the order, the handles of the list are settled when every call has returned. -/
theorem settled_scheduled (hids : ids.Nodup) (hmade : ∀ id ∈ ids, id < k.handles.length)
    (hover : (scheduled k w ids order).Over) : Settled k w ids (scheduled k w ids order) := by
  have hfirst {id : HandleId} (hid : id ∈ ids) : ∃ first, k.handle? id = some first :=
    ⟨_, List.getElem?_eq_getElem (hmade id hid)⟩
  obtain ⟨hrefreshed, hregistered⟩ := refreshed_run (awaiting k w ids) order
  constructor
  case results =>
    refine perm_of_ofHandle fun id => ?_
    rw [ofHandle_filterMap hids]
    split
    next hid =>
      obtain ⟨i, hi⟩ := List.mem_iff_getElem?.1 hid
      obtain ⟨first, hfirst⟩ := hfirst hid
      rw [(scheduled_of_getElem? hids hover hi hfirst).1, hfirst]
      rfl
    next hid => exact (scheduled_of_not_mem hid).results
  case events =>
    refine perm_of_ofHandle fun id => ?_
    rw [ofHandle_filterMap hids]
    split
    next hid =>
      obtain ⟨i, hi⟩ := List.mem_iff_getElem?.1 hid
      obtain ⟨first, hfirst⟩ := hfirst hid
      rw [(scheduled_of_getElem? hids hover hi hfirst).2.1, hfirst]
      rfl
    next hid => exact (scheduled_of_not_mem hid).events
  case handles =>
    intro id
    cases hbefore : k.handle? id with
    | none =>
      rw [scheduled_eq]
      exact hrefreshed.handle?_eq_none hbefore
    | some first =>
      rw [Option.map_some]
      split
      next hid =>
        obtain ⟨i, hi⟩ := List.mem_iff_getElem?.1 hid
        exact (scheduled_of_getElem? hids hover hi hbefore).2.2
      next hid =>
        -- no snapshot was put in place for the handle
        have hchained : Chained id first (scheduled k w ids order) :=
          ((Serialized.start hbefore w).run _).chained
        rw [hchained.snapshot, (scheduled_of_not_mem hid).swaps]
        rfl
  case bus =>
    rw [scheduled]
    exact bus_run rfl _
  case refreshed =>
    rw [scheduled_eq]
    exact hrefreshed
  case registered =>
    rw [scheduled_eq]
    exact hregistered

end Settled

end Tracker

end WorktreeTracker
