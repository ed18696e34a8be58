import WorktreeTracker.EventBus
import WorktreeTracker.Proofs.OrderedMap

/-!
# What subscribers receive

A bus stands for the log of all events that were published to someone. It keeps the end of the log,
as much as its capacity allows, and every subscriber is at a position of the log. So what a
subscriber receives is told by the log alone: the events from its position on, each once and in
order. When the first of these are no longer kept, it is told how many they are.
-/

namespace WorktreeTracker.EventBus

variable {bus : EventBus} {log : List RepositoryChanged} {id : SubscriberId} {position : Nat}

/-- The bus after the given events were published in order. -/
def publishAll (bus : EventBus) (events : List RepositoryChanged) : EventBus :=
  events.foldl (fun bus e => (bus.publish e).2) bus

theorem publishAll_append (bus : EventBus) (front back : List RepositoryChanged) :
    bus.publishAll (front ++ back) = (bus.publishAll front).publishAll back :=
  List.foldl_append

theorem publishAll_concat (bus : EventBus) (events : List RepositoryChanged)
    (e : RepositoryChanged) :
    bus.publishAll (events ++ [e]) = ((bus.publishAll events).publish e).2 :=
  publishAll_append bus events [e]

/-! ## The log of a bus -/

/-- The events of the log were published, and the last of them are kept. -/
structure Logs (bus : EventBus) (log : List RepositoryChanged) : Prop where
  /-- The number of published events is that of the log. -/
  published : bus.published = log.length
  /-- As many of the last events are kept as there is room for. -/
  kept : bus.kept = log.drop (log.length - bus.capacity)

theorem logs_create (requested : Nat) : (create requested).Logs [] :=
  ⟨rfl, List.drop_nil.symm⟩

theorem Logs.subscribe (h : bus.Logs log) : bus.subscribe.2.Logs log :=
  ⟨h.published, h.kept⟩

theorem Logs.unsubscribe (h : bus.Logs log) (id : SubscriberId) : (bus.unsubscribe id).Logs log :=
  ⟨h.published, h.kept⟩

/-- A new subscriber is at the end of the log. -/
theorem Logs.position_subscribe (h : bus.Logs log) :
    bus.subscribe.2.positions.find? bus.subscribe.1 = some log.length := by
  rw [EventBus.subscribe, OrderedMap.find?_insert_self, h.published]

theorem positions_publish (bus : EventBus) (e : RepositoryChanged) :
    (bus.publish e).2.positions = bus.positions := by
  unfold publish
  split <;> rfl

theorem capacity_publish (bus : EventBus) (e : RepositoryChanged) :
    (bus.publish e).2.capacity = bus.capacity := by
  unfold publish
  split <;> rfl

/-- A bus with a subscriber has some. -/
theorem isEmpty_of_find? (h : bus.positions.find? id = some position) :
    bus.positions.isEmpty = false := by
  unfold OrderedMap.isEmpty
  rw [OrderedMap.find?] at h
  cases hentries : bus.positions.entries with
  | nil => rw [hentries] at h; cases h
  | cons first rest => rfl

/-- A published event is the last one of the log. -/
theorem Logs.publish (h : bus.Logs log) (hid : bus.positions.find? id = some position)
    (e : RepositoryChanged) : (bus.publish e).2.Logs (log ++ [e]) := by
  rw [EventBus.publish, isEmpty_of_find? hid, if_neg Bool.false_ne_true]
  constructor
  case published =>
    rw [List.length_append, List.length_singleton, ← h.published]
  case kept =>
    -- the event goes behind what is kept, and the oldest one is dropped when there is no room
    have hbehind : bus.kept ++ [e] = (log ++ [e]).drop (log.length - bus.capacity) := by
      rw [h.kept, List.drop_append_of_le_length (Nat.sub_le _ _)]
    dsimp only
    rw [hbehind, List.drop_drop, List.length_drop, List.length_append, List.length_singleton]
    congr 1
    omega

/-- Published events are the last ones of the log, and the subscribers stay where they are. -/
theorem Logs.publishAll (h : bus.Logs log) (hid : bus.positions.find? id = some position)
    (events : List RepositoryChanged) :
    (bus.publishAll events).Logs (log ++ events) ∧
      (bus.publishAll events).positions = bus.positions ∧
      (bus.publishAll events).capacity = bus.capacity := by
  induction events generalizing bus log with
  | nil =>
    rw [List.append_nil]
    exact ⟨h, rfl, rfl⟩
  | cons e rest ih =>
    have hpublished := h.publish hid e
    rw [← positions_publish bus e] at hid
    obtain ⟨hlogs, hpositions, hcapacity⟩ := ih hpublished hid
    rw [← List.append_cons] at hlogs
    exact ⟨hlogs, hpositions.trans (positions_publish bus e),
      hcapacity.trans (capacity_publish bus e)⟩

/-- Without subscribers an event is lost. -/
theorem publishAll_of_isEmpty (h : bus.positions.isEmpty = true) (events : List RepositoryChanged) :
    bus.publishAll events = bus := by
  induction events with
  | nil => rfl
  | cons e rest ih =>
    have hlost : (bus.publish e).2 = bus := by rw [publish, if_pos h]
    rw [EventBus.publishAll, List.foldl_cons, hlost]
    exact ih

/-! ## Receiving -/

/-- What a subscriber at a position of the log is handed: the events from there on, or the number of
those that are no longer kept and then the ones that are. -/
def handed (capacity : Nat) (log : List RepositoryChanged) (position : Nat) : List Received :=
  if position < log.length - capacity then
    .lagged (log.length - capacity - position) :: (log.drop (log.length - capacity)).map .event
  else (log.drop position).map .event

theorem Logs.oldest_eq (h : bus.Logs log) : bus.oldest = log.length - bus.capacity := by
  rw [oldest, h.published, h.kept, List.length_drop]
  omega

/-- The bus with a subscriber at another position. -/
def moved (bus : EventBus) (id : SubscriberId) (position : Nat) : EventBus :=
  { bus with positions := bus.positions.insert id position }

theorem Logs.moved (h : bus.Logs log) (id : SubscriberId) (position : Nat) :
    (bus.moved id position).Logs log :=
  ⟨h.published, h.kept⟩

/-- A subscriber is told what it has missed, when the log from its position on is no longer kept. -/
theorem Logs.receive_lagged (h : bus.Logs log) (hid : bus.positions.find? id = some position)
    (hlag : position < log.length - bus.capacity) :
    bus.receive id = (some (.lagged (log.length - bus.capacity - position)),
      bus.moved id (log.length - bus.capacity)) := by
  rw [receive, hid, h.oldest_eq]
  exact if_pos hlag

/-- A subscriber gets the event at its position of the log, when it is kept. -/
theorem Logs.receive_eq (h : bus.Logs log) (hid : bus.positions.find? id = some position)
    (hkept : log.length - bus.capacity ≤ position) :
    bus.receive id =
      match log[position]? with
      | some e => (some (.event e), bus.moved id (position + 1))
      | none => (some .nothing, bus) := by
  have hfound : bus.kept[position - (log.length - bus.capacity)]? = log[position]? := by
    rw [h.kept, List.getElem?_drop, Nat.add_sub_cancel' hkept]
  rw [receive, hid, h.oldest_eq]
  dsimp only
  rw [if_neg (Nat.not_lt.2 hkept), hfound]
  rfl

/-- A subscriber at a position that is kept gets the log from there on, when it asks often enough.
-/
theorem Logs.receiveMany_eq (h : bus.Logs log) (hid : bus.positions.find? id = some position)
    (hkept : log.length - bus.capacity ≤ position) {steps : Nat}
    (hsteps : log.length ≤ position + steps) :
    (receiveMany id steps bus).1 = (log.drop position).map .event := by
  induction steps generalizing bus position with
  | zero =>
    have hend : log.length ≤ position := hsteps
    rw [List.drop_eq_nil_of_le hend]
    rfl
  | succ steps ih =>
    rw [receiveMany, h.receive_eq hid hkept]
    by_cases hend : position < log.length
    · rw [List.getElem?_eq_getElem hend, List.drop_eq_getElem_cons hend, List.map_cons]
      have hrest := ih (h.moved id (position + 1)) (OrderedMap.find?_insert_self ..)
        (Nat.le_succ_of_le hkept) (by omega)
      exact congrArg (List.cons _) hrest
    · rw [List.getElem?_eq_none (Nat.not_lt.1 hend), List.drop_eq_nil_of_le (Nat.not_lt.1 hend)]
      rfl

/-- A subscriber that asks for everything is handed the log from its position on, or what is kept of
that after the number of events that it has missed. -/
theorem Logs.drain_eq (h : bus.Logs log) (hid : bus.positions.find? id = some position) :
    (bus.drain id).1 = handed bus.capacity log position := by
  have hlength : bus.kept.length = log.length - (log.length - bus.capacity) := by
    rw [h.kept, List.length_drop]
  unfold drain handed
  split
  next hlag =>
    rw [receiveMany, h.receive_lagged hid hlag]
    have hrest : (receiveMany id bus.kept.length (bus.moved id (log.length - bus.capacity))).1 =
        (log.drop (log.length - bus.capacity)).map .event :=
      (h.moved id _).receiveMany_eq (OrderedMap.find?_insert_self ..) (Nat.le_refl _) (by omega)
    exact congrArg (List.cons _) hrest
  next hkept => exact h.receiveMany_eq hid (Nat.not_lt.1 hkept) (by omega)

/-- A subscriber is handed the events that were published after those of the log. -/
theorem Logs.drain_publishAll (h : bus.Logs log) (hid : bus.positions.find? id = some position)
    (events : List RepositoryChanged) :
    ((bus.publishAll events).drain id).1 = handed bus.capacity (log ++ events) position := by
  obtain ⟨hlogs, hpositions, hcapacity⟩ := h.publishAll hid events
  rw [hlogs.drain_eq (by rwa [hpositions]), hcapacity]

/-- From the end of the log on there are the events that go behind it, when there is room for them.
-/
theorem handed_append {capacity : Nat} {events : List RepositoryChanged}
    (h : events.length ≤ capacity) :
    handed capacity (log ++ events) log.length = events.map .event := by
  have hroom : ¬ log.length < (log ++ events).length - capacity := by
    rw [List.length_append]
    omega
  rw [handed, if_neg hroom, List.drop_left]

/-- A new subscriber is handed exactly the events that are published after it has come, when there
is room for them. -/
theorem Logs.drain_subscribe (h : bus.Logs log) {events : List RepositoryChanged}
    (hroom : events.length ≤ bus.capacity) :
    ((bus.subscribe.2.publishAll events).drain bus.subscribe.1).1 = events.map .event :=
  (h.subscribe.drain_publishAll h.position_subscribe events).trans (handed_append hroom)

end WorktreeTracker.EventBus
