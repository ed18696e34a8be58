import WorktreeTracker.Snapshot

/-!
# Change events

A bus that hands every event to every subscriber. It keeps a bounded number of events; a subscriber
that falls further behind is told once how many events it has missed and goes on with the oldest
event that is kept.
-/

namespace WorktreeTracker

/-- What is published after every successful refresh of a root. -/
structure RepositoryChanged where
  /-- The refreshed root. -/
  root : Path
  /-- The snapshot that lookups now give. -/
  state : Snapshot
  /-- Whether branches, HEAD or operation differ from the snapshot before. -/
  changed : Bool
deriving DecidableEq

/-- A subscriber of a bus. -/
abbrev SubscriberId := Nat

/-- A bus with its kept events and the positions of its subscribers. -/
structure EventBus where
  /-- The number of events that are kept. -/
  capacity : Nat
  /-- The number of events published to someone so far. -/
  published : Nat
  /-- The latest of these events, at most `capacity`, the oldest first. -/
  kept : List RepositoryChanged
  /-- The position of the next event of each subscriber. -/
  positions : OrderedMap SubscriberId Nat
  /-- The next subscriber. -/
  nextSubscriber : SubscriberId
deriving DecidableEq

/-- What a subscriber gets when it asks for an event. -/
inductive Received where
  /-- The next event. -/
  | event (e : RepositoryChanged)
  /-- The number of events that it has missed. -/
  | lagged (missed : Nat)
  /-- Nothing was published since the last event. -/
  | nothing
deriving DecidableEq

namespace EventBus

/-- The smallest power of two from `p` on that is at least `n`, found in at most `steps`
doublings. -/
def powerFrom (n : Nat) : (steps p : Nat) → Nat
  | 0, p => p
  | steps + 1, p => if n ≤ p then p else powerFrom n steps (2 * p)

/-- The number of events kept for a requested capacity: at least one, rounded up to a power of
two. -/
def roundedCapacity (requested : Nat) : Nat :=
  let n := max requested 1
  powerFrom n n.log2.succ 1

/-- A bus for the requested capacity. -/
def create (requested : Nat) : EventBus :=
  ⟨roundedCapacity requested, 0, [], .empty, 0⟩

/-- The number of subscribers. -/
def subscriberCount (bus : EventBus) : Nat := bus.positions.size

/-- Adds a subscriber, which gets the events published from now on. -/
def subscribe (bus : EventBus) : SubscriberId × EventBus :=
  (bus.nextSubscriber,
    { bus with
      positions := bus.positions.insert bus.nextSubscriber bus.published
      nextSubscriber := bus.nextSubscriber + 1 })

/-- Removes a subscriber. -/
def unsubscribe (bus : EventBus) (id : SubscriberId) : EventBus :=
  { bus with positions := bus.positions.erase id }

/-- Publishes an event and gives the number of subscribers it reaches. Without subscribers the event
is lost. -/
def publish (bus : EventBus) (e : RepositoryChanged) : Nat × EventBus :=
  if bus.positions.isEmpty then (0, bus)
  else
    let kept := bus.kept ++ [e]
    (bus.subscriberCount,
      { bus with
        published := bus.published + 1
        kept := kept.drop (kept.length - bus.capacity) })

/-- The position of the oldest event that is kept. -/
def oldest (bus : EventBus) : Nat := bus.published - bus.kept.length

/-- Hands a subscriber its next event, or tells it what it has missed; `none` for someone who is no
subscriber. -/
def receive (bus : EventBus) (id : SubscriberId) : Option Received × EventBus :=
  match bus.positions.find? id with
  | none => (none, bus)
  | some position =>
    let moveTo (p : Nat) : EventBus := { bus with positions := bus.positions.insert id p }
    if position < bus.oldest then (some (.lagged (bus.oldest - position)), moveTo bus.oldest)
    else match bus.kept[position - bus.oldest]? with
      | some e => (some (.event e), moveTo (position + 1))
      | none => (some .nothing, bus)

/-- Hands a subscriber up to `steps` answers, until nothing is left. -/
def receiveMany (id : SubscriberId) : (steps : Nat) → EventBus → List Received × EventBus
  | 0, bus => ([], bus)
  | steps + 1, bus =>
    match bus.receive id with
    | (some .nothing, bus) => ([], bus)
    | (none, bus) => ([], bus)
    | (some received, bus) =>
      let (rest, bus) := receiveMany id steps bus
      (received :: rest, bus)

/-- Hands a subscriber everything that is left for it: at most one notice of missed events and the
events that are kept. -/
def drain (bus : EventBus) (id : SubscriberId) : List Received × EventBus :=
  receiveMany id (bus.kept.length + 1) bus

end EventBus

end WorktreeTracker
