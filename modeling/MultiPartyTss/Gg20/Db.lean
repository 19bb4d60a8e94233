import MultiPartyTss.Lib.Sync
import MultiPartyTss.Lib.U16

/-!
# Rooms of the message server

`Room` and `Db` of the GG20 manager. A room keeps its message history, a counter of subscribers, the
next index to issue, and the notifier that wakes waiting subscribers. The map holds `Arc<Room>`, so the
rooms themselves live in a heap and the map holds addresses: a handler or a subscription keeps the
address it was given, whatever the map holds later.
-/

namespace Gg20

open Sync

structure Room where
  messages : List String
  message_appeared : Notify
  subscribers : Nat
  next_idx : Nat
  deriving DecidableEq, Repr

namespace Room

def empty : Room := ⟨[], Notify.new, 0, 1⟩

/-- `publish`, as one step: push the message, then notify. -/
def publish (room : Room) (message : String) : Room :=
  { room with
    messages := room.messages ++ [message]
    message_appeared := room.message_appeared.notifyWaiters }

/-- The `fetch_add` of `subscribe`. -/
def addSubscriber (room : Room) : Room := { room with subscribers := U16.fetchAdd room.subscribers }

/-- `drop` of a subscription. -/
def dropSubscriber (room : Room) : Room := { room with subscribers := U16.fetchSub room.subscribers }

def isAbandoned (room : Room) : Bool := room.subscribers == 0

def issueUniqueIdx (room : Room) : Nat × Room :=
  (room.next_idx, { room with next_idx := U16.fetchAdd room.next_idx })

@[simp] theorem addSubscriber_messages (room : Room) : room.addSubscriber.messages = room.messages := rfl

@[simp] theorem addSubscriber_next_idx (room : Room) : room.addSubscriber.next_idx = room.next_idx := rfl

@[simp] theorem dropSubscriber_messages (room : Room) : room.dropSubscriber.messages = room.messages := rfl

@[simp] theorem dropSubscriber_next_idx (room : Room) : room.dropSubscriber.next_idx = room.next_idx := rfl

end Room

/-- The cursor a new subscription starts at: `last_seen_msg.map(|i| i + 1).unwrap_or(0)`. `none` is the
overflow panic. -/
def firstEvent (build : U16.Build) : Option Nat → Option Nat
  | none => some 0
  | some i => U16.addOne build i

/-- What one pass of the loop in `Subscription::next` finds. -/
inductive Look where
  /-- `history.get` returned nothing; the subscriber goes on to wait. -/
  | missing
  /-- The event is returned and the cursor moves to `next_event`. -/
  | event (id : Nat) (message : String) (next_event : Nat)
  | overflow
  deriving DecidableEq, Repr

def look (build : U16.Build) (history : List String) (next_event : Nat) : Look :=
  match history[next_event]? with
  | some msg =>
    match U16.addOne build next_event with
    | some n => .event next_event msg n
    | none => .overflow
  | none => .missing

theorem look_missing {build : U16.Build} {history : List String} {n : Nat}
    (h : look build history n = .missing) : history.length ≤ n := by
  unfold look at h
  cases hget : history[n]? with
  | none => exact List.getElem?_eq_none_iff.mp hget
  | some msg =>
    rw [hget] at h
    cases hadd : U16.addOne build n <;> simp [hadd] at h

theorem look_event {build : U16.Build} {history : List String} {n id n' : Nat} {msg : String}
    (h : look build history n = .event id msg n') :
    id = n ∧ history[n]? = some msg ∧ U16.addOne build n = some n' := by
  unfold look at h
  cases hget : history[n]? with
  | none => simp [hget] at h
  | some m =>
    cases hadd : U16.addOne build n with
    | none => simp [hget, hadd] at h
    | some k =>
      simp only [hget, hadd, Look.event.injEq] at h
      obtain ⟨rfl, rfl, rfl⟩ := h
      exact ⟨rfl, rfl, rfl⟩

/-! ### The map of rooms -/

structure Db where
  rooms : String → Option Nat
  heap : Nat → Room
  /-- How many rooms were ever created; they have the addresses below this. -/
  allocated : Nat

namespace Db

def empty : Db := ⟨fun _ => none, fun _ => Room.empty, 0⟩

def setRoom (db : Db) (addr : Nat) (room : Room) : Db :=
  { db with heap := fun a => if a = addr then room else db.heap a }

/-- `Arc::new(Room::empty())`, put into the map under `room_id`. -/
def createRoom (db : Db) (room_id : String) : Nat × Db :=
  (db.allocated,
    { rooms := fun r => if r = room_id then some db.allocated else db.rooms r
      heap := fun a => if a = db.allocated then Room.empty else db.heap a
      allocated := db.allocated + 1 })

/-- The read-lock section of `get_room_or_create_empty`. -/
def readRoom (db : Db) (room_id : String) : Option Nat :=
  match db.rooms room_id with
  | some addr =>
    -- If no one is watching this room - we need to clean it up first
    if !(db.heap addr).isAbandoned then some addr else none
  | none => none

/-- The write-lock section of `get_room_or_create_empty`. -/
def writeRoom (db : Db) (room_id : String) : Nat × Db :=
  match db.rooms room_id with
  | some addr => if !(db.heap addr).isAbandoned then (addr, db) else db.createRoom room_id
  | none => db.createRoom room_id

theorem readRoom_some {db : Db} {room_id : String} {addr : Nat} (h : db.readRoom room_id = some addr) :
    db.rooms room_id = some addr := by
  unfold readRoom at h
  cases hroom : db.rooms room_id with
  | none => simp [hroom] at h
  | some addr' =>
    simp only [hroom] at h
    split_ifs at h
    exact h

theorem readRoom_of_watched {db : Db} {room_id : String} {addr : Nat} (hroom : db.rooms room_id = some addr)
    (hwatched : (db.heap addr).subscribers ≠ 0) : db.readRoom room_id = some addr := by
  simp [readRoom, hroom, Room.isAbandoned, hwatched]

/-- The write-lock section returns the watched room of the map, or a new one in its place. -/
theorem writeRoom_cases (db : Db) (room_id : String) :
    (∃ addr, db.rooms room_id = some addr ∧ (db.heap addr).subscribers ≠ 0 ∧
        db.writeRoom room_id = (addr, db)) ∨
      ((∀ addr, db.rooms room_id = some addr → (db.heap addr).subscribers = 0) ∧
        db.writeRoom room_id = db.createRoom room_id) := by
  unfold writeRoom
  cases hroom : db.rooms room_id with
  | none =>
    right
    simp
  | some addr =>
    by_cases hzero : (db.heap addr).subscribers = 0
    · right
      simp [Room.isAbandoned, hzero]
    · left
      exact ⟨addr, rfl, hzero, by simp [Room.isAbandoned, hzero]⟩

end Db

end Gg20
