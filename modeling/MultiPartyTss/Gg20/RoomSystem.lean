import Mathlib.Data.List.Nodup
import MultiPartyTss.Lib.Run
import MultiPartyTss.Gg20.Db

/-!
# The room server under concurrent requests

The map of rooms with any number of request handlers and live subscriptions. A handler of `subscribe`,
`issue_idx` or `broadcast` runs in up to three steps: the read-lock section of
`get_room_or_create_empty`, its write-lock section if the first found no watched room, and then the
operation on the room it was given. Between two steps of a handler anything else can happen: other
handlers, deliveries, and drops of subscriptions.

Besides the server's own state the system records what the results speak of: the start and the returns of
each subscription, the indices issued, and who was listening when a message was accepted.
-/

namespace Gg20

inductive Request where
  | subscribe (last_seen : Option Nat)
  /-- `holder` is a live subscription that the calling client has in the same room id, if any. -/
  | issueIdx (holder : Option Nat)
  | broadcast (message : String)
  deriving DecidableEq, Repr

inductive Handler where
  | absent
  /-- Before the read-lock section. -/
  | looking (room_id : String) (req : Request)
  /-- Before the write-lock section. -/
  | creating (room_id : String) (req : Request)
  /-- `get_room_or_create_empty` returned the room at this address. -/
  | holding (room_id : String) (req : Request) (room : Nat)
  | finished
  deriving DecidableEq, Repr

def Handler.request : Handler → Option (String × Request)
  | .looking room_id req | .creating room_id req | .holding room_id req _ => some (room_id, req)
  | .absent | .finished => none

/-- The room a handler was given. -/
def Handler.room : Handler → Option Nat
  | .holding _ _ a => some a
  | _ => none

/-- A live subscription, named by the handler that opened it. -/
structure Client where
  id : Nat
  room_id : String
  room : Nat
  next_event : Nat
  /-- The first cursor. -/
  start : Nat
  /-- The length of the history when it was opened. -/
  opened : Nat
  returned : List (Nat × String)
  deriving DecidableEq, Repr

/-- An index issued from a room, to a client with this subscription. -/
structure Issue where
  room : Nat
  idx : Nat
  holder : Option Nat
  deriving DecidableEq, Repr

/-- A message accepted under a room id, and the subscriptions live under that id then. -/
structure Acceptance where
  message : String
  audience : List Nat
  deriving DecidableEq, Repr

structure RoomSystem where
  db : Db
  handler : Nat → Handler
  live : List Client
  issued : List Issue
  accepted : List Acceptance

namespace RoomSystem

inductive Action where
  | arrive (h : Nat) (room_id : String) (req : Request)
  | readLock (h : Nat)
  | writeLock (h : Nat)
  | finish (h : Nat)
  | next (x : Nat)
  | drop (x : Nat)

def start : RoomSystem := ⟨Db.empty, fun _ => .absent, [], [], []⟩

def setHandler (s : RoomSystem) (h : Nat) (handler : Handler) : RoomSystem :=
  { s with handler := fun h' => if h' = h then handler else s.handler h' }

def find (s : RoomSystem) (x : Nat) : Option Client := s.live.find? fun c => c.id == x

/-- The subscription named by an `issue_idx` request is live, under the same room id. -/
def HolderLive (s : RoomSystem) (room_id : String) (req : Request) : Prop :=
  ∀ x, req = .issueIdx (some x) → ∃ c ∈ s.live, c.id = x ∧ c.room_id = room_id

instance (s : RoomSystem) (room_id : String) (req : Request) : Decidable (s.HolderLive room_id req) :=
  match req with
  | .issueIdx (some x) => decidable_of_iff (∃ c ∈ s.live, c.id = x ∧ c.room_id = room_id) (by
      simp [HolderLive])
  | .issueIdx none => isTrue (by rintro x ⟨⟩)
  | .subscribe _ => isTrue (by rintro x ⟨⟩)
  | .broadcast _ => isTrue (by rintro x ⟨⟩)

/-- `room.subscribe(..)` with first cursor `n`. -/
def openClient (s : RoomSystem) (h : Nat) (room_id : String) (a n : Nat) : RoomSystem :=
  { s.setHandler h .finished with
    db := s.db.setRoom a (s.db.heap a).addSubscriber
    live := s.live ++ [⟨h, room_id, a, n, n, (s.db.heap a).messages.length, []⟩] }

/-- `room.subscribe(..)` whose cursor overflows: the counter has moved, no subscription exists. -/
def leakClient (s : RoomSystem) (h a : Nat) : RoomSystem :=
  { s.setHandler h .finished with db := s.db.setRoom a (s.db.heap a).addSubscriber }

def issueFrom (s : RoomSystem) (h a : Nat) (holder : Option Nat) : RoomSystem :=
  { s.setHandler h .finished with
    db := s.db.setRoom a (s.db.heap a).issueUniqueIdx.2
    issued := s.issued ++ [⟨a, (s.db.heap a).issueUniqueIdx.1, holder⟩] }

def publishTo (s : RoomSystem) (h : Nat) (room_id : String) (a : Nat) (message : String) : RoomSystem :=
  { s.setHandler h .finished with
    db := s.db.setRoom a ((s.db.heap a).publish message)
    accepted := s.accepted ++
      [⟨message, (s.live.filter fun c => c.room_id == room_id).map Client.id⟩] }

/-- A completed `next` call of `c`. -/
def deliver (s : RoomSystem) (c : Client) (id : Nat) (message : String) (n : Nat) : RoomSystem :=
  { s with
    live := s.live.map fun d =>
      if d.id = c.id then { d with next_event := n, returned := d.returned ++ [(id, message)] } else d }

/-- `drop` of `c`'s subscription. -/
def dropClient (s : RoomSystem) (c : Client) : RoomSystem :=
  { s with
    db := s.db.setRoom c.room (s.db.heap c.room).dropSubscriber
    live := s.live.eraseP fun d => d.id == c.id }

def stepFinish (build : U16.Build) (s : RoomSystem) (h : Nat) (room_id : String) (a : Nat) :
    Request → RoomSystem
  | .subscribe last_seen =>
    match firstEvent build last_seen with
    | some n => s.openClient h room_id a n
    | none => s.leakClient h a
  | .issueIdx holder => s.issueFrom h a holder
  | .broadcast message => s.publishTo h room_id a message

def step (build : U16.Build) (s : RoomSystem) : Action → Option RoomSystem
  | .arrive h room_id req =>
    match s.handler h with
    | .absent => if s.HolderLive room_id req then some (s.setHandler h (.looking room_id req)) else none
    | _ => none
  | .readLock h =>
    match s.handler h with
    | .looking room_id req =>
      match s.db.readRoom room_id with
      | some a => some (s.setHandler h (.holding room_id req a))
      | none => some (s.setHandler h (.creating room_id req))
    | _ => none
  | .writeLock h =>
    match s.handler h with
    | .creating room_id req =>
      some { s.setHandler h (.holding room_id req (s.db.writeRoom room_id).1) with
        db := (s.db.writeRoom room_id).2 }
    | _ => none
  | .finish h =>
    match s.handler h with
    | .holding room_id req a => some (stepFinish build s h room_id a req)
    | _ => none
  | .next x =>
    match s.find x with
    | some c =>
      match look build (s.db.heap c.room).messages c.next_event with
      | .event id message n => some (s.deliver c id message n)
      -- the panic unwinds the stream, which drops the subscription
      | .overflow => some (s.dropClient c)
      | .missing => none
    | none => none
  | .drop x => (s.find x).map s.dropClient

/-! ### What a step does -/

/-- The steps, one constructor for each outcome. -/
inductive Step (build : U16.Build) (s : RoomSystem) : Action → RoomSystem → Prop where
  | arrive {h room_id req} : s.handler h = .absent → s.HolderLive room_id req →
      Step build s (.arrive h room_id req) (s.setHandler h (.looking room_id req))
  | found {h room_id req a} : s.handler h = .looking room_id req → s.db.rooms room_id = some a →
      (s.db.heap a).subscribers ≠ 0 →
      Step build s (.readLock h) (s.setHandler h (.holding room_id req a))
  | missed {h room_id req} : s.handler h = .looking room_id req →
      Step build s (.readLock h) (s.setHandler h (.creating room_id req))
  | refound {h room_id req a} : s.handler h = .creating room_id req → s.db.rooms room_id = some a →
      (s.db.heap a).subscribers ≠ 0 →
      Step build s (.writeLock h) (s.setHandler h (.holding room_id req a))
  | created {h room_id req} : s.handler h = .creating room_id req →
      (∀ a, s.db.rooms room_id = some a → (s.db.heap a).subscribers = 0) →
      Step build s (.writeLock h) { s.setHandler h (.holding room_id req s.db.allocated) with
        db := (s.db.createRoom room_id).2 }
  | subscribe {h room_id last_seen a n} : s.handler h = .holding room_id (.subscribe last_seen) a →
      firstEvent build last_seen = some n →
      Step build s (.finish h) (s.openClient h room_id a n)
  | leak {h room_id last_seen a} : s.handler h = .holding room_id (.subscribe last_seen) a →
      firstEvent build last_seen = none →
      Step build s (.finish h) (s.leakClient h a)
  | issue {h room_id holder a} : s.handler h = .holding room_id (.issueIdx holder) a →
      Step build s (.finish h) (s.issueFrom h a holder)
  | publish {h room_id message a} : s.handler h = .holding room_id (.broadcast message) a →
      Step build s (.finish h) (s.publishTo h room_id a message)
  | deliver {x c message n} : s.find x = some c →
      (s.db.heap c.room).messages[c.next_event]? = some message →
      U16.addOne build c.next_event = some n →
      Step build s (.next x) (s.deliver c c.next_event message n)
  | overflow {x c} : s.find x = some c → U16.addOne build c.next_event = none →
      Step build s (.next x) (s.dropClient c)
  | drop {x c} : s.find x = some c → Step build s (.drop x) (s.dropClient c)

theorem step_spec {build : U16.Build} {s t : RoomSystem} {a : Action} (h : step build s a = some t) :
    Step build s a t := by
  cases a with
  | arrive h' room_id req =>
    cases hh : s.handler h' <;> simp only [step, hh, reduceCtorEq] at h
    split_ifs at h with hlive
    cases h
    exact .arrive hh hlive
  | readLock h' =>
    cases hh : s.handler h' <;> simp only [step, hh, reduceCtorEq] at h
    rename_i room_id req
    cases hread : s.db.readRoom room_id with
    | none =>
      simp only [hread, Option.some.injEq] at h
      subst h
      exact .missed hh
    | some a =>
      simp only [hread, Option.some.injEq] at h
      subst h
      refine .found hh (Db.readRoom_some hread) fun hzero => ?_
      simp [Db.readRoom, Db.readRoom_some hread, Room.isAbandoned, hzero] at hread
  | writeLock h' =>
    cases hh : s.handler h' <;> simp only [step, hh, reduceCtorEq] at h
    rename_i room_id req
    rw [Option.some.injEq] at h
    subst h
    rcases Db.writeRoom_cases s.db room_id with ⟨a, hroom, hwatched, hwrite⟩ | ⟨habandoned, hwrite⟩
    · rw [hwrite]
      exact .refound hh hroom hwatched
    · rw [hwrite]
      exact .created hh habandoned
  | finish h' =>
    cases hh : s.handler h' <;> simp only [step, hh, reduceCtorEq] at h
    rename_i room_id req a
    rw [Option.some.injEq] at h
    subst h
    cases req with
    | subscribe last_seen =>
      cases hfirst : firstEvent build last_seen with
      | none =>
        simp only [stepFinish, hfirst]
        exact .leak hh hfirst
      | some n =>
        simp only [stepFinish, hfirst]
        exact .subscribe hh hfirst
    | issueIdx holder => exact .issue hh
    | broadcast message => exact .publish hh
  | next x =>
    cases hfind : s.find x with
    | none => simp [step, hfind] at h
    | some c =>
      cases hlook : look build (s.db.heap c.room).messages c.next_event with
      | missing => simp [step, hfind, hlook] at h
      | event id message n =>
        simp only [step, hfind, hlook, Option.some.injEq] at h
        subst h
        obtain ⟨rfl, hget, hadd⟩ := look_event hlook
        exact .deliver hfind hget hadd
      | overflow =>
        simp only [step, hfind, hlook, Option.some.injEq] at h
        subst h
        refine .overflow hfind ?_
        unfold look at hlook
        cases hget : (s.db.heap c.room).messages[c.next_event]? with
        | none => simp [hget] at hlook
        | some message =>
          cases hadd : U16.addOne build c.next_event with
          | none => rfl
          | some n => simp [hget, hadd] at hlook
  | drop x =>
    obtain ⟨c, hfind, rfl⟩ := Option.map_eq_some_iff.mp h
    exact .drop hfind

/-! ### Reading a state after a step -/

@[simp] theorem setHandler_db (s : RoomSystem) (h : Nat) (hd : Handler) : (s.setHandler h hd).db = s.db :=
  rfl

@[simp] theorem setHandler_live (s : RoomSystem) (h : Nat) (hd : Handler) :
    (s.setHandler h hd).live = s.live := rfl

@[simp] theorem setHandler_issued (s : RoomSystem) (h : Nat) (hd : Handler) :
    (s.setHandler h hd).issued = s.issued := rfl

@[simp] theorem setHandler_accepted (s : RoomSystem) (h : Nat) (hd : Handler) :
    (s.setHandler h hd).accepted = s.accepted := rfl

theorem setHandler_self (s : RoomSystem) (h : Nat) (hd : Handler) :
    (s.setHandler h hd).handler h = hd := if_pos rfl

theorem setHandler_of_ne (s : RoomSystem) {h h' : Nat} (hd : Handler) (hne : h' ≠ h) :
    (s.setHandler h hd).handler h' = s.handler h' := if_neg hne

theorem setHandler_cases (s : RoomSystem) (h : Nat) (hd : Handler) (h' : Nat) :
    (s.setHandler h hd).handler h' = hd ∨ (s.setHandler h hd).handler h' = s.handler h' := by
  by_cases heq : h' = h
  · subst heq
    exact Or.inl (setHandler_self s h' hd)
  · exact Or.inr (setHandler_of_ne s hd heq)

theorem setRoom_self (db : Db) (a : Nat) (room : Room) : (db.setRoom a room).heap a = room := if_pos rfl

theorem setRoom_of_ne (db : Db) {a b : Nat} (room : Room) (hne : b ≠ a) :
    (db.setRoom a room).heap b = db.heap b := if_neg hne

/-- Writing a room keeps whatever of the rooms the new value agrees on. -/
theorem setRoom_congr {β : Type} (f : Room → β) {db : Db} {a : Nat} {room : Room}
    (hroom : f room = f (db.heap a)) (b : Nat) : f ((db.setRoom a room).heap b) = f (db.heap b) := by
  by_cases heq : b = a
  · subst heq
    rw [setRoom_self, hroom]
  · rw [setRoom_of_ne db room heq]

theorem find_mem {s : RoomSystem} {x : Nat} {c : Client} (h : s.find x = some c) :
    c ∈ s.live ∧ c.id = x := by
  have hid := List.find?_some h
  rw [beq_iff_eq] at hid
  exact ⟨List.mem_of_find?_eq_some h, hid⟩

/-- A delivery changes the cursor and the returns of one subscription only. -/
theorem mem_deliver {s : RoomSystem} {c d : Client} {id n : Nat} {message : String}
    (h : d ∈ (s.deliver c id message n).live) :
    (∃ e ∈ s.live, e.id = c.id ∧
        d = { e with next_event := n, returned := e.returned ++ [(id, message)] }) ∨
      (d ∈ s.live ∧ d.id ≠ c.id) := by
  obtain ⟨e, he, rfl⟩ := List.mem_map.mp h
  by_cases hid : e.id = c.id
  · left
    exact ⟨e, he, hid, if_pos hid⟩
  · right
    rw [if_neg hid]
    exact ⟨he, hid⟩

/-- What a delivery leaves of each subscription: its name, its room and where it opened. -/
theorem mem_deliver_frame {s : RoomSystem} {c d : Client} {id n : Nat} {message : String}
    (h : d ∈ (s.deliver c id message n).live) :
    ∃ e ∈ s.live, e.id = d.id ∧ e.room_id = d.room_id ∧ e.room = d.room ∧ e.start = d.start ∧
      e.opened = d.opened := by
  rcases mem_deliver h with ⟨e, he, -, rfl⟩ | ⟨hd, -⟩
  · exact ⟨e, he, rfl, rfl, rfl, rfl, rfl⟩
  · exact ⟨d, hd, rfl, rfl, rfl, rfl, rfl⟩

theorem mem_dropClient {s : RoomSystem} {c d : Client} (h : d ∈ (s.dropClient c).live) : d ∈ s.live :=
  List.mem_of_mem_eraseP h

/-! ### Names are used once -/

/-- Live subscriptions have different names, and every name the records mention belongs to a handler that
has finished. -/
structure Named (s : RoomSystem) : Prop where
  nodup : (s.live.map Client.id).Nodup
  finished : ∀ c ∈ s.live, s.handler c.id = .finished
  requests : ∀ h room_id x, (s.handler h).request = some (room_id, .issueIdx (some x)) →
    s.handler x = .finished
  holders : ∀ e ∈ s.issued, ∀ x, e.holder = some x → s.handler x = .finished
  audience : ∀ e ∈ s.accepted, ∀ x ∈ e.audience, s.handler x = .finished

theorem start_named : Named start := by
  constructor
  · exact List.nodup_nil
  · intro c hc
    cases hc
  · intro h room_id x hreq
    cases hreq
  · intro e he
    cases he
  · intro e he
    cases he

theorem finished_setHandler {s : RoomSystem} {h x : Nat} (hd : Handler) (hh : s.handler h ≠ .finished)
    (hx : s.handler x = .finished) : (s.setHandler h hd).handler x = .finished := by
  have hne : x ≠ h := by
    rintro rfl
    exact hh hx
  rw [setHandler_of_ne s hd hne]
  exact hx

/-- Two live subscriptions with one name are one. -/
theorem Named.eq_of_id {s : RoomSystem} (hnamed : Named s) {c d : Client} (hc : c ∈ s.live)
    (hd : d ∈ s.live) (hid : c.id = d.id) : c = d :=
  List.inj_on_of_nodup_map hnamed.nodup hc hd hid

/-- A move of one handler keeps the names, if its request names a finished handler. -/
theorem Named.setHandler {s : RoomSystem} (hnamed : Named s) {h : Nat} {hd : Handler}
    (hh : s.handler h ≠ .finished)
    (hreq : ∀ room_id x, hd.request = some (room_id, .issueIdx (some x)) → s.handler x = .finished) :
    Named (s.setHandler h hd) := by
  constructor
  · exact hnamed.nodup
  · exact fun c hc => finished_setHandler hd hh (hnamed.finished c hc)
  · intro h' room_id x hx
    rcases setHandler_cases s h hd h' with heq | heq
    · rw [heq] at hx
      exact finished_setHandler hd hh (hreq room_id x hx)
    · rw [heq] at hx
      exact finished_setHandler hd hh (hnamed.requests h' room_id x hx)
  · exact fun e he x hx => finished_setHandler hd hh (hnamed.holders e he x hx)
  · exact fun e he x hx => finished_setHandler hd hh (hnamed.audience e he x hx)

/-- A handler that goes on with the request it had. -/
theorem Named.keepRequest {s : RoomSystem} (hnamed : Named s) {h : Nat} {hd : Handler}
    (hh : s.handler h ≠ .finished) (hreq : hd.request = (s.handler h).request) :
    Named (s.setHandler h hd) :=
  hnamed.setHandler hh fun room_id x hx => hnamed.requests h room_id x (hreq.symm.trans hx)

theorem Named.finish {s : RoomSystem} (hnamed : Named s) {h : Nat} (hh : s.handler h ≠ .finished) :
    Named (s.setHandler h .finished) :=
  hnamed.setHandler hh fun room_id x hx => by cases hx

theorem step_named {build : U16.Build} {s t : RoomSystem} {a : Action} (hnamed : Named s)
    (hstep : step build s a = some t) : Named t := by
  have hspec := step_spec hstep
  cases hspec with
  | @arrive h room_id req hh hlive =>
    refine hnamed.setHandler (by simp [hh]) fun room_id' x hx => ?_
    simp only [Handler.request, Option.some.injEq, Prod.mk.injEq] at hx
    obtain ⟨c, hc, rfl, -⟩ := hlive x hx.2
    exact hnamed.finished c hc
  | found hh hroom hwatched => exact hnamed.keepRequest (by simp [hh]) (by rw [hh]; rfl)
  | missed hh => exact hnamed.keepRequest (by simp [hh]) (by rw [hh]; rfl)
  | refound hh hroom hwatched => exact hnamed.keepRequest (by simp [hh]) (by rw [hh]; rfl)
  | @created h room_id req hh habandoned =>
    have hkeep : Named (s.setHandler h (.holding room_id req s.db.allocated)) :=
      hnamed.keepRequest (by simp [hh]) (by rw [hh]; rfl)
    exact ⟨hkeep.nodup, hkeep.finished, hkeep.requests, hkeep.holders, hkeep.audience⟩
  | @subscribe h room_id last_seen a n hh hfirst =>
    have hdone := hnamed.finish (h := h) (by simp [hh])
    refine ⟨?_, ?_, hdone.requests, hdone.holders, hdone.audience⟩
    · simp only [openClient, List.map_append, List.map_cons, List.map_nil]
      refine List.nodup_append.mpr ⟨hnamed.nodup, by simp, ?_⟩
      rintro x hx y hy rfl
      rw [List.mem_singleton] at hy
      subst hy
      obtain ⟨c, hc, rfl⟩ := List.mem_map.mp hx
      rw [hnamed.finished c hc] at hh
      cases hh
    · intro c hc
      rcases List.mem_append.mp hc with hc | hc
      · exact hdone.finished c hc
      · rw [List.mem_singleton] at hc
        subst hc
        exact setHandler_self s h .finished
  | @leak h room_id last_seen a hh hfirst =>
    have hdone := hnamed.finish (h := h) (by simp [hh])
    exact ⟨hdone.nodup, hdone.finished, hdone.requests, hdone.holders, hdone.audience⟩
  | @issue h room_id holder a hh =>
    have hdone := hnamed.finish (h := h) (by simp [hh])
    refine ⟨hdone.nodup, hdone.finished, hdone.requests, ?_, hdone.audience⟩
    intro e he x hx
    rcases List.mem_append.mp he with he | he
    · exact hdone.holders e he x hx
    · rw [List.mem_singleton] at he
      subst he
      dsimp only at hx
      subst hx
      exact finished_setHandler _ (by simp [hh]) (hnamed.requests h room_id x (by rw [hh]; rfl))
  | @publish h room_id message a hh =>
    have hdone := hnamed.finish (h := h) (by simp [hh])
    refine ⟨hdone.nodup, hdone.finished, hdone.requests, hdone.holders, ?_⟩
    intro e he x hx
    rcases List.mem_append.mp he with he | he
    · exact hdone.audience e he x hx
    · rw [List.mem_singleton] at he
      subst he
      obtain ⟨c, hc, rfl⟩ := List.mem_map.mp hx
      exact hdone.finished c (List.mem_of_mem_filter hc)
  | @deliver x c message n hfind hget hadd =>
    refine ⟨?_, ?_, hnamed.requests, hnamed.holders, hnamed.audience⟩
    · have hids : (s.deliver c c.next_event message n).live.map Client.id = s.live.map Client.id := by
        simp only [RoomSystem.deliver, List.map_map]
        refine List.map_congr_left fun d _ => ?_
        simp only [Function.comp_apply]
        split <;> rfl
      rw [hids]
      exact hnamed.nodup
    · intro d hd
      obtain ⟨e, he, hid, -⟩ := mem_deliver_frame hd
      rw [← hid]
      exact hnamed.finished e he
  | overflow hfind hadd =>
    refine ⟨hnamed.nodup.sublist (List.Sublist.map _ List.eraseP_sublist), ?_, hnamed.requests,
      hnamed.holders, hnamed.audience⟩
    exact fun d hd => hnamed.finished d (mem_dropClient hd)
  | drop hfind =>
    refine ⟨hnamed.nodup.sublist (List.Sublist.map _ List.eraseP_sublist), ?_, hnamed.requests,
      hnamed.holders, hnamed.audience⟩
    exact fun d hd => hnamed.finished d (mem_dropClient hd)

/-! ### Addresses in use were allocated -/

structure Placed (s : RoomSystem) : Prop where
  mapped : ∀ room_id a, s.db.rooms room_id = some a → a < s.db.allocated
  live : ∀ c ∈ s.live, c.room < s.db.allocated
  held : ∀ h a, (s.handler h).room = some a → a < s.db.allocated
  issued : ∀ e ∈ s.issued, e.room < s.db.allocated

theorem start_placed : Placed start := by
  constructor
  · intro room_id a ha
    cases ha
  · intro c hc
    cases hc
  · intro h a ha
    cases ha
  · intro e he
    cases he

theorem Placed.setHandler {s : RoomSystem} (hplaced : Placed s) {h : Nat} {hd : Handler}
    (hroom : ∀ a, hd.room = some a → a < s.db.allocated) : Placed (s.setHandler h hd) := by
  refine ⟨hplaced.mapped, hplaced.live, fun h' a ha => ?_, hplaced.issued⟩
  rcases setHandler_cases s h hd h' with heq | heq
  · rw [heq] at ha
    exact hroom a ha
  · rw [heq] at ha
    exact hplaced.held h' a ha

theorem Placed.finish {s : RoomSystem} (hplaced : Placed s) (h : Nat) :
    Placed (s.setHandler h .finished) :=
  hplaced.setHandler fun a ha => by cases ha

theorem step_placed {build : U16.Build} {s t : RoomSystem} {a : Action} (hplaced : Placed s)
    (hstep : step build s a = some t) : Placed t := by
  have hspec := step_spec hstep
  cases hspec with
  | arrive hh hlive => exact hplaced.setHandler fun a ha => by cases ha
  | @found h room_id req a hh hroom hwatched =>
    refine hplaced.setHandler fun a' ha => ?_
    cases ha
    exact hplaced.mapped room_id a hroom
  | missed hh => exact hplaced.setHandler fun a ha => by cases ha
  | @refound h room_id req a hh hroom hwatched =>
    refine hplaced.setHandler fun a' ha => ?_
    cases ha
    exact hplaced.mapped room_id a hroom
  | @created h room_id req hh habandoned =>
    refine ⟨fun room_id' a ha => ?_, fun c hc => Nat.lt_succ_of_lt (hplaced.live c hc), fun h' a ha => ?_,
      fun e he => Nat.lt_succ_of_lt (hplaced.issued e he)⟩
    · simp only [Db.createRoom] at ha ⊢
      split_ifs at ha
      · cases ha
        exact Nat.lt_succ_self _
      · exact Nat.lt_succ_of_lt (hplaced.mapped room_id' a ha)
    · rcases setHandler_cases s h (.holding room_id req s.db.allocated) h' with heq | heq
      · rw [heq] at ha
        cases ha
        exact Nat.lt_succ_self _
      · rw [heq] at ha
        exact Nat.lt_succ_of_lt (hplaced.held h' a ha)
  | @subscribe h room_id last_seen a n hh hfirst =>
    have hdone := hplaced.finish h
    refine ⟨hdone.mapped, fun c hc => ?_, hdone.held, hdone.issued⟩
    rcases List.mem_append.mp hc with hc | hc
    · exact hplaced.live c hc
    · rw [List.mem_singleton] at hc
      subst hc
      exact hplaced.held h a (by rw [hh]; rfl)
  | @leak h room_id last_seen a hh hfirst =>
    have hdone := hplaced.finish h
    exact ⟨hdone.mapped, hdone.live, hdone.held, hdone.issued⟩
  | @issue h room_id holder a hh =>
    have hdone := hplaced.finish h
    refine ⟨hdone.mapped, hdone.live, hdone.held, fun e he => ?_⟩
    rcases List.mem_append.mp he with he | he
    · exact hplaced.issued e he
    · rw [List.mem_singleton] at he
      subst he
      exact hplaced.held h a (by rw [hh]; rfl)
  | @publish h room_id message a hh =>
    have hdone := hplaced.finish h
    exact ⟨hdone.mapped, hdone.live, hdone.held, hdone.issued⟩
  | deliver hfind hget hadd =>
    refine ⟨hplaced.mapped, fun d hd => ?_, hplaced.held, hplaced.issued⟩
    obtain ⟨e, he, -, -, hroom, -⟩ := mem_deliver_frame hd
    rw [← hroom]
    exact hplaced.live e he
  | overflow hfind hadd =>
    exact ⟨hplaced.mapped, fun d hd => hplaced.live d (mem_dropClient hd), hplaced.held, hplaced.issued⟩
  | drop hfind =>
    exact ⟨hplaced.mapped, fun d hd => hplaced.live d (mem_dropClient hd), hplaced.held, hplaced.issued⟩

/-! ### Invariants of single subscriptions -/

/-- A statement about each live subscription and the history of its room is kept by a step if it holds of
the subscription that opens, and of the ones that are published to and delivered to. -/
theorem step_live {build : U16.Build} {P : List String → Client → Prop} {s t : RoomSystem} {a : Action}
    (hnamed : Named s) (hplaced : Placed s) (hlive : ∀ c ∈ s.live, P (s.db.heap c.room).messages c)
    (hopen : ∀ h room_id last_seen b n, a = .finish h →
      s.handler h = .holding room_id (.subscribe last_seen) b → firstEvent build last_seen = some n →
        P (s.db.heap b).messages ⟨h, room_id, b, n, n, (s.db.heap b).messages.length, []⟩)
    (hpublish : ∀ h room_id message b, a = .finish h →
      s.handler h = .holding room_id (.broadcast message) b → ∀ c ∈ s.live, c.room = b →
        P (s.db.heap b).messages c → P ((s.db.heap b).messages ++ [message]) c)
    (hdeliver : ∀ c ∈ s.live, ∀ message n, (s.db.heap c.room).messages[c.next_event]? = some message →
      U16.addOne build c.next_event = some n → P (s.db.heap c.room).messages c →
        P (s.db.heap c.room).messages
          { c with next_event := n, returned := c.returned ++ [(c.next_event, message)] })
    (hstep : step build s a = some t) : ∀ c ∈ t.live, P (t.db.heap c.room).messages c := by
  -- a change of a room that keeps its messages
  have hkept : ∀ (b : Nat) {room : Room}, room.messages = (s.db.heap b).messages → ∀ c ∈ s.live,
      P ((s.db.setRoom b room).heap c.room).messages c := by
    intro b room hroom c hc
    rw [setRoom_congr Room.messages hroom]
    exact hlive c hc
  have hspec := step_spec hstep
  cases hspec with
  | arrive hh hlive' => exact hlive
  | found hh hroom hwatched => exact hlive
  | missed hh => exact hlive
  | refound hh hroom hwatched => exact hlive
  | created hh habandoned =>
    intro c hc
    have hlt := hplaced.live c hc
    show P (Room.messages (if c.room = s.db.allocated then _ else _)) c
    rw [if_neg (by omega)]
    exact hlive c hc
  | @subscribe h room_id last_seen b n hh hfirst =>
    intro c hc
    rcases List.mem_append.mp hc with hc | hc
    · exact hkept b (Room.addSubscriber_messages _) c hc
    · rw [List.mem_singleton] at hc
      subst hc
      show P ((s.db.setRoom b _).heap b).messages _
      rw [setRoom_congr Room.messages (Room.addSubscriber_messages (s.db.heap b))]
      exact hopen h room_id last_seen b n rfl hh hfirst
  | @leak h room_id last_seen b hh hfirst =>
    exact hkept b (Room.addSubscriber_messages _)
  | @issue h room_id holder b hh =>
    exact hkept b rfl
  | @publish h room_id message b hh =>
    intro c hc
    show P ((s.db.setRoom b _).heap c.room).messages c
    by_cases heq : c.room = b
    · rw [heq, setRoom_self]
      refine hpublish h room_id message b rfl hh c hc heq ?_
      rw [← heq]
      exact hlive c hc
    · rw [setRoom_of_ne s.db _ heq]
      exact hlive c hc
  | @deliver x c message n hfind hget hadd =>
    intro d hd
    rcases mem_deliver hd with ⟨e, he, hid, rfl⟩ | ⟨hd, -⟩
    · obtain rfl := hnamed.eq_of_id he (find_mem hfind).1 hid
      exact hdeliver e he message n hget hadd (hlive e he)
    · exact hlive d hd
  | @overflow x c hfind hadd =>
    exact fun d hd => hkept c.room (Room.dropSubscriber_messages _) d (mem_dropClient hd)
  | @drop x c hfind =>
    exact fun d hd => hkept c.room (Room.dropSubscriber_messages _) d (mem_dropClient hd)

end RoomSystem

end Gg20
