import MultiPartyTss.Lib.Log
import MultiPartyTss.Lib.Run
import MultiPartyTss.Gg20.Db

/-!
# Publishing and receiving in one room

One room under any number of `publish` calls and subscriptions, with the lock, the push, the
notification, the lookup, the creation of the `Notified` future and the release as separate steps.

* `stranded_free`: a subscriber that awaits a notification which has not fired has nothing to read, or a
  publisher still stands between its push and its `notify_waiters`.
* `delivery`: the room refines the append-only log of `Lib.Log`, so each subscription has been given the
  entries from its start on, in order, whatever the others do.
-/

namespace Gg20

namespace RoomDelivery

open Sync

/-- How far one `publish` call has come. -/
inductive Publisher where
  | idle
  | waiting (message : String)
  | locked (message : String)
  | pushed
  | notified
  | done
  deriving DecidableEq, Repr

/-- Where a subscriber stands in `Subscription::next`. -/
inductive Pc where
  | idle
  | waiting
  | locked
  /-- The lookup found nothing; the read lock is still held. -/
  | missed
  /-- The `Notified` future exists; the read lock is still held. -/
  | listening (t : Ticket)
  | awaiting (t : Ticket)
  | panicked
  deriving DecidableEq, Repr

structure Subscriber where
  next_event : Nat
  pc : Pc
  last_seen : Option Nat
  /-- What the completed `next` calls returned, oldest first. -/
  returned : List (Nat × String)
  deriving DecidableEq, Repr

structure System where
  room : Room
  lock : RwLock
  publisher : Nat → Publisher
  subscriber : Nat → Option Subscriber

inductive Action where
  | publish (i : Nat) (message : String)
  | lockWrite (i : Nat)
  | push (i : Nat)
  | notify (i : Nat)
  | unlock (i : Nat)
  | subscribe (x : Nat) (last_seen : Option Nat)
  | next (x : Nat)
  | lockRead (x : Nat)
  | look (x : Nat)
  | listen (x : Nat)
  | release (x : Nat)
  | wake (x : Nat)

def start (room : Room) : System := ⟨room, RwLock.free, fun _ => .idle, fun _ => none⟩

def System.setPublisher (s : System) (i : Nat) (p : Publisher) : System :=
  { s with publisher := fun j => if j = i then p else s.publisher j }

def System.setSubscriber (s : System) (x : Nat) (sub : Subscriber) : System :=
  { s with subscriber := fun y => if y = x then some sub else s.subscriber y }

def stepPublisher (s : System) (i : Nat) : Publisher → Action → Option System
  | .idle, .publish _ message => some (s.setPublisher i (.waiting message))
  | .waiting message, .lockWrite _ =>
    (s.lock.acquireWrite i).map fun lock => { s.setPublisher i (.locked message) with lock := lock }
  | .locked message, .push _ =>
    some { s.setPublisher i .pushed with
      room := { s.room with messages := s.room.messages ++ [message] } }
  | .pushed, .notify _ =>
    some { s.setPublisher i .notified with
      room := { s.room with message_appeared := s.room.message_appeared.notifyWaiters } }
  | .notified, .unlock _ => some { s.setPublisher i .done with lock := s.lock.releaseWrite }
  | _, _ => none

def stepSubscriber (build : U16.Build) (s : System) (x : Nat) (sub : Subscriber) :
    Pc → Action → Option System
  | .idle, .next _ => some (s.setSubscriber x { sub with pc := .waiting })
  | .waiting, .lockRead _ =>
    (s.lock.acquireRead x).map fun lock => { s.setSubscriber x { sub with pc := .locked } with lock := lock }
  | .locked, .look _ =>
    match look build s.room.messages sub.next_event with
    | .missing => some (s.setSubscriber x { sub with pc := .missed })
    -- returning drops the read guard, and so does the panic
    | .event id message next_event =>
      some { s.setSubscriber x { sub with
          next_event := next_event
          pc := .idle
          returned := sub.returned ++ [(id, message)] } with lock := s.lock.releaseRead x }
    | .overflow => some { s.setSubscriber x { sub with pc := .panicked } with lock := s.lock.releaseRead x }
  | .missed, .listen _ =>
    some (s.setSubscriber x { sub with pc := .listening s.room.message_appeared.notified })
  | .listening t, .release _ =>
    some { s.setSubscriber x { sub with pc := .awaiting t } with lock := s.lock.releaseRead x }
  | .awaiting t, .wake _ =>
    if s.room.message_appeared.Fired t then some (s.setSubscriber x { sub with pc := .waiting }) else none
  | _, _ => none

def stepSubscribe (build : U16.Build) (s : System) (x : Nat) (last_seen : Option Nat) : Option System :=
  match s.subscriber x with
  | some _ => none
  | none =>
    -- the counter moves before the cursor is computed, so an overflow panic leaves it moved
    let counted := { s with room := s.room.addSubscriber }
    match firstEvent build last_seen with
    | some next_event => some (counted.setSubscriber x ⟨next_event, .idle, last_seen, []⟩)
    | none => some counted

def step (build : U16.Build) (s : System) (a : Action) : Option System :=
  match a with
  | .subscribe x last_seen => stepSubscribe build s x last_seen
  | .publish i _ | .lockWrite i | .push i | .notify i | .unlock i => stepPublisher s i (s.publisher i) a
  | .next x | .lockRead x | .look x | .listen x | .release x | .wake x =>
    (s.subscriber x).bind fun sub => stepSubscriber build s x sub sub.pc a

/-! ### What a step does -/

/-- The steps, one constructor for each. -/
inductive Step (build : U16.Build) (s : System) : Action → System → Prop where
  | publish {i message} : s.publisher i = .idle →
      Step build s (.publish i message) (s.setPublisher i (.waiting message))
  | lockWrite {i message lock} : s.publisher i = .waiting message → s.lock.acquireWrite i = some lock →
      Step build s (.lockWrite i) { s.setPublisher i (.locked message) with lock := lock }
  | push {i message} : s.publisher i = .locked message →
      Step build s (.push i) { s.setPublisher i .pushed with
        room := { s.room with messages := s.room.messages ++ [message] } }
  | notify {i} : s.publisher i = .pushed →
      Step build s (.notify i) { s.setPublisher i .notified with
        room := { s.room with message_appeared := s.room.message_appeared.notifyWaiters } }
  | unlock {i} : s.publisher i = .notified →
      Step build s (.unlock i) { s.setPublisher i .done with lock := s.lock.releaseWrite }
  | subscribe {x last_seen next_event} : s.subscriber x = none →
      firstEvent build last_seen = some next_event →
      Step build s (.subscribe x last_seen) (System.setSubscriber
        { s with room := s.room.addSubscriber } x ⟨next_event, .idle, last_seen, []⟩)
  | subscribePanic {x last_seen} : s.subscriber x = none → firstEvent build last_seen = none →
      Step build s (.subscribe x last_seen) { s with room := s.room.addSubscriber }
  | next {x sub} : s.subscriber x = some sub → sub.pc = .idle →
      Step build s (.next x) (s.setSubscriber x { sub with pc := .waiting })
  | lockRead {x sub lock} : s.subscriber x = some sub → sub.pc = .waiting →
      s.lock.acquireRead x = some lock →
      Step build s (.lockRead x) { s.setSubscriber x { sub with pc := .locked } with lock := lock }
  | miss {x sub} : s.subscriber x = some sub → sub.pc = .locked →
      look build s.room.messages sub.next_event = .missing →
      Step build s (.look x) (s.setSubscriber x { sub with pc := .missed })
  | hit {x sub id message next_event} : s.subscriber x = some sub → sub.pc = .locked →
      look build s.room.messages sub.next_event = .event id message next_event →
      Step build s (.look x) { s.setSubscriber x { sub with
          next_event := next_event
          pc := .idle
          returned := sub.returned ++ [(id, message)] } with lock := s.lock.releaseRead x }
  | overflow {x sub} : s.subscriber x = some sub → sub.pc = .locked →
      look build s.room.messages sub.next_event = .overflow →
      Step build s (.look x) { s.setSubscriber x { sub with pc := .panicked } with
        lock := s.lock.releaseRead x }
  | listen {x sub} : s.subscriber x = some sub → sub.pc = .missed →
      Step build s (.listen x)
        (s.setSubscriber x { sub with pc := .listening s.room.message_appeared.notified })
  | release {x sub t} : s.subscriber x = some sub → sub.pc = .listening t →
      Step build s (.release x) { s.setSubscriber x { sub with pc := .awaiting t } with
        lock := s.lock.releaseRead x }
  | wake {x sub t} : s.subscriber x = some sub → sub.pc = .awaiting t →
      s.room.message_appeared.Fired t →
      Step build s (.wake x) (s.setSubscriber x { sub with pc := .waiting })

theorem stepPublisher_spec {build : U16.Build} {s t : System} {i : Nat} {a : Action}
    (ha : a = .lockWrite i ∨ a = .push i ∨ a = .notify i ∨ a = .unlock i ∨ ∃ m, a = .publish i m)
    (h : stepPublisher s i (s.publisher i) a = some t) : Step build s a t := by
  cases hp : s.publisher i with
  | idle =>
    rcases ha with rfl | rfl | rfl | rfl | ⟨m, rfl⟩ <;> simp [stepPublisher, hp] at h
    subst h
    exact .publish hp
  | waiting message =>
    rcases ha with rfl | rfl | rfl | rfl | ⟨m, rfl⟩ <;> simp [stepPublisher, hp] at h
    obtain ⟨lock, hlock, rfl⟩ := h
    exact .lockWrite hp hlock
  | locked message =>
    rcases ha with rfl | rfl | rfl | rfl | ⟨m, rfl⟩ <;> simp [stepPublisher, hp] at h
    subst h
    exact .push hp
  | pushed =>
    rcases ha with rfl | rfl | rfl | rfl | ⟨m, rfl⟩ <;> simp [stepPublisher, hp] at h
    subst h
    exact .notify hp
  | notified =>
    rcases ha with rfl | rfl | rfl | rfl | ⟨m, rfl⟩ <;> simp [stepPublisher, hp] at h
    subst h
    exact .unlock hp
  | done => rcases ha with rfl | rfl | rfl | rfl | ⟨m, rfl⟩ <;> simp [stepPublisher, hp] at h

theorem stepSubscriber_spec {build : U16.Build} {s t : System} {x : Nat} {sub : Subscriber} {a : Action}
    (ha : a = .next x ∨ a = .lockRead x ∨ a = .look x ∨ a = .listen x ∨ a = .release x ∨ a = .wake x)
    (hsub : s.subscriber x = some sub) (h : stepSubscriber build s x sub sub.pc a = some t) :
    Step build s a t := by
  cases hpc : sub.pc with
  | idle =>
    rcases ha with rfl | rfl | rfl | rfl | rfl | rfl <;> simp [stepSubscriber, hpc] at h
    subst h
    exact .next hsub hpc
  | waiting =>
    rcases ha with rfl | rfl | rfl | rfl | rfl | rfl <;> simp [stepSubscriber, hpc] at h
    obtain ⟨lock, hlock, rfl⟩ := h
    exact .lockRead hsub hpc hlock
  | locked =>
    rcases ha with rfl | rfl | rfl | rfl | rfl | rfl <;> simp [stepSubscriber, hpc] at h
    cases hlook : look build s.room.messages sub.next_event with
    | missing =>
      simp only [hlook, Option.some.injEq] at h
      subst h
      exact .miss hsub hpc hlook
    | event id message next_event =>
      simp only [hlook, Option.some.injEq] at h
      subst h
      exact .hit hsub hpc hlook
    | overflow =>
      simp only [hlook, Option.some.injEq] at h
      subst h
      exact .overflow hsub hpc hlook
  | missed =>
    rcases ha with rfl | rfl | rfl | rfl | rfl | rfl <;> simp [stepSubscriber, hpc] at h
    subst h
    exact .listen hsub hpc
  | listening tk =>
    rcases ha with rfl | rfl | rfl | rfl | rfl | rfl <;> simp [stepSubscriber, hpc] at h
    subst h
    exact .release hsub hpc
  | awaiting tk =>
    rcases ha with rfl | rfl | rfl | rfl | rfl | rfl <;> simp [stepSubscriber, hpc] at h
    obtain ⟨hfired, rfl⟩ := h
    exact .wake hsub hpc hfired
  | panicked => rcases ha with rfl | rfl | rfl | rfl | rfl | rfl <;> simp [stepSubscriber, hpc] at h

theorem step_spec {build : U16.Build} {s t : System} {a : Action} (h : step build s a = some t) :
    Step build s a t := by
  cases a with
  | subscribe x last_seen =>
    simp only [step, stepSubscribe] at h
    cases hsub : s.subscriber x with
    | some sub => simp [hsub] at h
    | none =>
      cases hfirst : firstEvent build last_seen with
      | none =>
        simp only [hsub, hfirst, Option.some.injEq] at h
        subst h
        exact .subscribePanic hsub hfirst
      | some n =>
        simp only [hsub, hfirst, Option.some.injEq] at h
        subst h
        exact .subscribe hsub hfirst
  | publish i m => exact stepPublisher_spec (by simp) h
  | lockWrite i => exact stepPublisher_spec (by simp) h
  | push i => exact stepPublisher_spec (by simp) h
  | notify i => exact stepPublisher_spec (by simp) h
  | unlock i => exact stepPublisher_spec (by simp) h
  | next x =>
    obtain ⟨sub, hsub, h⟩ := Option.bind_eq_some_iff.mp h
    exact stepSubscriber_spec (by simp) hsub h
  | lockRead x =>
    obtain ⟨sub, hsub, h⟩ := Option.bind_eq_some_iff.mp h
    exact stepSubscriber_spec (by simp) hsub h
  | look x =>
    obtain ⟨sub, hsub, h⟩ := Option.bind_eq_some_iff.mp h
    exact stepSubscriber_spec (by simp) hsub h
  | listen x =>
    obtain ⟨sub, hsub, h⟩ := Option.bind_eq_some_iff.mp h
    exact stepSubscriber_spec (by simp) hsub h
  | release x =>
    obtain ⟨sub, hsub, h⟩ := Option.bind_eq_some_iff.mp h
    exact stepSubscriber_spec (by simp) hsub h
  | wake x =>
    obtain ⟨sub, hsub, h⟩ := Option.bind_eq_some_iff.mp h
    exact stepSubscriber_spec (by simp) hsub h

/-! ### Who holds the lock, and what a waiting subscriber has seen -/

/-- The publisher holds the write lock. -/
def Publisher.Holds : Publisher → Prop
  | .locked _ | .pushed | .notified => True
  | .idle | .waiting _ | .done => False

/-- The subscriber holds the read lock. -/
def Pc.Holds : Pc → Prop
  | .locked | .missed | .listening _ => True
  | _ => False

/-- The lookup found nothing and the read lock is still held. -/
def Pc.Missed : Pc → Prop
  | .missed | .listening _ => True
  | _ => False

def Pc.ticket : Pc → Option Ticket
  | .listening t | .awaiting t => some t
  | _ => none

structure Inv (s : System) : Prop where
  holder : ∀ i, (s.publisher i).Holds → s.lock = .writing i
  reader : ∀ x sub, s.subscriber x = some sub → sub.pc.Holds → s.lock.HasReader x
  missed : ∀ x sub, s.subscriber x = some sub → sub.pc.Missed →
    s.room.messages.length ≤ sub.next_event
  created : ∀ x sub, s.subscriber x = some sub → ∀ t, sub.pc.ticket = some t →
    s.room.message_appeared.Created t
  awaiting : ∀ x sub, s.subscriber x = some sub → ∀ t, sub.pc = .awaiting t →
    ¬ s.room.message_appeared.Fired t →
    s.room.messages.length ≤ sub.next_event ∨ ∃ i, s.publisher i = .pushed

theorem start_inv (room : Room) : Inv (start room) := by
  constructor
  · intro i h
    cases h
  all_goals
    intro x sub hsub
    cases hsub

theorem setSubscriber_cases {s : System} {x y : Nat} {sub sub' : Subscriber}
    (h : (s.setSubscriber x sub).subscriber y = some sub') :
    (y = x ∧ sub' = sub) ∨ (y ≠ x ∧ s.subscriber y = some sub') := by
  simp only [System.setSubscriber] at h
  by_cases hxy : y = x
  · rw [if_pos hxy, Option.some.injEq] at h
    exact Or.inl ⟨hxy, h.symm⟩
  · rw [if_neg hxy] at h
    exact Or.inr ⟨hxy, h⟩

theorem setPublisher_self (s : System) (i : Nat) (p : Publisher) :
    (s.setPublisher i p).publisher i = p := if_pos rfl

theorem setPublisher_of_ne (s : System) {i j : Nat} (p : Publisher) (h : j ≠ i) :
    (s.setPublisher i p).publisher j = s.publisher j := if_neg h

/-- A move of one subscriber keeps the invariant if the subscriber's own clauses hold after it and the
lock keeps its other holders. -/
theorem Inv.moveSubscriber {s : System} (hinv : Inv s) {x : Nat} {sub : Subscriber} {lock : RwLock}
    (hwriter : ∀ i, s.lock = .writing i → lock = .writing i)
    (hothers : ∀ y, y ≠ x → s.lock.HasReader y → lock.HasReader y)
    (hreader : sub.pc.Holds → lock.HasReader x)
    (hmissed : sub.pc.Missed → s.room.messages.length ≤ sub.next_event)
    (hcreated : ∀ t, sub.pc.ticket = some t → s.room.message_appeared.Created t)
    (hawaiting : ∀ t, sub.pc = .awaiting t → ¬ s.room.message_appeared.Fired t →
      s.room.messages.length ≤ sub.next_event ∨ ∃ i, s.publisher i = .pushed) :
    Inv { s.setSubscriber x sub with lock := lock } := by
  constructor
  · exact fun i hi => hwriter i (hinv.holder i hi)
  · intro y sub' hy hholds
    rcases setSubscriber_cases hy with ⟨rfl, rfl⟩ | ⟨hne, hy⟩
    · exact hreader hholds
    · exact hothers y hne (hinv.reader y sub' hy hholds)
  · intro y sub' hy hmiss
    rcases setSubscriber_cases hy with ⟨rfl, rfl⟩ | ⟨-, hy⟩
    · exact hmissed hmiss
    · exact hinv.missed y sub' hy hmiss
  · intro y sub' hy t ht
    rcases setSubscriber_cases hy with ⟨rfl, rfl⟩ | ⟨-, hy⟩
    · exact hcreated t ht
    · exact hinv.created y sub' hy t ht
  · intro y sub' hy t hpc hpending
    rcases setSubscriber_cases hy with ⟨rfl, rfl⟩ | ⟨-, hy⟩
    · exact hawaiting t hpc hpending
    · exact hinv.awaiting y sub' hy t hpc hpending

/-- The write lock excludes every reader. -/
theorem Inv.no_reader {s : System} (hinv : Inv s) {i : Nat} (hi : (s.publisher i).Holds) (x : Nat) :
    ¬ s.lock.HasReader x := by
  rw [hinv.holder i hi]
  exact RwLock.not_hasReader_writing i x

/-- The write lock has one holder. -/
theorem Inv.holder_unique {s : System} (hinv : Inv s) {i j : Nat} (hi : (s.publisher i).Holds)
    (hj : (s.publisher j).Holds) : j = i := by
  have h := (hinv.holder j hj).symm.trans (hinv.holder i hi)
  rw [RwLock.writing.injEq] at h
  exact h

/-- Under the write lock no subscriber has missed and kept its read lock. -/
theorem Inv.not_missed {s : System} (hinv : Inv s) {i : Nat} (hi : (s.publisher i).Holds) {x : Nat}
    {sub : Subscriber} (hsub : s.subscriber x = some sub) : ¬ sub.pc.Missed := by
  intro hmissed
  refine hinv.no_reader hi x (hinv.reader x sub hsub ?_)
  cases hpc : sub.pc <;> simp_all [Pc.Missed, Pc.Holds]

theorem publisher_inv {s t : System} {i : Nat} {p : Publisher} {room : Room} {lock : RwLock}
    (hinv : Inv s) (ht : t = { s.setPublisher i p with room := room, lock := lock })
    (hself : p.Holds → lock = .writing i)
    (hothers : ∀ j, j ≠ i → (s.publisher j).Holds → lock = .writing j)
    (hreaders : ∀ x sub, s.subscriber x = some sub → sub.pc.Holds → lock.HasReader x)
    (hmissed : ∀ x sub, s.subscriber x = some sub → sub.pc.Missed →
      room.messages.length ≤ sub.next_event)
    (hcreated : ∀ t, s.room.message_appeared.Created t → room.message_appeared.Created t)
    (hawaiting : ∀ x sub, s.subscriber x = some sub → ∀ t, sub.pc = .awaiting t →
      ¬ room.message_appeared.Fired t →
      room.messages.length ≤ sub.next_event ∨ ∃ j, (s.setPublisher i p).publisher j = .pushed) :
    Inv t := by
  subst ht
  constructor
  · intro j hj
    by_cases hji : j = i
    · subst hji
      exact hself (by simpa only [setPublisher_self] using hj)
    · exact hothers j hji (by simpa only [setPublisher_of_ne s p hji] using hj)
  · exact hreaders
  · exact hmissed
  · exact fun x sub hsub t ht => hcreated t (hinv.created x sub hsub t ht)
  · exact hawaiting

/-- A publisher other than the moving one that stands after its push still does. -/
theorem pushed_persists {s : System} {i : Nat} {p : Publisher} (hi : s.publisher i ≠ .pushed)
    (h : ∃ j, s.publisher j = .pushed) : ∃ j, (s.setPublisher i p).publisher j = .pushed := by
  obtain ⟨j, hj⟩ := h
  have hji : j ≠ i := by
    rintro rfl
    exact hi hj
  exact ⟨j, by rw [setPublisher_of_ne s p hji, hj]⟩

theorem step_inv {build : U16.Build} {s t : System} {a : Action} (hinv : Inv s)
    (h : step build s a = some t) : Inv t := by
  have hspec := step_spec h
  cases hspec with
  | @publish i message hp =>
    refine publisher_inv hinv rfl (fun h => h.elim) (fun j _ => hinv.holder j) hinv.reader hinv.missed
      (fun _ => id) fun x sub hsub t hpc hpending => ?_
    exact (hinv.awaiting x sub hsub t hpc hpending).imp_right (pushed_persists (by simp [hp]))
  | @lockWrite i message lock hp hlock =>
    obtain ⟨hfree, rfl⟩ := RwLock.acquireWrite_some hlock
    refine publisher_inv hinv rfl (fun _ => rfl) (fun j _ hj => ?_) (fun x sub hsub hpc => ?_)
      hinv.missed (fun _ => id) fun x sub hsub t hpc hpending => ?_
    · have hj' := hinv.holder j hj
      rw [hfree] at hj'
      cases hj'
    · have hx := hinv.reader x sub hsub hpc
      rw [hfree] at hx
      exact absurd hx (RwLock.not_hasReader_free x)
    · exact (hinv.awaiting x sub hsub t hpc hpending).imp_right (pushed_persists (by simp [hp]))
  | @push i message hp =>
    have hi : (s.publisher i).Holds := by rw [hp]; trivial
    refine publisher_inv hinv rfl (fun _ => hinv.holder i hi) (fun j _ => hinv.holder j) hinv.reader
      (fun x sub hsub hpc => absurd hpc (hinv.not_missed hi hsub)) (fun _ => id)
      fun x sub hsub t hpc hpending => ?_
    exact Or.inr ⟨i, setPublisher_self s i .pushed⟩
  | @notify i hp =>
    have hi : (s.publisher i).Holds := by rw [hp]; trivial
    refine publisher_inv hinv rfl (fun _ => hinv.holder i hi) (fun j _ => hinv.holder j) hinv.reader
      hinv.missed (fun _ ht => ht.notifyWaiters) fun x sub hsub t hpc hpending => ?_
    -- every future in use was created before this call
    have hcreated := hinv.created x sub hsub t (by rw [hpc]; rfl)
    exact absurd hcreated.fired hpending
  | @unlock i hp =>
    have hi : (s.publisher i).Holds := by rw [hp]; trivial
    refine publisher_inv hinv rfl (fun h => h.elim)
      (fun j hji hj => absurd (hinv.holder_unique hi hj) hji)
      (fun x sub hsub hpc => absurd (hinv.reader x sub hsub hpc) (hinv.no_reader hi x)) hinv.missed
      (fun _ => id) fun x sub hsub t hpc hpending => ?_
    exact (hinv.awaiting x sub hsub t hpc hpending).imp_right (pushed_persists (by simp [hp]))
  | @subscribe x last_seen next_event hsub hfirst =>
    have hcounted : Inv { s with room := s.room.addSubscriber } :=
      ⟨hinv.holder, hinv.reader, hinv.missed, hinv.created, hinv.awaiting⟩
    exact hcounted.moveSubscriber (fun _ => id) (fun _ _ => id) (fun h => h.elim) (fun h => h.elim)
      (fun t ht => by cases ht) (fun t ht => by cases ht)
  | subscribePanic hsub hfirst =>
    exact ⟨hinv.holder, hinv.reader, hinv.missed, hinv.created, hinv.awaiting⟩
  | @next x sub hsub hpc =>
    exact hinv.moveSubscriber (fun _ => id) (fun _ _ => id) (fun h => h.elim) (fun h => h.elim)
      (fun t ht => by cases ht) (fun t ht => by cases ht)
  | @lockRead x sub lock hsub hpc hlock =>
    obtain ⟨hself, hothers, hnowriter, -⟩ := RwLock.acquireRead_some hlock
    exact hinv.moveSubscriber (fun i hi => absurd hi (hnowriter i)) (fun y _ => hothers y)
      (fun _ => hself) (fun h => h.elim) (fun t ht => by cases ht) (fun t ht => by cases ht)
  | @miss x sub hsub hpc hlook =>
    have hx := hinv.reader x sub hsub (by rw [hpc]; trivial)
    exact hinv.moveSubscriber (fun _ => id) (fun _ _ => id) (fun _ => hx) (fun _ => look_missing hlook)
      (fun t ht => by cases ht) (fun t ht => by cases ht)
  | @hit x sub id message next_event hsub hpc hlook =>
    exact hinv.moveSubscriber (fun _ => RwLock.releaseRead_writing.mpr) (fun y hy h => h.release hy)
      (fun h => h.elim) (fun h => h.elim) (fun t ht => by cases ht) (fun t ht => by cases ht)
  | @overflow x sub hsub hpc hlook =>
    exact hinv.moveSubscriber (fun _ => RwLock.releaseRead_writing.mpr) (fun y hy h => h.release hy)
      (fun h => h.elim) (fun h => h.elim) (fun t ht => by cases ht) (fun t ht => by cases ht)
  | @listen x sub hsub hpc =>
    have hx := hinv.reader x sub hsub (by rw [hpc]; trivial)
    have hmissed := hinv.missed x sub hsub (by rw [hpc]; trivial)
    refine hinv.moveSubscriber (fun _ => id) (fun _ _ => id) (fun _ => hx) (fun _ => hmissed)
      (fun t ht => ?_) (fun t ht => by cases ht)
    cases ht
    exact s.room.message_appeared.created_notified
  | @release x sub t hsub hpc =>
    have hmissed := hinv.missed x sub hsub (by rw [hpc]; trivial)
    refine hinv.moveSubscriber (fun _ => RwLock.releaseRead_writing.mpr) (fun y hy h => h.release hy)
      (fun h => h.elim) (fun h => h.elim) (fun t' ht' => ?_) (fun _ _ _ => Or.inl hmissed)
    exact hinv.created x sub hsub t' (by rw [hpc]; exact ht')
  | @wake x sub t hsub hpc hfired =>
    exact hinv.moveSubscriber (fun _ => id) (fun _ _ => id) (fun h => h.elim) (fun h => h.elim)
      (fun t ht => by cases ht) (fun t ht => by cases ht)

/-- No wakeup is lost: a subscriber that awaits a notification which has not fired has read all there
is, or a publisher that holds the write lock has pushed and not yet notified. -/
theorem no_lost_wakeup (build : U16.Build) (room : Room) (as : List Action) (s : System)
    (hrun : Machine.exec (step build) (start room) as = some s) (x : Nat) (sub : Subscriber)
    (t : Ticket) (hsub : s.subscriber x = some sub) (hpc : sub.pc = .awaiting t)
    (hpending : ¬ s.room.message_appeared.Fired t) :
    s.room.messages.length ≤ sub.next_event ∨
      ∃ i, s.publisher i = .pushed ∧ s.lock = .writing i := by
  have hinv : Inv s := Machine.exec_invariant (fun _ _ _ => step_inv) (start_inv room) hrun
  rcases hinv.awaiting x sub hsub t hpc hpending with hread | ⟨i, hi⟩
  · exact Or.inl hread
  · exact Or.inr ⟨i, hi, hinv.holder i (by rw [hi]; trivial)⟩

/-- Subscriber 0 finds nothing and waits; then publisher 1 pushes. -/
def waitThenPush : List Action :=
  [.subscribe 0 none, .next 0, .lockRead 0, .look 0, .listen 0, .release 0, .publish 1 "m", .lockWrite 1,
    .push 1]

theorem waitThenPush_pending :
    ∃ s, Machine.exec (step .release) (start Room.empty) waitThenPush = some s ∧
      (s.room.messages.length ≤ 0 ∨ ∃ i, s.publisher i = .pushed ∧ s.lock = .writing i) :=
  ⟨_, rfl, no_lost_wakeup .release Room.empty waitThenPush _ rfl 0 ⟨0, .awaiting 0, none, []⟩ 0 rfl rfl
    (by decide)⟩

/-! ### The room refines the log -/

/-- Where `subscribe(last_seen)` starts. -/
def startOf : Option Nat → Nat
  | none => 0
  | some k => k + 1

/-- The event ids that the step moves a cursor to stay below `2^16`. -/
def IdsFit (s : System) : Action → Prop
  | .subscribe _ last_seen => startOf last_seen < U16.size
  | .look x => ∀ sub, s.subscriber x = some sub → sub.next_event < s.room.messages.length →
      sub.next_event + 1 < U16.size
  | _ => True

/-- The log's state for a room: the history, and of every subscription its start and its returns. -/
def System.log (s : System) : Log.State String where
  log := s.room.messages
  reader x := (s.subscriber x).map fun sub => ⟨startOf sub.last_seen, sub.returned⟩

/-- The cursor of every subscription is its start plus the number of its returns. -/
def Counted (s : System) : Prop :=
  ∀ x sub, s.subscriber x = some sub → sub.next_event = startOf sub.last_seen + sub.returned.length

theorem firstEvent_of_fits {build : U16.Build} {last_seen : Option Nat}
    (h : startOf last_seen < U16.size) : firstEvent build last_seen = some (startOf last_seen) := by
  cases last_seen with
  | none => rfl
  | some k => exact U16.addOne_of_lt h

theorem log_setSubscriber (s : System) (x : Nat) (sub : Subscriber) :
    (s.setSubscriber x sub).log = s.log.setReader x ⟨startOf sub.last_seen, sub.returned⟩ := by
  simp only [System.log, System.setSubscriber, Log.State.setReader]
  congr 1
  funext y
  split <;> rfl

theorem counted_setSubscriber {s : System} (h : Counted s) {x : Nat} {sub : Subscriber}
    (hsub : sub.next_event = startOf sub.last_seen + sub.returned.length) :
    Counted (s.setSubscriber x sub) := by
  intro y sub' hy
  rcases setSubscriber_cases hy with ⟨-, rfl⟩ | ⟨-, hy⟩
  · exact hsub
  · exact h y sub' hy

/-- A move of a subscriber that returns nothing is invisible in the log. -/
theorem stutter {s t : System} (hcounted : Counted s) {x : Nat} {sub sub' : Subscriber}
    (hsub : s.subscriber x = some sub) (hmessages : t.room.messages = s.room.messages)
    (hsubscriber : t.subscriber = (s.setSubscriber x sub').subscriber)
    (hstart : sub'.last_seen = sub.last_seen) (hreturned : sub'.returned = sub.returned)
    (hnext : sub'.next_event = sub.next_event) :
    Counted t ∧ ∃ bs, Machine.exec Log.step s.log bs = some t.log := by
  have hmoved : Counted (s.setSubscriber x sub') :=
    counted_setSubscriber hcounted (by rw [hnext, hstart, hreturned, hcounted x sub hsub])
  refine ⟨fun y sub'' hy => hmoved y sub'' (by rw [← hsubscriber, hy]), [], congrArg some ?_⟩
  simp only [System.log, hmessages, hsubscriber, System.setSubscriber]
  congr 1
  funext y
  split_ifs with hy
  · rw [hy, hsub, Option.map_some, Option.map_some, hstart, hreturned]
  · rfl

/-- Every step of the room is a step of the log or invisible in it: a push appends, a subscription
opens a reader, a lookup that finds its event delivers it. -/
theorem step_refines {build : U16.Build} {s t : System} {a : Action} (hcounted : Counted s)
    (hfit : IdsFit s a) (h : step build s a = some t) :
    Counted t ∧ ∃ bs, Machine.exec Log.step s.log bs = some t.log := by
  have hspec := step_spec h
  cases hspec with
  | publish hp => exact ⟨hcounted, [], rfl⟩
  | lockWrite hp hlock => exact ⟨hcounted, [], rfl⟩
  | @push i message hp => exact ⟨hcounted, [.append message], rfl⟩
  | notify hp => exact ⟨hcounted, [], rfl⟩
  | unlock hp => exact ⟨hcounted, [], rfl⟩
  | @subscribe x last_seen next_event hsub hfirst =>
    rw [firstEvent_of_fits hfit, Option.some.injEq] at hfirst
    subst hfirst
    refine ⟨counted_setSubscriber (s := { s with room := s.room.addSubscriber }) hcounted rfl,
      [.openAt x (startOf last_seen)], ?_⟩
    have hreader : s.log.reader x = none := by simp [System.log, hsub]
    rw [log_setSubscriber]
    simp only [Machine.exec, Log.step, hreader, Option.bind_some]
    rfl
  | subscribePanic hsub hfirst =>
    rw [firstEvent_of_fits hfit] at hfirst
    cases hfirst
  | next hsub hpc => exact stutter hcounted hsub rfl rfl rfl rfl rfl
  | lockRead hsub hpc hlock => exact stutter hcounted hsub rfl rfl rfl rfl rfl
  | miss hsub hpc hlook => exact stutter hcounted hsub rfl rfl rfl rfl rfl
  | @hit x sub id message next_event hsub hpc hlook =>
    obtain ⟨rfl, hget, hadd⟩ := look_event hlook
    have hlt : sub.next_event < s.room.messages.length := (List.getElem?_eq_some_iff.mp hget).1
    rw [U16.addOne_of_lt (hfit sub hsub hlt), Option.some.injEq] at hadd
    subst hadd
    have hcursor := hcounted x sub hsub
    constructor
    · refine counted_setSubscriber hcounted ?_
      rw [List.length_append, List.length_singleton, hcursor]
      rfl
    · refine ⟨[.deliver x], ?_⟩
      have hreader : s.log.reader x = some ⟨startOf sub.last_seen, sub.returned⟩ := by
        simp [System.log, hsub]
      have hentry : s.log.log[startOf sub.last_seen + sub.returned.length]? = some message := by
        rw [← hcursor]
        exact hget
      simp only [Machine.exec, Log.step, hreader, hentry, Option.bind_some]
      rw [← hcursor]
      exact congrArg some (log_setSubscriber s x ⟨sub.next_event + 1, .idle, sub.last_seen,
        sub.returned ++ [(sub.next_event, message)]⟩).symm
  | overflow hsub hpc hlook => exact stutter hcounted hsub rfl rfl rfl rfl rfl
  | listen hsub hpc => exact stutter hcounted hsub rfl rfl rfl rfl rfl
  | release hsub hpc => exact stutter hcounted hsub rfl rfl rfl rfl rfl
  | wake hsub hpc hfired => exact stutter hcounted hsub rfl rfl rfl rfl rfl

theorem start_counted (room : Room) : Counted (start room) := by
  intro x sub hsub
  cases hsub

/-- A run of the room is a run of the log. -/
theorem exec_refines {build : U16.Build} {room : Room} {as : List Action} {s : System}
    (hrun : Machine.exec (step build) (start room) as = some s)
    (hfit : Machine.Guarded (step build) IdsFit (start room) as) :
    ∃ bs, Machine.exec Log.step (start room).log bs = some s.log := by
  have hsim : ∀ (s : System) (a : Action) (s' : System) (t : Log.State String),
      (Counted s ∧ t = s.log) → IdsFit s a → step build s a = some s' →
      ∃ bs t', Machine.exec Log.step t bs = some t' ∧ Counted s' ∧ t' = s'.log := by
    rintro s a s' t ⟨hcounted, rfl⟩ hp hstep
    obtain ⟨hcounted', bs, hbs⟩ := step_refines hcounted hp hstep
    exact ⟨bs, s'.log, hbs, hcounted', rfl⟩
  obtain ⟨bs, t, hbs, -, rfl⟩ :=
    Machine.exec_simulation hsim ⟨start_counted room, rfl⟩ hfit hrun
  exact ⟨bs, hbs⟩

/-- Every subscription has been given the history from its start on: its `i`-th completed `next` call
returned `(start + i, messages[start + i])`, with nothing skipped, repeated or mispaired. -/
theorem delivery (build : U16.Build) (room : Room) (as : List Action) (s : System)
    (hrun : Machine.exec (step build) (start room) as = some s)
    (hfit : Machine.Guarded (step build) IdsFit (start room) as) (x : Nat) (sub : Subscriber)
    (hsub : s.subscriber x = some sub) :
    sub.returned = Log.window s.room.messages (startOf sub.last_seen) sub.returned.length ∧
      ∀ i < sub.returned.length, ∃ message,
        s.room.messages[startOf sub.last_seen + i]? = some message ∧
          sub.returned[i]? = some (startOf sub.last_seen + i, message) := by
  obtain ⟨bs, hbs⟩ := exec_refines hrun hfit
  have hstart : Log.Delivered (start room).log := fun y reader hy => by cases hy
  have hdelivered := Log.exec_delivered hstart hbs
  have hreceived : Log.Received s.room.messages (startOf sub.last_seen) sub.returned :=
    hdelivered x ⟨startOf sub.last_seen, sub.returned⟩ (by simp [System.log, hsub])
  exact ⟨hreceived, fun i hi => hreceived.getElem? hi⟩

/-- A subscription that resumes after event 0 of a room with two messages is given event 1. -/
theorem resumed_delivery :
    ∃ s sub, Machine.exec (step .release) (start { Room.empty with messages := ["a", "b"] })
        [.subscribe 0 (some 0), .next 0, .lockRead 0, .look 0] = some s ∧
      s.subscriber 0 = some sub ∧ sub.returned = Log.window s.room.messages 1 1 := by
  refine ⟨_, ⟨2, .idle, some 0, [(1, "b")]⟩, rfl, rfl, ?_⟩
  refine (delivery .release { Room.empty with messages := ["a", "b"] }
    [.subscribe 0 (some 0), .next 0, .lockRead 0, .look 0] _ rfl ?_ 0 ⟨2, .idle, some 0, [(1, "b")]⟩ rfl).1
  refine ⟨show 1 < U16.size by decide, fun t ht => ?_⟩
  cases ht
  refine ⟨trivial, fun t ht => ?_⟩
  cases ht
  refine ⟨trivial, fun t ht => ?_⟩
  cases ht
  refine ⟨?_, fun _ _ => trivial⟩
  rintro _ ⟨⟩ _
  decide

end RoomDelivery

end Gg20
