import Mathlib.Algebra.BigOperators.Group.Finset.Piecewise
import Mathlib.Algebra.Order.BigOperators.Group.Finset
import Mathlib.Data.List.FinRange
import MultiPartyTss.Lib.Run
import MultiPartyTss.Gg20.SmClient

/-!
# The online stage of a signing

`n` signers exchange their partial signatures over one fresh room. Each subscribes, is issued an index,
broadcasts its partial signature, takes messages that its filter lets through from its stream until it has
`n - 1`, and drops its subscription. A lookup of the room by `issue_unique_idx` or `broadcast` and the
operation on the room are steps of their own; for `subscribe` they are one. No request fails here, and no stream
ends by itself.

The history is that of the signers in the order of their broadcasts, and what a signer has collected is the
part before its cursor without its own message (`Inv`). Nobody leaves before all have broadcast, so the room
is never replaced while somebody needs it. `partial_signatures_exchanged`: who completes has one message of
each of the others, and once all have broadcast, what is missing is ahead of the cursor.
-/

namespace Gg20

/-- `get_room_or_create_empty` as one step. -/
def Db.getRoom (db : Db) (room_id : String) : Nat × Db :=
  match db.readRoom room_id with
  | some a => (a, db)
  | none => db.writeRoom room_id

structure Subscription where
  room : Nat
  next_event : Nat
  deriving DecidableEq, Repr

/-- How far a handler has come in `get_room_or_create_empty`. -/
inductive Lookup where
  | looking
  | creating
  | holding (room : Nat)
  deriving DecidableEq, Repr

def Lookup.next (db : Db) (room_id : String) : Lookup → Lookup × Db
  | looking =>
    match db.readRoom room_id with
    | some a => (holding a, db)
    | none => (creating, db)
  | creating => (holding (db.writeRoom room_id).1, (db.writeRoom room_id).2)
  | holding a => (holding a, db)

/-- Where a signer is in `join_computation` and the online stage of `sign`. -/
inductive Phase (M : Type) where
  | joining
  | issuing (subscription : Subscription) (lookup : Lookup)
  | sending (subscription : Subscription) (i : Nat) (lookup : Lookup)
  | collecting (subscription : Subscription) (i : Nat) (partial_signatures : List (Msg M))
  | finished (i : Nat) (partial_signatures : List (Msg M))
  | failed

namespace Phase

variable {M : Type}

def index : Phase M → Option Nat
  | sending _ i _ | collecting _ i _ | finished i _ => some i
  | joining | issuing _ _ | failed => none

/-- Whether the subscription is open. -/
def live : Phase M → Nat
  | issuing _ _ | sending _ _ _ | collecting _ _ _ => 1
  | joining | finished _ _ | failed => 0

def issued (phase : Phase M) : Nat := if phase.index.isSome then 1 else 0

def sent : Phase M → Bool
  | collecting _ _ _ | finished _ _ => true
  | joining | issuing _ _ | sending _ _ _ | failed => false

/-- What the signer has collected, if that is all. -/
def complete (n : Nat) : Phase M → Option (List (Msg M))
  | collecting _ _ partial_signatures =>
    if partial_signatures.length = n - 1 then some partial_signatures else none
  | finished _ partial_signatures => some partial_signatures
  | _ => none

theorem live_le (phase : Phase M) : phase.live ≤ 1 := by
  cases phase <;> simp [live]

theorem issued_le (phase : Phase M) : phase.issued ≤ 1 := by
  unfold issued
  split_ifs <;> omega

theorem index_of_sent {p : Phase M} (h : p.sent = true) : ∃ i, p.index = some i := by
  cases p with
  | collecting subscription i partial_signatures => exact ⟨i, rfl⟩
  | finished i partial_signatures => exact ⟨i, rfl⟩
  | joining => exact (Bool.false_ne_true h).elim
  | issuing => exact (Bool.false_ne_true h).elim
  | sending => exact (Bool.false_ne_true h).elim
  | failed => exact (Bool.false_ne_true h).elim

end Phase

structure OnlineStage (n : Nat) (M : Type) where
  db : Db
  signer : Fin n → Phase M

namespace OnlineStage

open SmClient

variable {n : Nat} {M : Type}

def start (n : Nat) (M : Type) (db : Db) : OnlineStage n M := ⟨db, fun _ => .joining⟩

def set (s : OnlineStage n M) (db : Db) (v : Fin n) (phase : Phase M) : OnlineStage n M :=
  ⟨db, Function.update s.signer v phase⟩

/-- The message of a signer with the index that it was issued. -/
def message (body : Fin n → M) (s : OnlineStage n M) (v : Fin n) : Msg M :=
  ⟨(s.signer v).index.getD 0, none, body v⟩

section Step

variable [Serde (Msg M)] (build : U16.Build) (room_id : String) (body : Fin n → M)

/-- The next step of signer `v`. -/
def step (s : OnlineStage n M) (v : Fin n) : Option (OnlineStage n M) :=
  match s.signer v with
  | .joining =>
    let (a, db) := s.db.getRoom room_id
    some (s.set (db.setRoom a (db.heap a).addSubscriber) v (.issuing ⟨a, 0⟩ .looking))
  | .issuing subscription (.holding a) =>
    let (i, room) := (s.db.heap a).issueUniqueIdx
    some (s.set (s.db.setRoom a room) v (.sending subscription i .looking))
  | .issuing subscription lookup =>
    let (lookup, db) := lookup.next s.db room_id
    some (s.set db v (.issuing subscription lookup))
  | .sending subscription i (.holding a) =>
    some (s.set (s.db.setRoom a ((s.db.heap a).publish (Serde.toStr (⟨i, none, body v⟩ : Msg M)))) v
      (.collecting subscription i []))
  | .sending subscription i lookup =>
    let (lookup, db) := lookup.next s.db room_id
    some (s.set db v (.sending subscription i lookup))
  | .collecting subscription i partial_signatures =>
    let dropped := s.db.setRoom subscription.room (s.db.heap subscription.room).dropSubscriber
    if partial_signatures.length = n - 1 then some (s.set dropped v (.finished i partial_signatures))
    else
      match look build (s.db.heap subscription.room).messages subscription.next_event with
      | .missing => none
      -- the panic of the server ends the stream, and `take` with it
      | .overflow => some (s.set dropped v (.finished i partial_signatures))
      | .event _ text next_event =>
        match (deserialize (.ok text) : Except String (Msg M)) with
        | .ok msg =>
          some (s.set s.db v (.collecting ⟨subscription.room, next_event⟩ i
            (if addressedTo i msg then partial_signatures ++ [msg] else partial_signatures)))
        | .error _ => some (s.set dropped v .failed)
  | .finished _ _ | .failed => none

end Step

/-! ### Counting signers -/

section Tally

variable (f : Phase M → Nat) (s : OnlineStage n M)

def tally : Nat := ∑ v, f (s.signer v)

/-- One signer changes. -/
theorem tally_set (db : Db) (v : Fin n) (q : Phase M) :
    (s.set db v q).tally f + f (s.signer v) = s.tally f + f q := by
  have hupdate : (fun w => f ((s.set db v q).signer w)) = Function.update (fun w => f (s.signer w)) v (f q) :=
    Function.comp_update f s.signer v q
  have hrest := Finset.sum_update_of_mem (Finset.mem_univ v) (fun w => f (s.signer w)) (f q)
  have hall := Finset.sum_eq_add_sum_sdiff_singleton_of_mem (Finset.mem_univ v) fun w => f (s.signer w)
  rw [tally, hupdate, hrest, tally, hall]
  omega

theorem tally_le (hf : ∀ phase, f phase ≤ 1) : s.tally f ≤ n := by
  refine (Finset.sum_le_sum fun v _ => hf (s.signer v)).trans ?_
  simp

theorem le_tally (v : Fin n) : f (s.signer v) ≤ s.tally f :=
  Finset.single_le_sum (f := fun w => f (s.signer w)) (fun _ _ => Nat.zero_le _) (Finset.mem_univ v)

end Tally

/-! ### The invariant -/

variable (body : Fin n → M)

/-- What `v` has collected when its cursor is at `c`. -/
def received (s : OnlineStage n M) (order : List (Fin n)) (v : Fin n) (c : Nat) : List (Msg M) :=
  ((order.take c).filter fun w => w ≠ v).map (s.message body)

/-- Where signer `v` can be, over the room at `a`. -/
def PhaseOk (a : Nat) (s : OnlineStage n M) (order : List (Fin n)) (v : Fin n) : Phase M → Prop
  | .joining => True
  | .issuing subscription lookup | .sending subscription _ lookup =>
    subscription = ⟨a, 0⟩ ∧ (lookup = .looking ∨ lookup = .holding a)
  | .collecting subscription _ partial_signatures =>
    subscription.room = a ∧ subscription.next_event ≤ order.length ∧
      partial_signatures = s.received body order v subscription.next_event
  | .finished _ partial_signatures =>
    ∃ c ≤ order.length, partial_signatures = s.received body order v c ∧ partial_signatures.length = n - 1
  | .failed => False

/-- The room at `a` after the broadcasts of `order`. -/
structure Inv [Serde (Msg M)] (room_id : String) (a : Nat) (s : OnlineStage n M) (order : List (Fin n)) : Prop where
  room : s.db.rooms room_id = some a
  joined : ∃ v, s.signer v ≠ .joining
  subscribers : (s.db.heap a).subscribers = s.tally Phase.live
  next_idx : (s.db.heap a).next_idx = (1 + s.tally Phase.issued) % U16.size
  indices : ∀ v i, (s.signer v).index = some i → 1 ≤ i ∧ i ≤ s.tally Phase.issued
  distinct : ∀ v w i, (s.signer v).index = some i → (s.signer w).index = some i → v = w
  nodup : order.Nodup
  sent : ∀ v, v ∈ order ↔ (s.signer v).sent = true
  messages : (s.db.heap a).messages = order.map fun v => Serde.toStr (s.message body v)
  phases : ∀ v, s.PhaseOk body a order v (s.signer v)

section Invariant

variable {body} {room_id : String} {a : Nat} {s : OnlineStage n M} {order : List (Fin n)}

theorem received_congr {t : OnlineStage n M} (h : ∀ w ∈ order, t.message body w = s.message body w)
    (v : Fin n) (c : Nat) : t.received body order v c = s.received body order v c := by
  refine List.map_congr_left fun w hw => h w ?_
  exact List.mem_of_mem_take (List.mem_of_mem_filter hw)

theorem received_append {c : Nat} (hc : c ≤ order.length) (more : List (Fin n)) (v : Fin n) :
    s.received body (order ++ more) v c = s.received body order v c := by
  rw [received, received, List.take_append_of_le_length hc]

/-- With the same messages a signer stays where it can be. -/
theorem PhaseOk.congr {t : OnlineStage n M} {v : Fin n} {p : Phase M} (h : s.PhaseOk body a order v p)
    (hmessage : ∀ w ∈ order, t.message body w = s.message body w) (more : List (Fin n)) :
    t.PhaseOk body a (order ++ more) v p := by
  have hlen : order.length ≤ (order ++ more).length := by simp
  cases p with
  | joining => trivial
  | issuing => exact h
  | sending => exact h
  | collecting subscription i partial_signatures =>
    obtain ⟨hroom, hc, hgot⟩ := h
    refine ⟨hroom, hc.trans hlen, ?_⟩
    rw [received_append hc, received_congr hmessage, hgot]
  | finished i partial_signatures =>
    obtain ⟨c, hc, hgot, hcount⟩ := h
    refine ⟨c, hc.trans hlen, ?_, hcount⟩
    rw [received_append hc, received_congr hmessage, hgot]
  | failed => exact h

theorem set_self (db : Db) (v : Fin n) (q : Phase M) : (s.set db v q).signer v = q := by simp [set]

theorem set_of_ne (db : Db) {v w : Fin n} (q : Phase M) (h : w ≠ v) : (s.set db v q).signer w = s.signer w := by
  simp [set, h]

/-- A signer that keeps its index keeps its message. -/
theorem message_set {db : Db} {v : Fin n} {q : Phase M} (hindex : q.index = (s.signer v).index) (w : Fin n) :
    (s.set db v q).message body w = s.message body w := by
  by_cases hw : w = v
  · rw [hw, message, message, set_self, hindex]
  · rw [message, message, set_of_ne db q hw]

variable [Serde (Msg M)]

/-- A step of `v` after which it has the same index, and in which it broadcasts or not. -/
theorem Inv.set (h : s.Inv body room_id a order) {v : Fin n} {q : Phase M} {db : Db} {more : List (Fin n)}
    (hmore : ∀ w ∈ more, w = v) (hnodup : (order ++ more).Nodup) (hrooms : db.rooms room_id = some a)
    (hsubscribers : (db.heap a).subscribers + (s.signer v).live = (s.db.heap a).subscribers + q.live)
    (hnext : (db.heap a).next_idx = (s.db.heap a).next_idx)
    (hmessages : (db.heap a).messages =
      (s.db.heap a).messages ++ more.map fun w => Serde.toStr (s.message body w))
    (hq : q ≠ .joining) (hindex : q.index = (s.signer v).index) (hsent : v ∈ order ++ more ↔ q.sent = true)
    (hphase : s.PhaseOk body a (order ++ more) v q) : (s.set db v q).Inv body room_id a (order ++ more) := by
  have hmessage : ∀ w, (s.set db v q).message body w = s.message body w := message_set hindex
  have hissued : (s.set db v q).tally Phase.issued = s.tally Phase.issued := by
    have htally := s.tally_set Phase.issued db v q
    have hsame : q.issued = (s.signer v).issued := by rw [Phase.issued, Phase.issued, hindex]
    omega
  have hindices : ∀ w, ((s.set db v q).signer w).index = (s.signer w).index := by
    intro w
    by_cases hw : w = v
    · rw [hw, set_self, hindex]
    · rw [set_of_ne db q hw]
  refine ⟨hrooms, ⟨v, by rw [set_self]; exact hq⟩, ?_, ?_, fun w i hi => ?_, fun w w' i hi hi' => ?_, hnodup,
    fun w => ?_, ?_, fun w => ?_⟩
  · have htally := s.tally_set Phase.live db v q
    have hbefore := h.subscribers
    show (db.heap a).subscribers = _
    omega
  · rw [hissued, ← h.next_idx]
    exact hnext
  · rw [hindices] at hi
    rw [hissued]
    exact h.indices w i hi
  · rw [hindices] at hi hi'
    exact h.distinct w w' i hi hi'
  · by_cases hw : w = v
    · rw [hw, set_self, hsent]
    · rw [set_of_ne db q hw, ← h.sent w, List.mem_append]
      exact or_iff_left fun hmem => hw (hmore w hmem)
  · rw [h.messages, ← List.map_append] at hmessages
    refine hmessages.trans (List.map_congr_left fun w _ => ?_)
    rw [hmessage]
  · by_cases hw : w = v
    · rw [hw, set_self, ← List.append_nil (order ++ more)]
      exact hphase.congr (fun w _ => hmessage w) []
    · rw [set_of_ne db q hw]
      exact (h.phases w).congr (fun w _ => hmessage w) more

/-- A step in which `v` is issued the next index. -/
theorem Inv.issue (h : s.Inv body room_id a order) (hfit : n < U16.size) {v : Fin n} {q : Phase M} {db : Db}
    (hrooms : db.rooms room_id = some a) (hsubscribers : (db.heap a).subscribers = (s.db.heap a).subscribers)
    (hnext : (db.heap a).next_idx = U16.fetchAdd (s.db.heap a).next_idx)
    (hmessages : (db.heap a).messages = (s.db.heap a).messages) (hnone : (s.signer v).index = none)
    (hunsent : (s.signer v).sent = false) (hindex : q.index = some (s.db.heap a).next_idx)
    (hlive : q.live = (s.signer v).live) (hsent : q.sent = false) (hphase : s.PhaseOk body a order v q) :
    (s.set db v q).Inv body room_id a order := by
  have htally : (s.set db v q).tally Phase.issued = s.tally Phase.issued + 1 := by
    have htally := s.tally_set Phase.issued db v q
    simpa [Phase.issued, hnone, hindex] using htally
  have hle := (s.set db v q).tally_le Phase.issued Phase.issued_le
  have hidx : (s.db.heap a).next_idx = 1 + s.tally Phase.issued := by
    rw [h.next_idx, Nat.mod_eq_of_lt (by omega)]
  have hv : v ∉ order := by
    rw [h.sent v, hunsent]
    exact Bool.false_ne_true
  have hmessage : ∀ w ∈ order, (s.set db v q).message body w = s.message body w := by
    intro w hw
    have hne : w ≠ v := fun heq => hv (heq ▸ hw)
    rw [message, message, set_of_ne db q hne]
  have hindices : ∀ w i, ((s.set db v q).signer w).index = some i →
      (w = v ∧ i = 1 + s.tally Phase.issued) ∨ (s.signer w).index = some i := by
    intro w i hi
    by_cases hw : w = v
    · rw [hw, set_self, hindex, hidx, Option.some.injEq] at hi
      exact Or.inl ⟨hw, hi.symm⟩
    · rw [set_of_ne db q hw] at hi
      exact Or.inr hi
  refine ⟨hrooms, ⟨v, ?_⟩, ?_, ?_, fun w i hi => ?_, fun w w' i hi hi' => ?_, h.nodup, fun w => ?_, ?_,
    fun w => ?_⟩
  · rw [set_self]
    rintro rfl
    simp [Phase.index] at hindex
  · have htally := s.tally_set Phase.live db v q
    have hbefore := h.subscribers
    show (db.heap a).subscribers = _
    omega
  · show (db.heap a).next_idx = _
    rw [hnext, hidx, htally, U16.fetchAdd, Nat.add_assoc]
  · obtain ⟨-, hnew⟩ | hold := hindices w i hi
    · omega
    · have hbounds := h.indices w i hold
      omega
  · obtain ⟨hw, hnew⟩ | hold := hindices w i hi
    · obtain ⟨hw', -⟩ | hold' := hindices w' i hi'
      · rw [hw, hw']
      · have hbounds := h.indices w' i hold'
        omega
    · obtain ⟨-, hnew⟩ | hold' := hindices w' i hi'
      · have hbounds := h.indices w i hold
        omega
      · exact h.distinct w w' i hold hold'
  · rw [h.sent w]
    by_cases hw : w = v
    · rw [hw, set_self, hunsent, hsent]
    · rw [set_of_ne db q hw]
  · refine (hmessages.trans h.messages).trans (List.map_congr_left fun w hw => ?_)
    rw [hmessage w hw]
  · rw [← List.append_nil order]
    by_cases hw : w = v
    · rw [hw, set_self]
      exact hphase.congr hmessage []
    · rw [set_of_ne db q hw]
      exact (h.phases w).congr hmessage []

/-- Somebody is subscribed as long as somebody is to subscribe. -/
theorem Inv.watched (h : s.Inv body room_id a order) {v : Fin n}
    (hv : s.signer v = .joining ∨ (s.signer v).live = 1) : (s.db.heap a).subscribers ≠ 0 := by
  intro hzero
  rw [h.subscribers] at hzero
  have hnone : ∀ w, (s.signer w).live = 0 := fun w => Nat.le_zero.mp (hzero ▸ s.le_tally Phase.live w)
  obtain hv | hv := hv
  · obtain ⟨w, hw⟩ := h.joined
    have hphase := h.phases w
    have hlive := hnone w
    cases hcur : s.signer w with
    | joining => exact hw hcur
    | issuing => simp [hcur, Phase.live] at hlive
    | sending => simp [hcur, Phase.live] at hlive
    | collecting => simp [hcur, Phase.live] at hlive
    | finished i partial_signatures =>
      -- it has a message of everybody else, also of `v`
      rw [hcur] at hphase
      obtain ⟨c, -, hgot, hcount⟩ := hphase
      have hnodup : (w :: v :: (order.take c).filter fun u => u ≠ w).Nodup := by
        have hne : w ≠ v := by
          rintro rfl
          exact hw hv
        have hunsent : v ∉ order := by
          rw [h.sent v, hv]
          exact Bool.false_ne_true
        refine List.nodup_cons.mpr ⟨by simp [hne], List.nodup_cons.mpr ⟨fun hmem => hunsent ?_, ?_⟩⟩
        · exact List.mem_of_mem_take (List.mem_of_mem_filter hmem)
        · exact (h.nodup.sublist (List.take_sublist c order)).filter _
      have hlen := hnodup.length_le_card
      rw [hgot, received, List.length_map] at hcount
      rw [List.length_cons, List.length_cons, hcount, Fintype.card_fin] at hlen
      have hpos := v.isLt
      omega
    | failed =>
      rw [hcur] at hphase
      exact hphase
  · rw [hnone v] at hv
    exact Nat.zero_ne_one hv

theorem Inv.readRoom (h : s.Inv body room_id a order) {v : Fin n}
    (hv : s.signer v = .joining ∨ (s.signer v).live = 1) : s.db.readRoom room_id = some a :=
  Db.readRoom_of_watched h.room (h.watched hv)

/-- One signer has subscribed. -/
theorem first_inv {db db' : Db} (hroom : db'.rooms room_id = some a) (hheap : db'.heap a = Room.empty.addSubscriber)
    (v : Fin n) : ((start n M db).set db' v (.issuing ⟨a, 0⟩ .looking)).Inv body room_id a [] := by
  have hlive := (start n M db).tally_set Phase.live db' v (.issuing ⟨a, 0⟩ .looking)
  have hissued := (start n M db).tally_set Phase.issued db' v (.issuing ⟨a, 0⟩ .looking)
  have hzero : ∀ f : Phase M → Nat, f .joining = 0 → (start n M db).tally f = 0 :=
    fun f hf => Finset.sum_eq_zero fun _ _ => hf
  rw [hzero _ rfl] at hlive hissued
  have hphases : ∀ w, ((start n M db).set db' v (.issuing ⟨a, 0⟩ .looking)).signer w = .joining ∨
      ((start n M db).set db' v (.issuing ⟨a, 0⟩ .looking)).signer w = .issuing ⟨a, 0⟩ .looking := by
    intro w
    by_cases hw : w = v
    · right
      rw [hw, set_self]
    · exact Or.inl (set_of_ne db' _ hw)
  have hindex : ∀ w i, (((start n M db).set db' v (.issuing ⟨a, 0⟩ .looking)).signer w).index ≠ some i := by
    intro w i
    obtain hw | hw := hphases w <;> rw [hw] <;> exact nofun
  refine ⟨hroom, ⟨v, by rw [set_self]; exact nofun⟩, ?_, ?_, fun w i hi => (hindex w i hi).elim,
    fun w _ i hi _ => (hindex w i hi).elim, List.nodup_nil, fun w => ?_, ?_, fun w => ?_⟩
  · show (db'.heap a).subscribers = _
    rw [hheap]
    exact hlive.symm
  · show (db'.heap a).next_idx = _
    have hnone : ((start n M db).set db' v (.issuing ⟨a, 0⟩ .looking)).tally Phase.issued = 0 := hissued
    rw [hheap, hnone]
    rfl
  · obtain hw | hw := hphases w <;> rw [hw] <;> simp [Phase.sent]
  · show (db'.heap a).messages = _
    rw [hheap]
    rfl
  · obtain hw | hw := hphases w <;> rw [hw]
    · trivial
    · exact ⟨rfl, Or.inl rfl⟩

/-- The first signer creates the room. -/
theorem start_step {build : U16.Build} {db : Db}
    (hfresh : ∀ a, db.rooms room_id = some a → (db.heap a).subscribers = 0) {v : Fin n} {t : OnlineStage n M}
    (hstep : step build room_id body (start n M db) v = some t) : t.Inv body room_id db.allocated [] := by
  have hget : db.getRoom room_id = db.createRoom room_id := by
    have hread : db.readRoom room_id = none := by
      cases hroom : db.rooms room_id with
      | none => simp [Db.readRoom, hroom]
      | some a => simp [Db.readRoom, hroom, Room.isAbandoned, hfresh a hroom]
    rw [Db.getRoom, hread]
    obtain ⟨a, hroom, hwatched, -⟩ | ⟨-, hwrite⟩ := Db.writeRoom_cases db room_id
    · exact (hwatched (hfresh a hroom)).elim
    · exact hwrite
  simp only [step, start, hget, Option.some.injEq] at hstep
  subst hstep
  exact first_inv (by simp [Db.createRoom, Db.setRoom]) (by simp [Db.createRoom, Db.setRoom]) v

theorem setRoom_heap (db : Db) (room : Room) : (db.setRoom a room).heap a = room := if_pos rfl

/-- A step in which `v` neither broadcasts nor is issued an index. -/
theorem Inv.keep (h : s.Inv body room_id a order) {v : Fin n} {q : Phase M} {db : Db}
    (hrooms : db.rooms room_id = some a)
    (hsubscribers : (db.heap a).subscribers + (s.signer v).live = (s.db.heap a).subscribers + q.live)
    (hnext : (db.heap a).next_idx = (s.db.heap a).next_idx)
    (hmessages : (db.heap a).messages = (s.db.heap a).messages) (hq : q ≠ .joining)
    (hindex : q.index = (s.signer v).index) (hsent : q.sent = (s.signer v).sent)
    (hphase : s.PhaseOk body a order v q) : (s.set db v q).Inv body room_id a order := by
  rw [← List.append_nil order] at hphase ⊢
  refine h.set (fun w hw => (List.not_mem_nil hw).elim) ?_ hrooms hsubscribers hnext ?_ hq hindex ?_ hphase
  · rw [List.append_nil]
    exact h.nodup
  · rw [hmessages, List.map_nil, List.append_nil]
  · rw [List.append_nil, h.sent v, hsent]

/-- There is room for another subscriber. -/
theorem Inv.subscribers_lt (h : s.Inv body room_id a order) (hfit : n < U16.size) {v : Fin n}
    (hv : (s.signer v).live = 0) : (s.db.heap a).subscribers + 1 < U16.size := by
  have htally := s.tally_set Phase.live s.db v (.issuing ⟨a, 0⟩ .looking)
  have hle := (s.set s.db v (.issuing ⟨a, 0⟩ .looking)).tally_le Phase.live Phase.live_le
  have hone : (Phase.issuing ⟨a, 0⟩ .looking : Phase M).live = 1 := rfl
  rw [h.subscribers]
  omega

/-- The filter of a signer keeps out its own message only. -/
theorem Inv.addressedTo_iff (h : s.Inv body room_id a order) {v u : Fin n} {i : Nat}
    (hi : (s.signer v).index = some i) (hu : u ∈ order) : addressedTo i (s.message body u) = true ↔ u ≠ v := by
  obtain ⟨j, hj⟩ := Phase.index_of_sent ((h.sent u).mp hu)
  have hsame : j = i ↔ u = v := by
    constructor
    · rintro rfl
      exact h.distinct u v j hj hi
    · rintro rfl
      exact Option.some.inj (hj.symm.trans hi)
  simp [addressedTo, message, hj, hsame]

omit [Serde (Msg M)] in
theorem received_succ {u : Fin n} {c : Nat} (hu : order[c]? = some u) (v : Fin n) :
    s.received body order v (c + 1) =
      s.received body order v c ++ if u ≠ v then [s.message body u] else [] := by
  rw [received, received, List.take_add_one, hu, List.filter_append, List.map_append]
  split_ifs with hne <;> simp [hne]

/-- The event at a cursor is the message of the signer there, and the cursor does not overflow. -/
theorem Inv.event (h : s.Inv body room_id a order) (hfit : n < U16.size) {c : Nat} {text : String}
    (htext : (s.db.heap a).messages[c]? = some text) (build : U16.Build) :
    ∃ u, order[c]? = some u ∧ text = Serde.toStr (s.message body u) ∧ U16.addOne build c = some (c + 1) := by
  rw [h.messages, List.getElem?_map, Option.map_eq_some_iff] at htext
  obtain ⟨u, hu, rfl⟩ := htext
  have hlen := h.nodup.length_le_card
  have hlt := (List.getElem?_eq_some_iff.mp hu).1
  rw [Fintype.card_fin] at hlen
  exact ⟨u, hu, rfl, U16.addOne_of_lt (by omega)⟩

/-- A signer that takes the next event. -/
theorem Inv.take (h : s.Inv body room_id a order) {v u : Fin n} {i c : Nat} {partial_signatures : List (Msg M)}
    (hv : s.signer v = .collecting ⟨a, c⟩ i partial_signatures) (hu : order[c]? = some u) :
    (s.set s.db v (.collecting ⟨a, c + 1⟩ i
      (if addressedTo i (s.message body u) then partial_signatures ++ [s.message body u]
        else partial_signatures))).Inv body room_id a order := by
  have hphase := h.phases v
  rw [hv] at hphase
  obtain ⟨-, hc, hgot⟩ := hphase
  have hlt := (List.getElem?_eq_some_iff.mp hu).1
  refine h.keep h.room (by rw [hv]; rfl) rfl rfl nofun (by rw [hv]; rfl) (by rw [hv]; rfl) ⟨rfl, hlt, ?_⟩
  rw [received_succ hu, hgot]
  have hown := h.addressedTo_iff (v := v) (by rw [hv]; rfl) (List.mem_of_getElem? hu)
  by_cases hne : u = v
  · rw [if_neg (mt hown.mp (not_not.mpr hne)), if_neg (not_not.mpr hne), List.append_nil]
  · rw [if_pos (hown.mpr hne), if_pos hne]

theorem step_inv {build : U16.Build} (h : s.Inv body room_id a order) (hfit : n < U16.size) {v : Fin n}
    {t : OnlineStage n M} (hstep : step build room_id body s v = some t) :
    ∃ order', t.Inv body room_id a order' := by
  have hphase := h.phases v
  cases hv : s.signer v with
  | joining =>
    have hread := h.readRoom (Or.inl hv)
    simp only [step, hv, Db.getRoom, hread, Option.some.injEq] at hstep
    subst hstep
    have hlt := h.subscribers_lt hfit (v := v) (by rw [hv]; rfl)
    refine ⟨order, h.keep h.room ?_ ?_ ?_ nofun (by rw [hv]; rfl) (by rw [hv]; rfl) ⟨rfl, Or.inl rfl⟩⟩
    · rw [setRoom_heap, hv]
      exact U16.fetchAdd_of_lt hlt
    · rw [setRoom_heap, Room.addSubscriber_next_idx]
    · rw [setRoom_heap, Room.addSubscriber_messages]
  | issuing subscription lookup =>
    rw [hv] at hphase
    obtain ⟨rfl, rfl | rfl⟩ := hphase
    · simp only [step, hv, Lookup.next, h.readRoom (Or.inr (by rw [hv]; rfl)), Option.some.injEq] at hstep
      subst hstep
      exact ⟨order, h.keep h.room (by rw [hv]; rfl) rfl rfl nofun (by rw [hv]; rfl) (by rw [hv]; rfl)
        ⟨rfl, Or.inr rfl⟩⟩
    · simp only [step, hv, Option.some.injEq] at hstep
      subst hstep
      refine ⟨order, h.issue hfit h.room ?_ ?_ ?_ (by rw [hv]; rfl) (by rw [hv]; rfl) rfl (by rw [hv]; rfl) rfl
        ⟨rfl, Or.inl rfl⟩⟩
      all_goals
        rw [setRoom_heap]
        rfl
  | sending subscription i lookup =>
    rw [hv] at hphase
    obtain ⟨rfl, rfl | rfl⟩ := hphase
    · simp only [step, hv, Lookup.next, h.readRoom (Or.inr (by rw [hv]; rfl)), Option.some.injEq] at hstep
      subst hstep
      exact ⟨order, h.keep h.room (by rw [hv]; rfl) rfl rfl nofun (by rw [hv]; rfl) (by rw [hv]; rfl)
        ⟨rfl, Or.inr rfl⟩⟩
    · simp only [step, hv, Option.some.injEq] at hstep
      subst hstep
      have hunsent : v ∉ order := by
        rw [h.sent v, hv]
        exact Bool.false_ne_true
      refine ⟨order ++ [v], h.set (fun w hw => List.mem_singleton.mp hw) ?_ h.room ?_ ?_ ?_ nofun (by rw [hv]; rfl)
        (by simp [Phase.sent]) ⟨rfl, Nat.zero_le _, rfl⟩⟩
      · exact List.nodup_append.mpr ⟨h.nodup, List.nodup_singleton v, fun w hw w' hw' heq => hunsent (by
          rwa [← List.mem_singleton.mp hw', ← heq])⟩
      · rw [setRoom_heap, hv]
        rfl
      · rw [setRoom_heap]
        rfl
      · rw [setRoom_heap, List.map_singleton, message, hv]
        rfl
  | collecting subscription i partial_signatures =>
    rw [hv] at hphase
    obtain ⟨room, c⟩ := subscription
    obtain ⟨rfl, hc, hgot⟩ := hphase
    by_cases hall : partial_signatures.length = n - 1
    · simp only [step, hv, if_pos hall, Option.some.injEq] at hstep
      subst hstep
      have hwatched := h.watched (v := v) (Or.inr (by rw [hv]; rfl))
      refine ⟨order, h.keep h.room ?_ ?_ ?_ nofun (by rw [hv]; rfl) (by rw [hv]; rfl) ⟨c, hc, hgot, hall⟩⟩
      · rw [setRoom_heap, hv]
        show U16.fetchSub _ + 1 = _
        rw [U16.fetchSub_of_pos (Nat.pos_of_ne_zero hwatched)]
        exact Nat.sub_add_cancel (Nat.pos_of_ne_zero hwatched)
      · rw [setRoom_heap, Room.dropSubscriber_next_idx]
      · rw [setRoom_heap, Room.dropSubscriber_messages]
    · cases htext : (s.db.heap room).messages[c]? with
      | none => simp [step, hv, hall, look, htext] at hstep
      | some text =>
        obtain ⟨u, hu, rfl, hadd⟩ := h.event hfit htext build
        simp only [step, hv, if_neg hall, look, htext, hadd, deserialize, Serde.round_trip,
          Option.some.injEq] at hstep
        subst hstep
        exact ⟨order, h.take hv hu⟩
  | finished i partial_signatures => simp [step, hv] at hstep
  | failed => simp [step, hv] at hstep

theorem exec_inv {build : U16.Build} {db : Db} (hfit : n < U16.size)
    (hfresh : ∀ a, db.rooms room_id = some a → (db.heap a).subscribers = 0) {schedule : List (Fin n)}
    (hrun : Machine.exec (step build room_id body) (start n M db) schedule = some s) :
    s = start n M db ∨ ∃ order, s.Inv body room_id db.allocated order := by
  refine Machine.exec_invariant (I := fun s => s = start n M db ∨ ∃ order, s.Inv body room_id db.allocated order)
    (fun s v t h hstep => Or.inr ?_) (Or.inl rfl) hrun
  obtain rfl | ⟨order, h⟩ := h
  · exact ⟨[], start_step hfresh hstep⟩
  · exact step_inv h hfit hstep

end Invariant

/-! ### What the signers get -/

/-- The messages of all but `v`. -/
def othersOf (s : OnlineStage n M) (v : Fin n) : List (Msg M) :=
  ((List.finRange n).filter fun w => w ≠ v).map (s.message body)

structure Exchanged [Serde (Msg M)] (s : OnlineStage n M) : Prop where
  distinct : ∀ v w i, (s.signer v).index = some i → (s.signer w).index = some i → v = w
  complete : ∀ v partial_signatures, (s.signer v).complete n = some partial_signatures →
    partial_signatures.Perm (s.othersOf body v) ∧
      ∀ msg ∈ partial_signatures, some msg.sender ≠ (s.signer v).index
  missing : (∀ v, (s.signer v).sent = true) → ∀ v subscription i partial_signatures,
    s.signer v = .collecting subscription i partial_signatures → ∀ w, w ≠ v →
      s.message body w ∈ partial_signatures ∨
        Serde.toStr (s.message body w) ∈
          (s.db.heap subscription.room).messages.drop subscription.next_event
  succeeds : ∀ v, s.signer v ≠ .failed

section Exchange

variable {body} {room_id : String} {a : Nat} {s : OnlineStage n M} {order : List (Fin n)}

/-- `n - 1` messages of others are the messages of the others. -/
theorem received_perm (hnodup : order.Nodup) {v : Fin n} {c : Nat}
    (hcount : (s.received body order v c).length = n - 1) : (s.received body order v c).Perm (s.othersOf body v) := by
  rw [received, List.length_map] at hcount
  apply List.Perm.map
  have hsub : ((order.take c).filter fun w => w ≠ v) ⊆ (List.finRange n).filter fun w => w ≠ v :=
    fun w hw => List.mem_filter.mpr ⟨List.mem_finRange w, (List.mem_filter.mp hw).2⟩
  have hsubperm := List.subperm_of_subset ((hnodup.sublist (List.take_sublist c order)).filter _) hsub
  refine hsubperm.perm_of_length_le ?_
  have hcons : (v :: (List.finRange n).filter fun w => w ≠ v).Nodup :=
    List.nodup_cons.mpr ⟨by simp, (List.nodup_finRange n).filter _⟩
  have hlen := hcons.length_le_card
  rw [List.length_cons, Fintype.card_fin] at hlen
  omega

variable [Serde (Msg M)]

theorem Inv.complete (h : s.Inv body room_id a order) {v : Fin n} {partial_signatures : List (Msg M)}
    (hv : (s.signer v).complete n = some partial_signatures) :
    ∃ c, partial_signatures = s.received body order v c ∧ partial_signatures.length = n - 1 := by
  have hphase := h.phases v
  cases hcur : s.signer v with
  | collecting subscription i signatures =>
    rw [hcur] at hphase hv
    simp only [Phase.complete, Option.ite_none_right_eq_some, Option.some.injEq] at hv
    obtain ⟨hcount, rfl⟩ := hv
    exact ⟨_, hphase.2.2, hcount⟩
  | finished i signatures =>
    rw [hcur] at hphase hv
    obtain rfl := Option.some.inj hv
    obtain ⟨c, -, hgot, hcount⟩ := hphase
    exact ⟨c, hgot, hcount⟩
  | joining => simp [hcur, Phase.complete] at hv
  | issuing => simp [hcur, Phase.complete] at hv
  | sending => simp [hcur, Phase.complete] at hv
  | failed => simp [hcur, Phase.complete] at hv

theorem Inv.exchanged (h : s.Inv body room_id a order) : s.Exchanged body := by
  refine ⟨h.distinct, fun v partial_signatures hv => ?_, fun hall v subscription i partial_signatures hv w hw => ?_,
    fun v hv => ?_⟩
  · obtain ⟨c, rfl, hcount⟩ := h.complete hv
    refine ⟨received_perm h.nodup hcount, fun msg hmsg hown => ?_⟩
    obtain ⟨u, hu, rfl⟩ := List.mem_map.mp hmsg
    obtain ⟨hu, hne⟩ := List.mem_filter.mp hu
    obtain ⟨j, hj⟩ := Phase.index_of_sent ((h.sent u).mp (List.mem_of_mem_take hu))
    rw [message, hj] at hown
    exact of_decide_eq_true hne (h.distinct u v j hj hown.symm)
  · have hphase := h.phases v
    rw [hv] at hphase
    obtain ⟨hroom, -, hgot⟩ := hphase
    have hmem : w ∈ order.take subscription.next_event ++ order.drop subscription.next_event := by
      rw [List.take_append_drop, h.sent w]
      exact hall w
    rcases List.mem_append.mp hmem with hmem | hmem
    · left
      rw [hgot]
      exact List.mem_map_of_mem (List.mem_filter.mpr ⟨hmem, decide_eq_true hw⟩)
    · right
      rw [hroom, h.messages, ← List.map_drop]
      exact List.mem_map_of_mem (f := fun w => Serde.toStr (s.message body w)) hmem
  · have hphase := h.phases v
    rw [hv] at hphase
    exact hphase

/-- In every run of `n` signers over a fresh room, a signer that completes has one message of each of the
others and none of its own, and once all have broadcast, each finds what it misses ahead of its cursor. -/
theorem partial_signatures_exchanged (build : U16.Build) (db : Db) (room_id : String) (body : Fin n → M)
    (hfit : n < U16.size) (hfresh : ∀ a, db.rooms room_id = some a → (db.heap a).subscribers = 0)
    (schedule : List (Fin n)) (s : OnlineStage n M)
    (hrun : Machine.exec (step build room_id body) (start n M db) schedule = some s) : s.Exchanged body := by
  obtain rfl | ⟨order, h⟩ := exec_inv hfit hfresh hrun
  · exact ⟨fun v w i hi _ => (Option.some_ne_none i hi.symm).elim,
      fun v _ hv => (Option.some_ne_none _ hv.symm).elim, fun _ v _ _ _ hv => by simp [start] at hv,
      fun v hv => by simp [start] at hv⟩
  · exact h.exchanged

/-- Three signers; the third subscribes when the others have broadcast, and the first leaves before the third
takes anything. -/
theorem three_signers_exchange :
    letI := Serde.numeric (Msg Nat)
    ∃ (schedule : List (Fin 3)) (s : OnlineStage 3 Nat),
      Machine.exec (step .debug "room-online" fun v => (v : Nat)) (start 3 Nat Db.empty) schedule = some s ∧
      ((s.signer 0).complete 3).isSome ∧ (s.signer 2).sent = true ∧ s.Exchanged fun v => (v : Nat) := by
  let _ := Serde.numeric (Msg Nat)
  have hrun : (Machine.exec (step .debug "room-online" fun v => (v : Nat)) (start 3 Nat Db.empty)
      (List.replicate 5 0 ++ List.replicate 5 1 ++ List.replicate 5 2 ++ List.replicate 4 0 ++ [2])).map
        (fun s => (((s.signer 0).complete 3).isSome, (s.signer 2).sent)) = some (true, true) := by
    decide +kernel
  obtain ⟨s, hs, hvalues⟩ := Option.map_eq_some_iff.mp hrun
  obtain ⟨hcomplete, hsent⟩ := Prod.mk.inj hvalues
  exact ⟨_, s, hs, hcomplete, hsent, partial_signatures_exchanged .debug Db.empty "room-online" (fun v => (v : Nat))
    (by decide) nofun _ s hs⟩

end Exchange

end OnlineStage

end Gg20
