import Mathlib.Data.List.Nodup
import MultiPartyTss.Gg18.Common

/-!
# Sessions

A protocol is a list of rounds; in each a party shares a value with everyone, or sends to or receives from
each of the others. In a session the parties have different numbers and one uuid. Round names that occur
once make the plans of the parties disciplined in the sense of `Lib.Network`: no two writes of a session
have the same key (`sessionPlan_disciplined`).

A `Protocol` is a process for each input with its plan and its contract, both proved. `Session` is the state
of its parties in the middle of any run over one store: whatever a party has read comes from the party that
it takes it to come from (`Session.broadcaster`, `Session.sender`).
-/

namespace Gg18

open Proc Slots

inductive Round where
  | share (round : String)
  | send (round : String)
  | receive (round : String)
  deriving DecidableEq, Repr

namespace Round

def name : Round → String
  | share round | send round | receive round => round

/-- The name of the round, if something is written in it. -/
def written : Round → Option String
  | share round | send round => some round
  | receive _ => none

def plan (p n : Nat) (uuid : String) : Round → List (Op String)
  | share round => roundPlan p n round uuid
  | send round => sendPlan p n round uuid
  | receive round => receivePlan p n round uuid

end Round

def exchangePlan (p n : Nat) (uuid : String) : List Round → List (Op String)
  | [] => []
  | r :: rounds => r.plan p n uuid ++ exchangePlan p n uuid rounds

structure WellNamed (rounds : List Round) : Prop where
  names : ∀ r ∈ rounds, RoundName r.name
  nodup : (rounds.filterMap Round.written).Nodup

instance (rounds : List Round) : Decidable (WellNamed rounds) :=
  decidable_of_iff ((∀ r ∈ rounds, RoundName r.name) ∧ (rounds.filterMap Round.written).Nodup)
    ⟨fun h => ⟨h.1, h.2⟩, fun h => ⟨h.names, h.nodup⟩⟩

theorem WellNamed.tail {r : Round} {rounds : List Round} (h : WellNamed (r :: rounds)) : WellNamed rounds :=
  ⟨fun r hr => h.names r (List.mem_cons_of_mem _ hr),
    h.nodup.sublist ((List.sublist_cons_self r rounds).filterMap _)⟩

/-! ### The keys of a party -/

/-- `k` is a key of party `p` in this round. -/
def KeyOf (p : Nat) (round uuid k : String) : Prop :=
  k = broadcastKey p round uuid ∨ ∃ i, k = p2pKey p i round uuid

theorem KeyOf.unique {p p' : Nat} {round round' uuid k : String} (hr : RoundName round)
    (hr' : RoundName round') (h : KeyOf p round uuid k) (h' : KeyOf p' round' uuid k) :
    p = p' ∧ round = round' := by
  obtain rfl | ⟨i, rfl⟩ := h
  · obtain hk | ⟨i', hk⟩ := h'
    · exact broadcastKey_inj hr hr' hk
    · exact (broadcastKey_ne_p2pKey hr hk).elim
  · obtain hk | ⟨i', hk⟩ := h'
    · exact (broadcastKey_ne_p2pKey hr' hk.symm).elim
    · obtain ⟨hp, -, hround⟩ := p2pKey_inj hr hr' hk
      exact ⟨hp, hround⟩

/-- What party `p` writes, given what it broadcasts in a round and what it sends to another party. -/
inductive Written (p : Nat) (uuid : String) (broadcasts : String → String → Prop)
    (sends : Nat → String → Prop) : String → String → Prop where
  | broadcast {round v : String} : RoundName round → broadcasts round v →
      Written p uuid broadcasts sends (broadcastKey p round uuid) v
  | send {round : String} {i : Nat} {v : String} : RoundName round → sends i v →
      Written p uuid broadcasts sends (p2pKey p i round uuid) v

section Written

variable {p : Nat} {uuid : String} {broadcasts : String → String → Prop} {sends : Nat → String → Prop}

theorem Written.of_broadcast {i : Nat} {round k v : String} (hr : RoundName round)
    (h : Written p uuid broadcasts sends k v) (hk : k = broadcastKey i round uuid) :
    i = p ∧ broadcasts round v := by
  cases h with
  | broadcast hr' hv =>
    obtain ⟨rfl, rfl⟩ := broadcastKey_inj hr' hr hk
    exact ⟨rfl, hv⟩
  | send hr' hv => exact (broadcastKey_ne_p2pKey hr hk.symm).elim

theorem Written.of_send {i b : Nat} {round k v : String} (hr : RoundName round)
    (h : Written p uuid broadcasts sends k v) (hk : k = p2pKey i b round uuid) : i = p ∧ sends b v := by
  cases h with
  | broadcast hr' hv => exact (broadcastKey_ne_p2pKey hr' hk).elim
  | send hr' hv =>
    obtain ⟨rfl, rfl, -⟩ := p2pKey_inj hr' hr hk
    exact ⟨rfl, hv⟩

end Written

theorem length_broadcastKey (i : Nat) (round uuid : String) :
    uuid.length < (broadcastKey i round uuid).length := by
  simp only [broadcastKey, String.length_append]
  have hdash : "-".length = 1 := rfl
  omega

theorem length_p2pKey (a b : Nat) (round uuid : String) :
    uuid.length < (p2pKey a b round uuid).length := by
  simp only [p2pKey, String.length_append]
  have hdash : "-".length = 1 := rfl
  omega

theorem writes_map_poll {α K : Type} (key : α → K) (is : List α) :
    writes (is.map fun i => Op.poll (key i)) = [] := by
  induction is with
  | nil => rfl
  | cons i is ih => rw [List.map_cons, writes_poll, ih]

theorem writes_map_put {α K : Type} (key : α → K) (is : List α) :
    writes (is.map fun i => Op.put (key i)) = is.map key := by
  induction is with
  | nil => rfl
  | cons i is ih => rw [List.map_cons, writes_put, ih, List.map_cons]

/-- What is written in a round is written under a key of that round, once. -/
theorem round_writes (p n : Nat) (uuid : String) {r : Round} (hr : RoundName r.name) :
    (∀ k ∈ writes (r.plan p n uuid), r.written = some r.name ∧ KeyOf p r.name uuid k) ∧
      (writes (r.plan p n uuid)).Nodup := by
  cases r with
  | share round =>
    have hwrites : writes (roundPlan p n round uuid) = [broadcastKey p round uuid] := by
      rw [roundPlan, writes_put, writes_map_poll]
    show (∀ k ∈ writes (roundPlan p n round uuid), _) ∧ (writes (roundPlan p n round uuid)).Nodup
    rw [hwrites]
    refine ⟨fun k hk => ⟨rfl, Or.inl (List.mem_singleton.mp hk)⟩, List.nodup_singleton _⟩
  | send round =>
    have hwrites : writes (sendPlan p n round uuid) =
        (others p (List.range' 1 n)).map fun i => p2pKey p i round uuid := writes_map_put _ _
    show (∀ k ∈ writes (sendPlan p n round uuid), _) ∧ (writes (sendPlan p n round uuid)).Nodup
    rw [hwrites]
    constructor
    · intro k hk
      obtain ⟨i, -, rfl⟩ := List.mem_map.mp hk
      exact ⟨rfl, Or.inr ⟨i, rfl⟩⟩
    · apply List.Nodup.map
      · intro i i' hk
        exact (p2pKey_inj hr hr hk).2.1
      · exact List.Nodup.filter _ List.nodup_range'
  | receive round =>
    have hwrites : writes (receivePlan p n round uuid) = [] := writes_map_poll _ _
    show (∀ k ∈ writes (receivePlan p n round uuid), _) ∧ (writes (receivePlan p n round uuid)).Nodup
    rw [hwrites]
    exact ⟨fun k hk => (List.not_mem_nil hk).elim, List.nodup_nil⟩

theorem exchange_writes {p n : Nat} {uuid k : String} {rounds : List Round} (hnames : WellNamed rounds)
    (hk : k ∈ writes (exchangePlan p n uuid rounds)) :
    ∃ round ∈ rounds.filterMap Round.written, RoundName round ∧ KeyOf p round uuid k := by
  induction rounds with
  | nil => exact (List.not_mem_nil hk).elim
  | cons r rounds ih =>
    have hr := hnames.names r List.mem_cons_self
    rw [exchangePlan, writes_append, List.mem_append] at hk
    rcases hk with hk | hk
    · obtain ⟨hwritten, hkey⟩ := (round_writes p n uuid hr).1 k hk
      exact ⟨r.name, List.mem_filterMap.mpr ⟨r, List.mem_cons_self, hwritten⟩, hr, hkey⟩
    · obtain ⟨round, hround, hname, hkey⟩ := ih hnames.tail hk
      exact ⟨round, ((List.sublist_cons_self r rounds).filterMap _).subset hround, hname, hkey⟩

theorem exchange_nodup (p n : Nat) (uuid : String) {rounds : List Round} (hnames : WellNamed rounds) :
    (writes (exchangePlan p n uuid rounds)).Nodup := by
  induction rounds with
  | nil => exact List.nodup_nil
  | cons r rounds ih =>
    have hr := hnames.names r List.mem_cons_self
    rw [exchangePlan, writes_append]
    refine List.nodup_append.mpr ⟨(round_writes p n uuid hr).2, ih hnames.tail, ?_⟩
    rintro k hk k' hk' rfl
    obtain ⟨hwritten, hkey⟩ := (round_writes p n uuid hr).1 k hk
    obtain ⟨round, hround, hname, hkey'⟩ := exchange_writes hnames.tail hk'
    obtain ⟨-, rfl⟩ := hkey.unique hr hname hkey'
    have hnodup := hnames.nodup
    rw [List.filterMap_cons_some hwritten, List.nodup_cons] at hnodup
    exact hnodup.1 hround

/-- Every key of a plan is one of a round. -/
theorem exchange_keyOf {p n : Nat} {uuid k : String} {rounds : List Round}
    (hk : .put k ∈ exchangePlan p n uuid rounds ∨ .poll k ∈ exchangePlan p n uuid rounds) :
    ∃ r ∈ rounds, ∃ i, KeyOf i r.name uuid k := by
  induction rounds with
  | nil => rcases hk with hk | hk <;> exact (List.not_mem_nil hk).elim
  | cons r rounds ih =>
    rw [exchangePlan, List.mem_append, List.mem_append] at hk
    have hr : .put k ∈ r.plan p n uuid ∨ .poll k ∈ r.plan p n uuid → ∃ i, KeyOf i r.name uuid k := by
      intro hk
      cases r with
      | share round =>
        simp only [Round.plan, roundPlan, List.mem_cons, List.mem_map, Op.put.injEq, Op.poll.injEq,
          reduceCtorEq, and_false, exists_false, or_false, false_or] at hk
        obtain rfl | ⟨i, -, rfl⟩ := hk
        · exact ⟨p, Or.inl rfl⟩
        · exact ⟨i, Or.inl rfl⟩
      | send round =>
        simp only [Round.plan, sendPlan, List.mem_map, Op.put.injEq, reduceCtorEq, and_false,
          exists_false, or_false] at hk
        obtain ⟨i, -, rfl⟩ := hk
        exact ⟨p, Or.inr ⟨i, rfl⟩⟩
      | receive round =>
        simp only [Round.plan, receivePlan, List.mem_map, Op.poll.injEq, reduceCtorEq, and_false,
          exists_false, false_or] at hk
        obtain ⟨i, -, rfl⟩ := hk
        exact ⟨i, Or.inr ⟨p, rfl⟩⟩
    have hrest : .put k ∈ exchangePlan p n uuid rounds ∨ .poll k ∈ exchangePlan p n uuid rounds →
        ∃ r' ∈ r :: rounds, ∃ i, KeyOf i r'.name uuid k := by
      intro hk
      obtain ⟨r', hr', hkey⟩ := ih hk
      exact ⟨r', List.mem_cons_of_mem _ hr', hkey⟩
    rcases hk with (hk | hk) | hk | hk
    · exact ⟨r, List.mem_cons_self, hr (Or.inl hk)⟩
    · exact hrest (Or.inl hk)
    · exact ⟨r, List.mem_cons_self, hr (Or.inr hk)⟩
    · exact hrest (Or.inr hk)

theorem exchange_longer {p n : Nat} {uuid k : String} {rounds : List Round}
    (hk : .put k ∈ exchangePlan p n uuid rounds ∨ .poll k ∈ exchangePlan p n uuid rounds) :
    uuid.length < k.length := by
  obtain ⟨r, -, i, rfl | ⟨b, rfl⟩⟩ := exchange_keyOf hk
  · exact length_broadcastKey i r.name uuid
  · exact length_p2pKey i b r.name uuid

/-- What a party polls is for everyone or for it. -/
theorem exchange_polls {p n : Nat} {uuid k : String} {rounds : List Round}
    (hk : .poll k ∈ exchangePlan p n uuid rounds) :
    ∃ r ∈ rounds, ∃ i ∈ others p (List.range' 1 n),
      k = broadcastKey i r.name uuid ∨ k = p2pKey i p r.name uuid := by
  induction rounds with
  | nil => exact (List.not_mem_nil hk).elim
  | cons r rounds ih =>
    rw [exchangePlan, List.mem_append] at hk
    rcases hk with hk | hk
    · refine ⟨r, List.mem_cons_self, ?_⟩
      cases r with
      | share round =>
        simp only [Round.plan, roundPlan, List.mem_cons, List.mem_map, Op.poll.injEq, reduceCtorEq,
          false_or] at hk
        obtain ⟨i, hi, rfl⟩ := hk
        exact ⟨i, hi, Or.inl rfl⟩
      | send round => simp [Round.plan, sendPlan] at hk
      | receive round =>
        simp only [Round.plan, receivePlan, List.mem_map, Op.poll.injEq] at hk
        obtain ⟨i, hi, rfl⟩ := hk
        exact ⟨i, hi, Or.inr rfl⟩
    · obtain ⟨r', hr', hi⟩ := ih hk
      exact ⟨r', List.mem_cons_of_mem _ hr', hi⟩

/-- A key has the letters of its round. -/
theorem KeyOf.letter {i : Nat} {round uuid k : String} {c : Char} (h : KeyOf i round uuid k)
    (hc : c ∈ round.toList) : c ∈ k.toList := by
  obtain rfl | ⟨b, rfl⟩ := h <;> simp [broadcastKey, p2pKey, hc]

/-! ### Room ids

A signup room is an entry of the same map, under a text that `Uuid::parse_str` accepts. -/

/-- The characters of the texts that `Uuid::parse_str` accepts: of hexadecimal digits, dashes, and the prefix
`urn:uuid:`. -/
def uuidChars : List Char := "0123456789abcdefABCDEF-urn:id".toList

def UuidText (text : String) : Prop := ∀ c ∈ text.toList, c ∈ uuidChars

instance (text : String) : Decidable (UuidText text) := List.decidableBAll _ text.toList

/-- Every round name has an `o`. -/
def RoundsNamed (rounds : List Round) : Prop := ∀ r ∈ rounds, 'o' ∈ r.name.toList

instance (rounds : List Round) : Decidable (RoundsNamed rounds) := List.decidableBAll _ rounds

/-- No key of a round is a room id. -/
theorem exchange_ne_room {p n : Nat} {uuid k room_id : String} {rounds : List Round}
    (hrounds : RoundsNamed rounds) (hroom : UuidText room_id)
    (hk : .put k ∈ exchangePlan p n uuid rounds ∨ .poll k ∈ exchangePlan p n uuid rounds) : k ≠ room_id := by
  obtain ⟨r, hr, i, hkey⟩ := exchange_keyOf hk
  rintro rfl
  have ho := hroom 'o' (hkey.letter (hrounds r hr))
  revert ho
  decide

/-! ### The parties of a session -/

variable {P : Type}

/-- The plans of the parties that have a number. -/
def sessionPlan (number : P → Option Nat) (n : Nat) (uuid : String) (rounds : List Round) (p : P) :
    List (Op String) :=
  match number p with
  | some i => exchangePlan i n uuid rounds
  | none => []

theorem sessionPlan_of_some {number : P → Option Nat} {p : P} {i : Nat} (h : number p = some i)
    (n : Nat) (uuid : String) (rounds : List Round) :
    sessionPlan number n uuid rounds p = exchangePlan i n uuid rounds := by
  simp [sessionPlan, h]

theorem mem_sessionPlan {number : P → Option Nat} {n : Nat} {uuid : String} {rounds : List Round}
    {p : P} {op : Op String} (h : op ∈ sessionPlan number n uuid rounds p) :
    ∃ i, number p = some i ∧ op ∈ exchangePlan i n uuid rounds := by
  unfold sessionPlan at h
  cases hp : number p with
  | none =>
    rw [hp] at h
    exact (List.not_mem_nil h).elim
  | some i =>
    rw [hp] at h
    exact ⟨i, rfl, h⟩

theorem sessionPlan_disciplined {reserved : String → Bool} {number : P → Option Nat} {n : Nat}
    {uuid : String} {rounds : List Round} (hnames : WellNamed rounds)
    (hnumber : ∀ p q i, number p = some i → number q = some i → p = q)
    (hreserved : ∀ k, uuid.length < k.length → reserved k = false) :
    Network.Disciplined reserved (sessionPlan number n uuid rounds) := by
  refine ⟨fun p => ?_, fun p q k hp hq => ?_, fun p k hk => ?_, fun p k hk => ?_⟩
  · cases hp : number p with
    | none => simp [sessionPlan, hp]
    | some i =>
      rw [sessionPlan_of_some hp]
      exact exchange_nodup i n uuid hnames
  · obtain ⟨i, hi, hp⟩ := mem_sessionPlan (Network.mem_writes.mp hp)
    obtain ⟨i', hi', hq⟩ := mem_sessionPlan (Network.mem_writes.mp hq)
    obtain ⟨round, -, hname, hkey⟩ := exchange_writes hnames (Network.mem_writes.mpr hp)
    obtain ⟨round', -, hname', hkey'⟩ := exchange_writes hnames (Network.mem_writes.mpr hq)
    obtain ⟨rfl, -⟩ := hkey.unique hname hname' hkey'
    exact hnumber p q i hi hi'
  · obtain ⟨i, -, hk⟩ := mem_sessionPlan hk
    exact hreserved k (exchange_longer (Or.inl hk))
  · obtain ⟨i, -, hk⟩ := mem_sessionPlan hk
    exact hreserved k (exchange_longer (Or.inr hk))

/-! ### Protocols -/

/-- A process for each input `A`, with the rounds it goes through and what it keeps to: what it broadcasts,
sends, notes and returns, in terms of what is in the store. -/
structure Protocol (A ω : Type) where
  rounds : List Round
  number : A → Nat
  count : A → Nat
  uuid : A → String
  process : A → PartyProc ω String
  broadcasts : A → (String → Option String) → String → String → Prop
  sends : A → (String → Option String) → Nat → String → Prop
  notes : A → (String → Option String) → ω → Prop
  returns : A → (String → Option String) → String → Prop
  wellNamed : WellNamed rounds
  follows : ∀ a, (process a).Follows (exchangePlan (number a) (count a) (uuid a) rounds)
  holds : ∀ a store, 1 ≤ number a → number a ≤ count a → (process a).Holds
    ⟨store, Written (number a) (uuid a) (broadcasts a store) (sends a store), notes a store⟩
    (returns a store)

open Network

section Sessions

variable {A ω : Type}

/-- The parties of one session and a state they have come to. -/
structure Session (protocol : Protocol A ω) (reserved : String → Bool) (input : P → Option A) (n : Nat)
    (uuid : String) (net : Net P String String ω String) : Prop where
  count_eq : ∀ p a, input p = some a → protocol.count a = n
  uuid_eq : ∀ p a, input p = some a → protocol.uuid a = uuid
  bounds : ∀ p a, input p = some a → 1 ≤ protocol.number a ∧ protocol.number a ≤ n
  distinct : ∀ p q a b, input p = some a → input q = some b →
    protocol.number a = protocol.number b → p = q
  started : ∀ p party, net.party p = some party → ∃ a, input p = some a ∧ party.init = protocol.process a
  consistent : Consistent reserved
    (sessionPlan (fun p => (input p).map protocol.number) n uuid protocol.rounds) net

namespace Session

variable {protocol : Protocol A ω} {reserved : String → Bool} {input : P → Option A} {n : Nat}
  {uuid : String} {net : Net P String String ω String}

/-- Every party has kept to its contract against the present store. -/
theorem kept (h : Session protocol reserved input n uuid net) {p : P} {a : A}
    {party : Party String String ω String} (ha : input p = some a) (hp : net.party p = some party) :
    (∀ kv ∈ party.wrote, Written (protocol.number a) (protocol.uuid a)
      (protocol.broadcasts a (visible reserved net.store)) (protocol.sends a (visible reserved net.store))
        kv.1 kv.2) ∧
      (∀ o ∈ party.log, protocol.notes a (visible reserved net.store) o) ∧
      ∀ text, party.cur = .done text → protocol.returns a (visible reserved net.store) text := by
  obtain ⟨a', ha', hinit⟩ := h.started p party hp
  obtain rfl := Option.some.inj (ha.symm.trans ha')
  obtain ⟨hpos, hle⟩ := h.bounds p a ha
  apply h.consistent.sound hp
  rw [hinit]
  apply protocol.holds a _ hpos
  rw [h.count_eq p a ha]
  exact hle

theorem returned (h : Session protocol reserved input n uuid net) {p : P} {text : String}
    (htext : net.output p = some text) :
    ∃ a, input p = some a ∧ protocol.returns a (visible reserved net.store) text := by
  obtain ⟨party, hp, hcur⟩ := output_eq_some.mp htext
  obtain ⟨a, ha, -⟩ := h.started p party hp
  exact ⟨a, ha, (h.kept ha hp).2.2 text hcur⟩

/-- A broadcast of number `k` was written by the party with number `k`. -/
theorem broadcaster (h : Session protocol reserved input n uuid net) {k : Nat} {round v : String}
    (hr : RoundName round) (hv : visible reserved net.store (broadcastKey k round uuid) = some v) :
    ∃ p a party, input p = some a ∧ protocol.number a = k ∧ net.party p = some party ∧
      (broadcastKey k round uuid, v) ∈ party.wrote ∧
      protocol.broadcasts a (visible reserved net.store) round v := by
  obtain ⟨p, party, hp, hmem⟩ := h.consistent.author _ v hv
  obtain ⟨a, ha, -⟩ := h.started p party hp
  have hwritten := (h.kept ha hp).1 _ hmem
  obtain ⟨rfl, hbroadcasts⟩ := Written.of_broadcast hr hwritten (by rw [h.uuid_eq p a ha])
  exact ⟨p, a, party, ha, rfl, hp, hmem, hbroadcasts⟩

/-- A message from number `k` to number `i` was written by the party with number `k`. -/
theorem sender (h : Session protocol reserved input n uuid net) {k i : Nat} {round v : String}
    (hr : RoundName round) (hv : visible reserved net.store (p2pKey k i round uuid) = some v) :
    ∃ p a party, input p = some a ∧ protocol.number a = k ∧ net.party p = some party ∧
      (p2pKey k i round uuid, v) ∈ party.wrote ∧ protocol.sends a (visible reserved net.store) i v := by
  obtain ⟨p, party, hp, hmem⟩ := h.consistent.author _ v hv
  obtain ⟨a, ha, -⟩ := h.started p party hp
  have hwritten := (h.kept ha hp).1 _ hmem
  obtain ⟨rfl, hsends⟩ := Written.of_send hr hwritten (by rw [h.uuid_eq p a ha])
  exact ⟨p, a, party, ha, rfl, hp, hmem, hsends⟩

/-- Two parties with the same number are one. -/
theorem same (h : Session protocol reserved input n uuid net) {p q : P} {a b : A}
    (ha : input p = some a) (hb : input q = some b) (hnumber : protocol.number a = protocol.number b) :
    p = q ∧ a = b := by
  obtain rfl := h.distinct p q a b ha hb hnumber
  exact ⟨rfl, Option.some.inj (ha.symm.trans hb)⟩

theorem disciplined (h : Session protocol reserved input n uuid net)
    (hreserved : ∀ k, uuid.length < k.length → reserved k = false) :
    Disciplined reserved (sessionPlan (fun p => (input p).map protocol.number) n uuid protocol.rounds) := by
  apply sessionPlan_disciplined protocol.wellNamed _ hreserved
  intro p q i hp hq
  obtain ⟨a, ha, hnumber⟩ := Option.map_eq_some_iff.mp hp
  obtain ⟨b, hb, rfl⟩ := Option.map_eq_some_iff.mp hq
  exact h.distinct p q a b ha hb hnumber

theorem move [DecidableEq P] (h : Session protocol reserved input n uuid net)
    (hreserved : ∀ k, uuid.length < k.length → reserved k = false) {p : P}
    {net' : Net P String String ω String} (hmove : net.move p = some net') :
    Session protocol reserved input n uuid net' := by
  refine ⟨h.count_eq, h.uuid_eq, h.bounds, h.distinct, fun q party hq => ?_,
    move_consistent (h.disciplined hreserved) h.consistent hmove⟩
  have hinit := move_init hmove q
  rw [hq, Option.map_some] at hinit
  obtain ⟨party', hq', hsame⟩ := Option.map_eq_some_iff.mp hinit.symm
  obtain ⟨a, ha, ha'⟩ := h.started q party' hq'
  exact ⟨a, ha, hsame.symm.trans ha'⟩

end Session

/-! ### Parties numbered from the start -/

/-- Parties `1..=n`. -/
def parties (n : Nat) (input : Nat → A) (p : Nat) : Option A :=
  if 1 ≤ p ∧ p ≤ n then some (input p) else none

theorem parties_some {n : Nat} {input : Nat → A} {p : Nat} {a : A} (h : parties n input p = some a) :
    (1 ≤ p ∧ p ≤ n) ∧ a = input p := by
  unfold parties at h
  split_ifs at h with hp
  exact ⟨hp, (Option.some.inj h).symm⟩

theorem parties_of_bounds {n : Nat} {input : Nat → A} {p : Nat} (hp : 1 ≤ p ∧ p ≤ n) :
    parties n input p = some (input p) := if_pos hp

/-- The parties before their first step, with an empty store. -/
def Protocol.start (protocol : Protocol A ω) (n : Nat) (input : Nat → A) : Net Nat String String ω String :=
  Net.start fun p => (parties n input p).map protocol.process

theorem Protocol.session_of_run (protocol : Protocol A ω) (n : Nat) (input : Nat → A) {uuid : String}
    (hnumber : ∀ p, protocol.number (input p) = p) (hcount : ∀ p, protocol.count (input p) = n)
    (huuid : ∀ p, protocol.uuid (input p) = uuid) {schedule : List Nat}
    {net : Net Nat String String ω String}
    (hrun : Machine.exec Net.move (protocol.start n input) schedule = some net) :
    Session protocol (fun _ => false) (parties n input) n uuid net := by
  refine Machine.exec_invariant (I := Session protocol (fun _ => false) (parties n input) n uuid)
    (fun s p t h hmove => h.move (fun _ _ => rfl) hmove) ?_ hrun
  refine ⟨fun p a ha => ?_, fun p a ha => ?_, fun p a ha => ?_, fun p q a b ha hb hsame => ?_,
    fun p party hp => ?_, start_consistent fun p x hx => ?_⟩
  · obtain ⟨-, rfl⟩ := parties_some ha
    exact hcount p
  · obtain ⟨-, rfl⟩ := parties_some ha
    exact huuid p
  · obtain ⟨hp, rfl⟩ := parties_some ha
    rw [hnumber]
    exact hp
  · obtain ⟨-, rfl⟩ := parties_some ha
    obtain ⟨-, rfl⟩ := parties_some hb
    rwa [hnumber, hnumber] at hsame
  · obtain ⟨x, hx, rfl⟩ := Option.map_eq_some_iff.mp hp
    obtain ⟨a, ha, rfl⟩ := Option.map_eq_some_iff.mp hx
    exact ⟨a, ha, rfl⟩
  · obtain ⟨a, ha, rfl⟩ := Option.map_eq_some_iff.mp hx
    have hfollows := protocol.follows a
    obtain ⟨-, rfl⟩ := parties_some ha
    rw [hcount, huuid] at hfollows
    rw [sessionPlan, ha]
    exact hfollows

end Sessions

end Gg18
