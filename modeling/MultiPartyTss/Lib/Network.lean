import Mathlib.Logic.Function.Basic
import MultiPartyTss.Lib.Proc
import MultiPartyTss.Lib.Run

/-!
# Parties that exchange entries through one store

Any number of parties, each with a process of `Lib.Proc`, over one store; every write and every attempt of
a poll is a step of its own, in any order. An attempt on an absent entry changes nothing. A party keeps its
initial process and what it has written and noted.

Each party has a plan of writes and polls (`Follows`). If no entry is written twice according to the plans,
then the store only grows, so a party has read and written what is in the store now. `Consistent.sound`
turns this into the rule of the library: what `Holds` of the process of one party, against the present
store, holds of its writes, notes and result, under any interleaving. `Consistent.author` is the other
half: every entry of the store was written by a party.

Some keys may be reserved for other uses of the same store, such as handing out the numbers of the parties
that join; the plans stay away from them.
-/

namespace Network

open Proc

variable {P K V ω α : Type}

structure Party (K V ω α : Type) where
  init : Proc K V ω α
  cur : Proc K V ω α
  wrote : List (K × V)
  log : List ω

structure Net (P K V ω α : Type) where
  store : K → Option V
  party : P → Option (Party K V ω α)

section Steps

variable [DecidableEq P]

def Net.setParty (net : Net P K V ω α) (p : P) (party : Party K V ω α) : Net P K V ω α :=
  { net with party := Function.update net.party p (some party) }

/-- `p` joins with this process. -/
def Net.spawn (net : Net P K V ω α) (p : P) (x : Proc K V ω α) : Net P K V ω α :=
  net.setParty p ⟨x, x, [], []⟩

/-- The next step of `p`. -/
def Net.move [DecidableEq K] (net : Net P K V ω α) (p : P) : Option (Net P K V ω α) :=
  match net.party p with
  | none => none
  | some party =>
    match party.cur with
    | .done _ | .fail => none
    | .put k v next =>
      some { net.setParty p { party with cur := next, wrote := party.wrote ++ [(k, v)] } with
        store := Function.update net.store k (some v) }
    | .poll k next =>
      match net.store k with
      | some v => some (net.setParty p { party with cur := next v })
      | none => some net
    | .note o next => some (net.setParty p { party with cur := next, log := party.log ++ [o] })

@[simp] theorem setParty_self (net : Net P K V ω α) (p : P) (party : Party K V ω α) :
    (net.setParty p party).party p = some party := by
  simp [Net.setParty]

theorem setParty_of_ne (net : Net P K V ω α) {p q : P} (party : Party K V ω α) (h : q ≠ p) :
    (net.setParty p party).party q = net.party q := by
  simp [Net.setParty, h]

/-- What a step of `p` can do. -/
inductive Moved [DecidableEq K] (net : Net P K V ω α) (p : P) : Net P K V ω α → Prop where
  | put {party k v next} : net.party p = some party → party.cur = .put k v next →
      Moved net p { net.setParty p { party with cur := next, wrote := party.wrote ++ [(k, v)] } with
        store := Function.update net.store k (some v) }
  | poll {party k v next} : net.party p = some party → party.cur = .poll k next → net.store k = some v →
      Moved net p (net.setParty p { party with cur := next v })
  | wait {party k next} : net.party p = some party → party.cur = .poll k next → net.store k = none →
      Moved net p net
  | note {party o next} : net.party p = some party → party.cur = .note o next →
      Moved net p (net.setParty p { party with cur := next, log := party.log ++ [o] })

theorem moved_of_move [DecidableEq K] {net net' : Net P K V ω α} {p : P} (hmove : net.move p = some net') :
    Moved net p net' := by
  cases hp : net.party p with
  | none => simp [Net.move, hp] at hmove
  | some party =>
    cases hcur : party.cur with
    | done a => simp [Net.move, hp, hcur] at hmove
    | fail => simp [Net.move, hp, hcur] at hmove
    | put k v next =>
      simp only [Net.move, hp, hcur, Option.some.injEq] at hmove
      subst hmove
      exact .put hp hcur
    | poll k next =>
      cases hk : net.store k with
      | none =>
        simp only [Net.move, hp, hcur, hk, Option.some.injEq] at hmove
        subst hmove
        exact .wait hp hcur hk
      | some v =>
        simp only [Net.move, hp, hcur, hk, Option.some.injEq] at hmove
        subst hmove
        exact .poll hp hcur hk
    | note o next =>
      simp only [Net.move, hp, hcur, Option.some.injEq] at hmove
      subst hmove
      exact .note hp hcur

end Steps

/-- The parties start with these processes over an empty store. -/
def Net.start (init : P → Option (Proc K V ω α)) : Net P K V ω α :=
  ⟨fun _ => none, fun p => (init p).map fun x => ⟨x, x, [], []⟩⟩

/-- What `p` returned, if it has. -/
def Net.output (net : Net P K V ω α) (p : P) : Option α :=
  (net.party p).bind fun party => party.cur.result

/-- The entry that `p` reads in its next step. -/
def Net.reading (net : Net P K V ω α) (p : P) : Option (K × V) :=
  (net.party p).bind fun party => party.cur.polled.bind fun k => (net.store k).map fun v => (k, v)

theorem reading_eq_some {net : Net P K V ω α} {p : P} {kv : K × V} :
    net.reading p = some kv ↔
      ∃ party next, net.party p = some party ∧ party.cur = .poll kv.1 next ∧ net.store kv.1 = some kv.2 := by
  simp only [Net.reading, Option.bind_eq_some_iff, Option.map_eq_some_iff, polled_eq_some]
  constructor
  · rintro ⟨party, hp, k, ⟨next, hcur⟩, v, hk, rfl⟩
    exact ⟨party, next, hp, hcur, hk⟩
  · rintro ⟨party, next, hp, hcur, hk⟩
    exact ⟨party, hp, kv.1, ⟨next, hcur⟩, kv.2, hk, rfl⟩

theorem output_eq_some {net : Net P K V ω α} {p : P} {a : α} :
    net.output p = some a ↔ ∃ party, net.party p = some party ∧ party.cur = .done a := by
  simp only [Net.output, Option.bind_eq_some_iff, result_eq_some]

/-! ### One party -/

/-- From `x` a party can have come to `y` with these writes and notes, if the store is as in `store`. -/
inductive Ran (store : K → Option V) (x : Proc K V ω α) :
    List (K × V) → List ω → Proc K V ω α → Prop where
  | start : Ran store x [] [] x
  | put {wrote log k v next} : Ran store x wrote log (.put k v next) → store k = some v →
      Ran store x (wrote ++ [(k, v)]) log next
  | poll {wrote log k v next} : Ran store x wrote log (.poll k next) → store k = some v →
      Ran store x wrote log (next v)
  | note {wrote log o next} : Ran store x wrote log (.note o next) → Ran store x wrote (log ++ [o]) next

theorem Ran.mono {store store' : K → Option V} {x y : Proc K V ω α} {wrote : List (K × V)}
    {log : List ω} (h : Ran store x wrote log y) (hgrow : ∀ k v, store k = some v → store' k = some v) :
    Ran store' x wrote log y := by
  induction h with
  | start => exact .start
  | put _ hk ih => exact .put ih (hgrow _ _ hk)
  | poll _ hk ih => exact .poll ih (hgrow _ _ hk)
  | note _ ih => exact .note ih

theorem Ran.holds {C : Contract K V ω} {x y : Proc K V ω α} {wrote : List (K × V)} {log : List ω}
    {post : α → Prop} (h : Ran C.store x wrote log y) (hx : x.Holds C post) :
    y.Holds C post ∧ (∀ kv ∈ wrote, C.writes kv.1 kv.2) ∧ ∀ o ∈ log, C.notes o := by
  induction h with
  | start => exact ⟨hx, by simp, by simp⟩
  | put _ hk ih =>
    obtain ⟨hy, hwrote, hlog⟩ := ih
    refine ⟨hy.2 hk, ?_, hlog⟩
    intro kv hkv
    rcases List.mem_append.mp hkv with hkv | hkv
    · exact hwrote kv hkv
    · obtain rfl := List.mem_singleton.mp hkv
      exact hy.1
  | poll _ hk ih =>
    obtain ⟨hy, hwrote, hlog⟩ := ih
    exact ⟨hy _ hk, hwrote, hlog⟩
  | note _ ih =>
    obtain ⟨hy, hwrote, hlog⟩ := ih
    refine ⟨hy.2, hwrote, ?_⟩
    intro o ho
    rcases List.mem_append.mp ho with ho | ho
    · exact hlog o ho
    · obtain rfl := List.mem_singleton.mp ho
      exact hy.1

/-- What a party has written is the front of the writes of its plan. -/
theorem Ran.follows {store : K → Option V} {x y : Proc K V ω α} {wrote : List (K × V)} {log : List ω}
    {ops : List (Op K)} (h : Ran store x wrote log y) (hx : x.Follows ops) :
    ∃ front rest, ops = front ++ rest ∧ y.Follows rest ∧ writes front = wrote.map Prod.fst := by
  induction h with
  | start => exact ⟨[], ops, rfl, hx, rfl⟩
  | @put wrote log k v next _ hk ih =>
    obtain ⟨front, _, rfl, ⟨rest, rfl, hrest⟩, hfront⟩ := ih
    refine ⟨front ++ [.put k], rest, by simp, hrest, ?_⟩
    rw [writes_append, hfront, List.map_append]
    rfl
  | @poll wrote log k v next _ hk ih =>
    obtain ⟨front, _, rfl, ⟨rest, rfl, hrest⟩, hfront⟩ := ih
    refine ⟨front ++ [.poll k], rest, by simp, hrest v, ?_⟩
    rw [writes_append, hfront]
    exact List.append_nil _
  | note _ ih => exact ih

theorem Ran.stored {store : K → Option V} {x y : Proc K V ω α} {wrote : List (K × V)} {log : List ω}
    (h : Ran store x wrote log y) : ∀ kv ∈ wrote, store kv.1 = some kv.2 := by
  induction h with
  | start => simp
  | put _ hk ih =>
    intro kv hkv
    rcases List.mem_append.mp hkv with hkv | hkv
    · exact ih kv hkv
    · obtain rfl := List.mem_singleton.mp hkv
      exact hk
  | poll _ _ ih => exact ih
  | note _ ih => exact ih

/-! ### All of them -/

variable {reserved : K → Bool} {plan : P → List (Op K)}

/-- The store without its reserved keys. -/
def visible (reserved : K → Bool) (store : K → Option V) (k : K) : Option V :=
  if reserved k then none else store k

theorem visible_some {store : K → Option V} {k : K} {v : V} :
    visible reserved store k = some v ↔ reserved k = false ∧ store k = some v := by
  cases h : reserved k <;> simp [visible, h]

/-- No entry is written twice, and no reserved key is used. -/
structure Disciplined (reserved : K → Bool) (plan : P → List (Op K)) : Prop where
  nodup : ∀ p, (writes (plan p)).Nodup
  apart : ∀ p q k, k ∈ writes (plan p) → k ∈ writes (plan q) → p = q
  puts : ∀ p k, .put k ∈ plan p → reserved k = false
  polls : ∀ p k, .poll k ∈ plan p → reserved k = false

structure Consistent (reserved : K → Bool) (plan : P → List (Op K)) (net : Net P K V ω α) : Prop where
  follows : ∀ p party, net.party p = some party → party.init.Follows (plan p)
  ran : ∀ p party, net.party p = some party →
    Ran (visible reserved net.store) party.init party.wrote party.log party.cur
  author : ∀ k v, visible reserved net.store k = some v →
    ∃ p party, net.party p = some party ∧ (k, v) ∈ party.wrote

theorem start_consistent {init : P → Option (Proc K V ω α)}
    (hfollows : ∀ p x, init p = some x → x.Follows (plan p)) :
    Consistent reserved plan (Net.start init) := by
  refine ⟨fun p party hp => ?_, fun p party hp => ?_, fun k v hk => ?_⟩
  · obtain ⟨x, hx, rfl⟩ := Option.map_eq_some_iff.mp hp
    exact hfollows p x hx
  · obtain ⟨x, hx, rfl⟩ := Option.map_eq_some_iff.mp hp
    exact .start
  · exact (Option.some_ne_none v (visible_some.mp hk).2.symm).elim

section Steps

variable [DecidableEq P]

/-- A step of one party, which may add entries that it wrote itself to the visible store. -/
theorem Consistent.setParty {net : Net P K V ω α} (hcons : Consistent reserved plan net) {p : P}
    {party party' : Party K V ω α} {store : K → Option V} (hp : net.party p = some party)
    (hinit : party'.init = party.init) (hwrote : ∀ kv ∈ party.wrote, kv ∈ party'.wrote)
    (hgrow : ∀ k v, visible reserved net.store k = some v → visible reserved store k = some v)
    (hran : Ran (visible reserved store) party.init party'.wrote party'.log party'.cur)
    (hauthor : ∀ k v, visible reserved store k = some v →
      visible reserved net.store k = some v ∨ (k, v) ∈ party'.wrote) :
    Consistent reserved plan { net.setParty p party' with store := store } := by
  refine ⟨fun q other hq => ?_, fun q other hq => ?_, fun k v hk => ?_⟩
  · change (net.setParty p party').party q = some other at hq
    by_cases heq : q = p
    · subst heq
      rw [setParty_self, Option.some.injEq] at hq
      rw [← hq, hinit]
      exact hcons.follows q party hp
    · rw [setParty_of_ne net party' heq] at hq
      exact hcons.follows q other hq
  · change (net.setParty p party').party q = some other at hq
    by_cases heq : q = p
    · subst heq
      rw [setParty_self, Option.some.injEq] at hq
      rw [← hq, hinit]
      exact hran
    · rw [setParty_of_ne net party' heq] at hq
      exact (hcons.ran q other hq).mono hgrow
  · show ∃ q other, (net.setParty p party').party q = some other ∧ (k, v) ∈ other.wrote
    rcases hauthor k v hk with hold | hnew
    · obtain ⟨q, other, hq, hmem⟩ := hcons.author k v hold
      by_cases heq : q = p
      · subst heq
        rw [hp, Option.some.injEq] at hq
        subst hq
        exact ⟨q, party', setParty_self net q party', hwrote (k, v) hmem⟩
      · exact ⟨q, other, (setParty_of_ne net party' heq).trans hq, hmem⟩
    · exact ⟨p, party', setParty_self net p party', hnew⟩

/-- A party that joins, with a plan for it. -/
theorem Consistent.spawn {plan' : P → List (Op K)} {net : Net P K V ω α} {p : P} {x : Proc K V ω α}
    (hcons : Consistent reserved plan net) (hp : net.party p = none)
    (hplan : ∀ q, q ≠ p → plan' q = plan q) (hx : x.Follows (plan' p)) :
    Consistent reserved plan' (net.spawn p x) := by
  refine ⟨fun q other hq => ?_, fun q other hq => ?_, fun k v hk => ?_⟩
  · by_cases heq : q = p
    · subst heq
      rw [Net.spawn, setParty_self, Option.some.injEq] at hq
      subst hq
      exact hx
    · rw [Net.spawn, setParty_of_ne net _ heq] at hq
      rw [hplan q heq]
      exact hcons.follows q other hq
  · by_cases heq : q = p
    · subst heq
      rw [Net.spawn, setParty_self, Option.some.injEq] at hq
      subst hq
      exact .start
    · rw [Net.spawn, setParty_of_ne net _ heq] at hq
      exact hcons.ran q other hq
  · obtain ⟨q, other, hq, hmem⟩ := hcons.author k v hk
    have heq : q ≠ p := by
      rintro rfl
      rw [hp] at hq
      exact Option.some_ne_none other hq.symm
    refine ⟨q, other, ?_, hmem⟩
    rw [Net.spawn, setParty_of_ne net _ heq]
    exact hq

end Steps

theorem visible_writeReserved [DecidableEq K] {store : K → Option V} {k : K} (hk : reserved k = true)
    (v : Option V) : visible reserved (Function.update store k v) = visible reserved store := by
  funext k'
  unfold visible
  by_cases heq : k' = k
  · subst heq
    rw [if_pos hk, if_pos hk]
  · rw [Function.update_of_ne heq]

/-- A write of a reserved key is no part of the exchange. -/
theorem Consistent.writeReserved [DecidableEq K] {net : Net P K V ω α}
    (hcons : Consistent reserved plan net) {k : K}
    (hk : reserved k = true) (v : Option V) :
    Consistent reserved plan { net with store := Function.update net.store k v } := by
  refine ⟨hcons.follows, ?_, ?_⟩
  · rw [visible_writeReserved hk]
    exact hcons.ran
  · rw [visible_writeReserved hk]
    exact hcons.author

/-- Under any interleaving, a party has kept to the contract of its process against the present store. -/
theorem Consistent.sound {net : Net P K V ω α} (hcons : Consistent reserved plan net) {p : P}
    {party : Party K V ω α} (hp : net.party p = some party) {writes : K → V → Prop} {notes : ω → Prop}
    {post : α → Prop} (hinit : party.init.Holds ⟨visible reserved net.store, writes, notes⟩ post) :
    (∀ kv ∈ party.wrote, writes kv.1 kv.2) ∧ (∀ o ∈ party.log, notes o) ∧
      ∀ a, party.cur = .done a → post a := by
  obtain ⟨hcur, hwrote, hlog⟩ :=
    Ran.holds (C := ⟨visible reserved net.store, writes, notes⟩) (hcons.ran p party hp) hinit
  refine ⟨hwrote, hlog, ?_⟩
  intro a ha
  rw [ha] at hcur
  exact hcur

/-- What a party wrote is in the store. -/
theorem Consistent.stored {net : Net P K V ω α} (hcons : Consistent reserved plan net) {p : P}
    {party : Party K V ω α} (hp : net.party p = some party) {k : K} {v : V} (hkv : (k, v) ∈ party.wrote) :
    visible reserved net.store k = some v :=
  (hcons.ran p party hp).stored (k, v) hkv

theorem mem_writes {ops : List (Op K)} {k : K} : k ∈ writes ops ↔ .put k ∈ ops := by
  rw [writes, List.mem_filterMap]
  constructor
  · rintro ⟨op, hop, hk⟩
    cases op with
    | put k' =>
      obtain rfl := Option.some.inj hk
      exact hop
    | poll k' => exact (Option.some_ne_none k hk.symm).elim
  · intro hop
    exact ⟨.put k, hop, rfl⟩

/-- The entry a party is about to write is not there yet. -/
theorem Consistent.fresh {net : Net P K V ω α} (hcons : Consistent reserved plan net)
    (hplan : Disciplined reserved plan) {p : P} {party : Party K V ω α} {k : K} {v : V}
    {next : Proc K V ω α} (hp : net.party p = some party) (hcur : party.cur = .put k v next) :
    reserved k = false ∧ net.store k = none := by
  have hran := hcons.ran p party hp
  rw [hcur] at hran
  obtain ⟨front, _, hops, ⟨rest, rfl, -⟩, hfront⟩ := hran.follows (hcons.follows p party hp)
  have hopen : reserved k = false := by
    apply hplan.puts p
    rw [hops]
    simp
  refine ⟨hopen, ?_⟩
  by_contra hsome
  obtain ⟨w, hw⟩ := Option.ne_none_iff_exists'.mp hsome
  obtain ⟨q, other, hq, hmem⟩ := hcons.author k w (visible_some.mpr ⟨hopen, hw⟩)
  obtain ⟨front', rest', hops', -, hfront'⟩ := (hcons.ran q other hq).follows (hcons.follows q other hq)
  have hkq : k ∈ writes front' := by
    rw [hfront']
    exact List.mem_map_of_mem hmem
  obtain rfl : p = q := by
    apply hplan.apart p q k
    · rw [hops]
      simp
    · rw [hops', writes_append]
      exact List.mem_append_left _ hkq
  rw [hp, Option.some.injEq] at hq
  subst hq
  have hnodup := hplan.nodup p
  rw [hops, writes_append, writes_put, List.nodup_append] at hnodup
  refine hnodup.2.2 k ?_ k List.mem_cons_self rfl
  rw [hfront]
  exact List.mem_map_of_mem hmem

/-- What a party wrote is in its plan. -/
theorem Consistent.wrote_plan {net : Net P K V ω α} (hcons : Consistent reserved plan net) {p : P}
    {party : Party K V ω α} (hp : net.party p = some party) {kv : K × V} (hkv : kv ∈ party.wrote) :
    kv.1 ∈ writes (plan p) := by
  obtain ⟨front, rest, hops, -, hfront⟩ := (hcons.ran p party hp).follows (hcons.follows p party hp)
  rw [hops, writes_append, hfront]
  exact List.mem_append_left _ (List.mem_map_of_mem hkv)

/-- A party writes no entry twice. -/
theorem Consistent.wrote_nodup {net : Net P K V ω α} (hcons : Consistent reserved plan net)
    (hplan : Disciplined reserved plan) {p : P} {party : Party K V ω α} (hp : net.party p = some party) :
    (party.wrote.map Prod.fst).Nodup := by
  obtain ⟨front, rest, hops, -, hfront⟩ := (hcons.ran p party hp).follows (hcons.follows p party hp)
  have hnodup := hplan.nodup p
  rw [hops, writes_append, hfront] at hnodup
  exact (List.nodup_append.mp hnodup).1

/-- What a party is about to read is in its plan, and visible. -/
theorem Consistent.reading {net : Net P K V ω α} (hcons : Consistent reserved plan net)
    (hplan : Disciplined reserved plan) {p : P} {kv : K × V} (hkv : net.reading p = some kv) :
    .poll kv.1 ∈ plan p ∧ visible reserved net.store kv.1 = some kv.2 := by
  obtain ⟨party, next, hp, hcur, hk⟩ := reading_eq_some.mp hkv
  have hran := hcons.ran p party hp
  rw [hcur] at hran
  obtain ⟨front, _, hops, ⟨rest, rfl, -⟩, -⟩ := hran.follows (hcons.follows p party hp)
  have hmem : .poll kv.1 ∈ plan p := by
    rw [hops]
    simp
  exact ⟨hmem, visible_some.mpr ⟨hplan.polls p kv.1 hmem, hk⟩⟩

section Runs

variable [DecidableEq P] [DecidableEq K]

/-- No step changes a visible entry that is there. -/
theorem move_visible {net net' : Net P K V ω α} {p : P} {k : K} {v : V} (hplan : Disciplined reserved plan)
    (hcons : Consistent reserved plan net) (hmove : net.move p = some net')
    (hk : visible reserved net.store k = some v) : visible reserved net'.store k = some v := by
  cases moved_of_move hmove with
  | put hp hcur =>
    have hnone := (hcons.fresh hplan hp hcur).2
    rw [visible_some] at hk ⊢
    refine ⟨hk.1, (Function.update_of_ne ?_ _ _).trans hk.2⟩
    rintro rfl
    rw [hnone] at hk
    exact Option.some_ne_none v hk.2.symm
  | poll => exact hk
  | wait => exact hk
  | note => exact hk

theorem move_consistent {net net' : Net P K V ω α} {p : P} (hplan : Disciplined reserved plan)
    (hcons : Consistent reserved plan net) (hmove : net.move p = some net') :
    Consistent reserved plan net' := by
  have hgrow := fun k v => move_visible (k := k) (v := v) hplan hcons hmove
  cases moved_of_move hmove with
  | @put party k v next hp hcur =>
    have hran := hcons.ran p party hp
    obtain ⟨hopen, hnone⟩ := hcons.fresh hplan hp hcur
    have hnew : visible reserved (Function.update net.store k (some v)) k = some v :=
      visible_some.mpr ⟨hopen, Function.update_self k (some v) net.store⟩
    rw [hcur] at hran
    refine hcons.setParty hp rfl (fun kv hkv => List.mem_append_left _ hkv) hgrow
      (.put (hran.mono hgrow) hnew) fun k' v' hk' => ?_
    by_cases hkk : k' = k
    · subst hkk
      rw [hnew, Option.some.injEq] at hk'
      right
      rw [hk']
      simp
    · left
      rw [visible_some] at hk' ⊢
      rw [Function.update_of_ne hkk] at hk'
      exact hk'
  | @poll party k v next hp hcur hk =>
    have hran := hcons.ran p party hp
    have hreading : net.reading p = some (k, v) := reading_eq_some.mpr ⟨party, next, hp, hcur, hk⟩
    obtain ⟨-, hvisible⟩ := hcons.reading hplan hreading
    rw [hcur] at hran
    exact hcons.setParty hp rfl (fun kv hkv => hkv) (fun _ _ h => h) (.poll hran hvisible) fun _ _ h => Or.inl h
  | wait => exact hcons
  | @note party o next hp hcur =>
    have hran := hcons.ran p party hp
    rw [hcur] at hran
    exact hcons.setParty hp rfl (fun kv hkv => hkv) (fun _ _ h => h) (.note hran) fun _ _ h => Or.inl h

/-! ### What a step leaves as it is -/

theorem move_reserved {net net' : Net P K V ω α} {p : P} {k : K} (hplan : Disciplined reserved plan)
    (hcons : Consistent reserved plan net) (hmove : net.move p = some net') (hk : reserved k = true) :
    net'.store k = net.store k := by
  cases moved_of_move hmove with
  | put hp hcur =>
    obtain ⟨hopen, -⟩ := hcons.fresh hplan hp hcur
    apply Function.update_of_ne
    rintro rfl
    rw [hk] at hopen
    exact Bool.noConfusion hopen
  | poll => rfl
  | wait => rfl
  | note => rfl

omit [DecidableEq K] in
theorem setParty_init {net : Net P K V ω α} {p : P} {party party' : Party K V ω α}
    (hp : net.party p = some party) (hinit : party'.init = party.init) (q : P) :
    ((net.setParty p party').party q).map Party.init = (net.party q).map Party.init := by
  by_cases heq : q = p
  · subst heq
    rw [setParty_self, hp, Option.map_some, Option.map_some, hinit]
  · rw [setParty_of_ne net party' heq]

theorem move_init {net net' : Net P K V ω α} {p : P} (hmove : net.move p = some net') (q : P) :
    (net'.party q).map Party.init = (net.party q).map Party.init := by
  cases moved_of_move hmove with
  | put hp => exact setParty_init hp (by rfl) q
  | poll hp => exact setParty_init hp (by rfl) q
  | wait => rfl
  | note hp => exact setParty_init hp (by rfl) q

theorem move_present {net net' : Net P K V ω α} {p q : P} (hmove : net.move p = some net') :
    (∃ party, net'.party q = some party) ↔ ∃ party, net.party q = some party := by
  have hinit := congrArg Option.isSome (move_init hmove q)
  rw [Option.isSome_map, Option.isSome_map] at hinit
  rw [← Option.isSome_iff_exists, ← Option.isSome_iff_exists, hinit]

/-- The process never writes `k`. -/
def Avoids (k : K) (x : Proc K V ω α) : Prop := ∃ ops, x.Follows ops ∧ .put k ∉ ops

/-- What nobody writes stays. -/
theorem move_avoids {net net' : Net P K V ω α} {p : P} {k : K}
    (h : ∀ q party, net.party q = some party → Avoids k party.cur) (hmove : net.move p = some net') :
    net'.store k = net.store k ∧ ∀ q party, net'.party q = some party → Avoids k party.cur := by
  have hset : ∀ (party' : Party K V ω α), Avoids k party'.cur → ∀ q party,
      (net.setParty p party').party q = some party → Avoids k party.cur := by
    intro party' hparty' q party hq
    by_cases heq : q = p
    · subst heq
      rw [setParty_self, Option.some.injEq] at hq
      rwa [← hq]
    · rw [setParty_of_ne net party' heq] at hq
      exact h q party hq
  cases moved_of_move hmove with
  | @put party k' v next hp hcur =>
    obtain ⟨ops, hfollows, hops⟩ := h p party hp
    rw [hcur] at hfollows
    obtain ⟨rest, rfl, hrest⟩ := hfollows
    rw [List.mem_cons, not_or] at hops
    exact ⟨Function.update_of_ne (fun heq => hops.1 (congrArg Op.put heq)) _ _, hset _ ⟨rest, hrest, hops.2⟩⟩
  | @poll party k' v next hp hcur hk =>
    obtain ⟨ops, hfollows, hops⟩ := h p party hp
    rw [hcur] at hfollows
    obtain ⟨rest, rfl, hrest⟩ := hfollows
    exact ⟨rfl, hset _ ⟨rest, hrest v, fun hmem => hops (List.mem_cons_of_mem _ hmem)⟩⟩
  | wait => exact ⟨rfl, h⟩
  | @note party o next hp hcur =>
    obtain ⟨ops, hfollows, hops⟩ := h p party hp
    rw [hcur] at hfollows
    exact ⟨rfl, hset _ ⟨ops, hfollows, hops⟩⟩

end Runs

end Network
