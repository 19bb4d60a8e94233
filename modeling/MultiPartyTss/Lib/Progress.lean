import MultiPartyTss.Lib.Network

/-!
# No waiting in a circle

If it is known for each entry what may be in it, a process can be run to its end in advance:
`Proc.Completes` says that whatever it reads, it writes what is expected, keeps to its plan to the end and
does not panic on the way.

Parties that do so cannot block each other when their plans can be timed (`Scheduled`): every write and
every poll has a time, the times of a plan do not decrease, and what is polled is written by somebody
earlier. Of the parties that are not at their end, one with the earliest next operation is never the one to
wait (`Settled.progress`).
-/

namespace Proc

variable {K V ω α β : Type}

/-- With expected entries `E`, the process makes the writes and polls `ops` and gives a `post`. Only with
`crash` may it panic, and then at the end of `ops`. -/
def Completes (E : K → V → Prop) (crash : Prop) (x : Proc K V ω α) (ops : List (Op K)) (post : α → Prop) :
    Prop :=
  match x with
  | done a => ops = [] ∧ post a
  | fail => crash ∧ ops = []
  | put k v next => ∃ rest, ops = .put k :: rest ∧ E k v ∧ next.Completes E crash rest post
  | poll k next => ∃ rest, ops = .poll k :: rest ∧ ∀ v, E k v → (next v).Completes E crash rest post
  | note _ next => next.Completes E crash ops post

variable {E : K → V → Prop} {crash : Prop} {ops : List (Op K)}

theorem completes_pure {a : α} {post : α → Prop} (h : post a) :
    (pure a : Proc K V ω α).Completes E crash [] post := ⟨rfl, h⟩

theorem Completes.mono {x : Proc K V ω α} {post post' : α → Prop} (h : x.Completes E crash ops post)
    (himp : ∀ a, post a → post' a) : x.Completes E crash ops post' := by
  induction x generalizing ops with
  | done a => exact ⟨h.1, himp a h.2⟩
  | fail => exact h
  | put k v next ih =>
    obtain ⟨rest, rfl, hE, hnext⟩ := h
    exact ⟨rest, rfl, hE, ih hnext⟩
  | poll k next ih =>
    obtain ⟨rest, rfl, hnext⟩ := h
    exact ⟨rest, rfl, fun v hv => ih v (hnext v hv)⟩
  | note o next ih => exact ih h

theorem Completes.bind {x : Proc K V ω α} {f : α → Proc K V ω β} {ops' : List (Op K)} {mid : α → Prop}
    {post : β → Prop} (hx : x.Completes E False ops mid)
    (hf : ∀ a, mid a → (f a).Completes E crash ops' post) : (x >>= f).Completes E crash (ops ++ ops') post := by
  induction x generalizing ops with
  | done a =>
    obtain ⟨rfl, ha⟩ := hx
    exact hf a ha
  | fail => exact hx.1.elim
  | put k v next ih =>
    obtain ⟨rest, rfl, hE, hrest⟩ := hx
    exact ⟨rest ++ ops', rfl, hE, ih hrest⟩
  | poll k next ih =>
    obtain ⟨rest, rfl, hrest⟩ := hx
    exact ⟨rest ++ ops', rfl, fun v hv => ih v (hrest v hv)⟩
  | note o next ih => exact ih hx

/-- A first part that writes and polls nothing. -/
theorem Completes.localBind {x : Proc K V ω α} {f : α → Proc K V ω β} {mid : α → Prop} {post : β → Prop}
    (hx : x.Completes E False [] mid) (hf : ∀ a, mid a → (f a).Completes E crash ops post) :
    (x >>= f).Completes E crash ops post := hx.bind hf

theorem Completes.writeBind {k : K} {v : V} {f : Unit → Proc K V ω β} {post : β → Prop} (hE : E k v)
    (hf : (f ()).Completes E crash ops post) : (write k v >>= f).Completes E crash (.put k :: ops) post :=
  ⟨ops, rfl, hE, hf⟩

theorem Completes.recordBind {o : ω} {f : Unit → Proc K V ω β} {post : β → Prop}
    (hf : (f ()).Completes E crash ops post) : (record o >>= f).Completes E crash ops post := hf

theorem Completes.ofOptionBind {o : Option α} {a : α} {f : α → Proc K V ω β} {post : β → Prop}
    (ho : o = some a) (hf : (f a).Completes E crash ops post) :
    (ofOption o >>= f).Completes E crash ops post := by
  rw [ho]
  exact hf

/-- Other expectations, which agree on what is polled. -/
theorem Completes.expect {E' : K → V → Prop} {x : Proc K V ω α} {post : α → Prop}
    (h : x.Completes E crash ops post) (hput : ∀ k v, E k v → E' k v)
    (hpoll : ∀ k v, .poll k ∈ ops → E' k v → E k v) : x.Completes E' crash ops post := by
  induction x generalizing ops with
  | done a => exact h
  | fail => exact h
  | put k v next ih =>
    obtain ⟨rest, rfl, hE, hnext⟩ := h
    exact ⟨rest, rfl, hput k v hE, ih hnext fun k v hk => hpoll k v (List.mem_cons_of_mem _ hk)⟩
  | poll k next ih =>
    obtain ⟨rest, rfl, hnext⟩ := h
    exact ⟨rest, rfl, fun v hv => ih v (hnext v (hpoll k v List.mem_cons_self hv))
      fun k v hk => hpoll k v (List.mem_cons_of_mem _ hk)⟩
  | note o next ih => exact ih h hpoll

theorem completes_ofOption {o : Option α} {a : α} {post : α → Prop} (ho : o = some a) (ha : post a) :
    (ofOption o : Proc K V ω α).Completes E crash [] post := by
  rw [ho]
  exact ⟨rfl, ha⟩

/-- A panic at the end of the plan. -/
theorem Completes.panicBind {o : Option α} {f : α → Proc K V ω β} {post : β → Prop} (hcrash : crash)
    (ho : o = none) : (ofOption o >>= f).Completes E crash [] post := by
  rw [ho]
  exact ⟨hcrash, rfl⟩

/-! ### The next operation -/

/-- There is a write or a poll to come. -/
def Unfinished : Proc K V ω α → Prop
  | done _ | fail => False
  | put _ _ _ | poll _ _ => True
  | note _ next => next.Unfinished

/-- The next operation is a write, or a poll of an entry that is there. -/
def Ready (store : K → Option V) : Proc K V ω α → Prop
  | done _ | fail => False
  | put _ _ _ => True
  | poll k _ => (store k).isSome
  | note _ next => next.Ready store

/-- The next operation is to poll `k`. -/
def Awaits (k : K) : Proc K V ω α → Prop
  | done _ | fail | put _ _ _ => False
  | poll k' _ => k' = k
  | note _ next => next.Awaits k

def Panicked : Proc K V ω α → Prop
  | fail => True
  | done _ | put _ _ _ | poll _ _ => False
  | note _ next => next.Panicked

theorem Ready.unfinished {store : K → Option V} {x : Proc K V ω α} (h : x.Ready store) : x.Unfinished := by
  induction x with
  | done a => exact h
  | fail => exact h
  | put k v next _ => trivial
  | poll k next _ => trivial
  | note o next ih => exact ih h

theorem Ready.awaits {store : K → Option V} {x : Proc K V ω α} {k : K} (h : x.Ready store)
    (hawaits : x.Awaits k) : (store k).isSome := by
  induction x with
  | done a => exact hawaits.elim
  | fail => exact hawaits.elim
  | put k v next _ => exact hawaits.elim
  | poll k' next _ =>
    obtain rfl : k' = k := hawaits
    exact h
  | note o next ih => exact ih h hawaits

theorem Completes.not_panicked {x : Proc K V ω α} {post : α → Prop} (h : x.Completes E crash ops post)
    (hcrash : ¬ crash) : ¬ x.Panicked := by
  induction x with
  | done a => exact id
  | fail => exact fun _ => hcrash h.1
  | put k v next _ => exact id
  | poll k next _ => exact id
  | note o next ih => exact ih h

theorem Completes.plan_of_unfinished {x : Proc K V ω α} {post : α → Prop} (h : x.Completes E crash ops post)
    (hx : x.Unfinished) : ops ≠ [] := by
  induction x with
  | done a => exact hx.elim
  | fail => exact hx.elim
  | put k v next _ =>
    obtain ⟨rest, rfl, -⟩ := h
    exact List.cons_ne_nil _ _
  | poll k next _ =>
    obtain ⟨rest, rfl, -⟩ := h
    exact List.cons_ne_nil _ _
  | note o next ih => exact ih h hx

/-- What is next in the plan is a poll of an entry that is not there, or the process can go on. -/
theorem Completes.ready {x : Proc K V ω α} {op : Op K} {rest : List (Op K)} {post : α → Prop}
    (h : x.Completes E crash (op :: rest) post) {store : K → Option V}
    (hop : ∀ k, op = .poll k → (store k).isSome) : x.Ready store := by
  induction x with
  | done a => exact (List.cons_ne_nil _ _ h.1).elim
  | fail => exact (List.cons_ne_nil _ _ h.2).elim
  | put k v next _ => trivial
  | poll k next _ =>
    obtain ⟨rest', hops, -⟩ := h
    exact hop k (List.cons.inj hops).1
  | note o next ih => exact ih h

end Proc

namespace Network

open Proc

variable {P K V ω α : Type}

/-- Whoever is unfinished, somebody can make the next step. -/
def Progress (net : Net P K V ω α) : Prop :=
  ∀ p party, net.party p = some party → party.cur.Unfinished →
    ∃ q other, net.party q = some other ∧ other.cur.Ready net.store

def NoPanic (net : Net P K V ω α) : Prop := ∀ p party, net.party p = some party → ¬ party.cur.Panicked

/-- The store has only expected entries, and the parties have made the first parts of their plans. -/
structure Settled (E : K → V → Prop) (crash : Prop) (plan : P → List (Op K)) (net : Net P K V ω α) : Prop where
  expected : ∀ k v, net.store k = some v → E k v
  remaining : ∀ p party, net.party p = some party → ∃ front rest, plan p = front ++ rest ∧
    party.cur.Completes E crash rest (fun _ => True) ∧ ∀ k, .put k ∈ front → (net.store k).isSome

/-- The plans can be timed: what is polled is written before. -/
def Scheduled (plan : P → List (Op K)) : Prop :=
  ∃ timed : P → List (Nat × Op K), (∀ p, (timed p).map Prod.snd = plan p) ∧
    (∀ p, (timed p).Pairwise fun x y => x.1 ≤ y.1) ∧
    ∀ p i k, (i, Op.poll k) ∈ timed p → ∃ q j, j < i ∧ (j, Op.put k) ∈ timed q

variable {E : K → V → Prop} {crash : Prop} {plan : P → List (Op K)}

theorem start_settled {init : P → Option (Proc K V ω α)}
    (hinit : ∀ p x, init p = some x → x.Completes E crash (plan p) fun _ => True) :
    Settled E crash plan (Net.start init) := by
  refine ⟨fun k v hk => (Option.some_ne_none v hk.symm).elim, fun p party hp => ?_⟩
  obtain ⟨x, hx, rfl⟩ := Option.map_eq_some_iff.mp hp
  exact ⟨[], plan p, rfl, hinit p x hx, fun k hk => (List.not_mem_nil hk).elim⟩

section Writes

variable [DecidableEq K] {store : K → Option V} {k k' : K} {v v' : V}

theorem update_expected (h : ∀ k v, store k = some v → E k v) (hE : E k v)
    (hk' : Function.update store k (some v) k' = some v') : E k' v' := by
  by_cases hkk : k' = k
  · subst hkk
    rw [Function.update_self, Option.some.injEq] at hk'
    rwa [← hk']
  · rw [Function.update_of_ne hkk] at hk'
    exact h k' v' hk'

theorem update_isSome (h : k' = k ∨ (store k').isSome) : (Function.update store k (some v) k').isSome := by
  by_cases hkk : k' = k
  · rw [hkk, Function.update_self]
    rfl
  · rw [Function.update_of_ne hkk]
    exact h.resolve_left hkk

/-- A write of an expected entry from outside. -/
theorem Settled.writeExpected {net : Net P K V ω α} (h : Settled E crash plan net) (hE : E k v) :
    Settled E crash plan { net with store := Function.update net.store k (some v) } := by
  refine ⟨fun k' v' hk' => update_expected h.expected hE hk', fun p party hp => ?_⟩
  obtain ⟨front, rest, hplan, hcur, hput⟩ := h.remaining p party hp
  exact ⟨front, rest, hplan, hcur, fun k' hk' => update_isSome (Or.inr (hput k' hk'))⟩

end Writes

section Steps

variable [DecidableEq P]

theorem Settled.setParty {net : Net P K V ω α} (h : Settled E crash plan net) {p : P}
    {party' : Party K V ω α} {store : K → Option V}
    (hgrow : ∀ k, (net.store k).isSome → (store k).isSome) (hstore : ∀ k v, store k = some v → E k v)
    (hrest : ∃ front rest, plan p = front ++ rest ∧ party'.cur.Completes E crash rest (fun _ => True) ∧
      ∀ k, .put k ∈ front → (store k).isSome) :
    Settled E crash plan { net.setParty p party' with store := store } := by
  refine ⟨hstore, fun q other hq => ?_⟩
  change (net.setParty p party').party q = some other at hq
  by_cases heq : q = p
  · subst heq
    rw [setParty_self, Option.some.injEq] at hq
    subst hq
    exact hrest
  · rw [setParty_of_ne net party' heq] at hq
    obtain ⟨front, rest, hplan, hcur, hput⟩ := h.remaining q other hq
    exact ⟨front, rest, hplan, hcur, fun k hk => hgrow k (hput k hk)⟩

theorem Settled.spawn {net : Net P K V ω α} (h : Settled E crash plan net) {p : P} {x : Proc K V ω α}
    (hx : x.Completes E crash (plan p) fun _ => True) : Settled E crash plan (net.spawn p x) := by
  refine ⟨h.expected, fun q other hq => ?_⟩
  by_cases heq : q = p
  · subst heq
    rw [Net.spawn, setParty_self, Option.some.injEq] at hq
    subst hq
    exact ⟨[], plan q, rfl, hx, fun k hk => (List.not_mem_nil hk).elim⟩
  · rw [Net.spawn, setParty_of_ne net _ heq] at hq
    exact h.remaining q other hq

theorem move_settled [DecidableEq K] {net net' : Net P K V ω α} {p : P} (h : Settled E crash plan net)
    (hmove : net.move p = some net') : Settled E crash plan net' := by
  cases moved_of_move hmove with
  | @put party k v next hp hcur =>
    obtain ⟨front, rest, hplan, hcompletes, hput⟩ := h.remaining p party hp
    rw [hcur] at hcompletes
    obtain ⟨rest, rfl, hE, hnext⟩ := hcompletes
    refine h.setParty (fun k' hk' => update_isSome (Or.inr hk')) (fun k' v' => update_expected h.expected hE)
      ⟨front ++ [.put k], rest, by simp [hplan], hnext, fun k' hk' => ?_⟩
    rcases List.mem_append.mp hk' with hk' | hk'
    · exact update_isSome (Or.inr (hput k' hk'))
    · exact update_isSome (Or.inl (Op.put.inj (List.mem_singleton.mp hk')))
  | @poll party k v next hp hcur hk =>
    obtain ⟨front, rest, hplan, hcompletes, hput⟩ := h.remaining p party hp
    rw [hcur] at hcompletes
    obtain ⟨rest, rfl, hnext⟩ := hcompletes
    refine h.setParty (fun _ => id) h.expected
      ⟨front ++ [.poll k], rest, by simp [hplan], hnext v (h.expected k v hk), fun k' hk' => ?_⟩
    rcases List.mem_append.mp hk' with hk' | hk'
    · exact hput k' hk'
    · simp at hk'
  | wait => exact h
  | @note party o next hp hcur =>
    obtain ⟨front, rest, hplan, hcompletes, hput⟩ := h.remaining p party hp
    rw [hcur] at hcompletes
    exact h.setParty (fun _ => id) h.expected ⟨front, rest, hplan, hcompletes, hput⟩

end Steps

/-- A party whose next operation is at time `i` can go on, or waits for one whose next is earlier. -/
theorem Settled.ready_at {net : Net P K V ω α} (h : Settled E crash plan net)
    (hpresent : ∀ p, plan p ≠ [] → ∃ party, net.party p = some party)
    {timed : P → List (Nat × Op K)} (htimed : ∀ p, (timed p).map Prod.snd = plan p)
    (hsorted : ∀ p, (timed p).Pairwise fun x y => x.1 ≤ y.1)
    (hsupply : ∀ p i k, (i, Op.poll k) ∈ timed p → ∃ q j, j < i ∧ (j, Op.put k) ∈ timed q) (i : Nat) :
    ∀ p party past op later, net.party p = some party → timed p = past ++ (i, op) :: later →
      party.cur.Completes E crash (op :: later.map Prod.snd) (fun _ => True) →
      ∃ q other, net.party q = some other ∧ other.cur.Ready net.store := by
  induction i using Nat.strongRecOn with
  | ind i ih =>
    intro p party past op later hp hpast hcur
    by_cases hop : ∀ k, op = .poll k → (net.store k).isSome
    · exact ⟨p, party, hp, hcur.ready hop⟩
    · push Not at hop
      obtain ⟨k, rfl, hk⟩ := hop
      obtain ⟨q, j, hji, hput⟩ := hsupply p i k (by simp [hpast])
      obtain ⟨other, hq⟩ := hpresent q (by rw [← htimed]; exact List.ne_nil_of_mem (List.mem_map_of_mem hput))
      obtain ⟨front, rest, hplan, hother, hfront⟩ := h.remaining q other hq
      rw [← htimed, List.map_eq_append_iff] at hplan
      obtain ⟨past', rest', hpast', rfl, rfl⟩ := hplan
      -- `q` has still to write the entry
      have hrest : (j, Op.put k) ∈ rest' := by
        rw [hpast', List.mem_append] at hput
        refine hput.resolve_left fun hmem => hk ?_
        exact hfront k (List.mem_map_of_mem (f := Prod.snd) hmem)
      obtain ⟨⟨j', op'⟩, later', rfl⟩ := List.exists_cons_of_ne_nil (List.ne_nil_of_mem hrest)
      have hle : j' ≤ j := by
        have hpair := hsorted q
        rw [hpast', List.pairwise_append, List.pairwise_cons] at hpair
        rcases List.mem_cons.mp hrest with heq | hmem
        · exact Nat.le_of_eq (congrArg Prod.fst heq).symm
        · exact hpair.2.1.1 _ hmem
      exact ih j' (by omega) q other past' op' later' hq hpast' hother

theorem Settled.progress {net : Net P K V ω α} (h : Settled E crash plan net)
    (hpresent : ∀ p, plan p ≠ [] → ∃ party, net.party p = some party) (hplan : Scheduled plan) :
    Progress net := by
  obtain ⟨timed, htimed, hsorted, hsupply⟩ := hplan
  intro p party hp hunfinished
  obtain ⟨front, rest, hplan, hcur, -⟩ := h.remaining p party hp
  rw [← htimed, List.map_eq_append_iff] at hplan
  obtain ⟨past, rest, hpast, rfl, rfl⟩ := hplan
  have hrest := hcur.plan_of_unfinished hunfinished
  rw [Ne, List.map_eq_nil_iff] at hrest
  obtain ⟨⟨i, op⟩, later, rfl⟩ := List.exists_cons_of_ne_nil hrest
  exact h.ready_at hpresent htimed hsorted hsupply i p party past op later hp hpast hcur

/-- Without a panic in the plans there is none in the run. -/
theorem Settled.noPanic {net : Net P K V ω α} (h : Settled E crash plan net) (hcrash : ¬ crash) : NoPanic net := by
  intro p party hp
  obtain ⟨front, rest, -, hcur, -⟩ := h.remaining p party hp
  exact hcur.not_panicked hcrash

end Network
