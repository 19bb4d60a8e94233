import MultiPartyTss.Lib.Network

/-!
# A store that anybody may write

The parties of `Lib.Network`, where entries of the store may also be set and removed by others at any time.
Nothing is known of what a process polls, so only what it checks itself can be relied on.

* `Proc.Robust`: the postcondition holds whatever the process polls.
* `Network.Unharmed`: a party keeps its postcondition, and writes what its plan says, in every tampered run
  (`unharmed_of_run`).
-/

namespace Proc

variable {K V ω α β : Type}

/-- Whatever the process polls, what it returns satisfies `post`. -/
def Robust (x : Proc K V ω α) (post : α → Prop) : Prop :=
  match x with
  | done a => post a
  | fail => True
  | put _ _ next => next.Robust post
  | poll _ next => ∀ v, (next v).Robust post
  | note _ next => next.Robust post

theorem Robust.pure {a : α} {post : α → Prop} (h : post a) : (pure a : Proc K V ω α).Robust post := h

theorem Robust.mono {x : Proc K V ω α} {post post' : α → Prop} (h : x.Robust post) (himp : ∀ a, post a → post' a) :
    x.Robust post' := by
  induction x with
  | done a => exact himp a h
  | fail => trivial
  | put k v next ih => exact ih h
  | poll k next ih => exact fun v => ih v (h v)
  | note o next ih => exact ih h

theorem Robust.bind {x : Proc K V ω α} {f : α → Proc K V ω β} {given : α → Prop} {post : β → Prop}
    (hx : x.Robust given) (hf : ∀ a, given a → (f a).Robust post) : (x >>= f).Robust post := by
  induction x with
  | done a => exact hf a hx
  | fail => trivial
  | put k v next ih => exact ih hx
  | poll k next ih => exact fun v => ih v (hx v)
  | note o next ih => exact ih hx

theorem robust_true (x : Proc K V ω α) : x.Robust fun _ => True := by
  induction x with
  | done a => trivial
  | fail => trivial
  | put k v next ih => exact ih
  | poll k next ih => exact ih
  | note o next ih => exact ih

/-- A first part whose result does not matter. -/
theorem Robust.rest {x : Proc K V ω α} {f : α → Proc K V ω β} {post : β → Prop}
    (hf : ∀ a, (f a).Robust post) : (x >>= f).Robust post := (robust_true x).bind fun a _ => hf a

theorem Robust.ofOptionBind {o : Option α} {f : α → Proc K V ω β} {post : β → Prop}
    (hf : ∀ a, o = some a → (f a).Robust post) : (ofOption o >>= f).Robust post := by
  cases o with
  | none => trivial
  | some a => exact hf a rfl

end Proc

namespace Network

open Proc

variable {P K V ω α : Type}

inductive OpenAction (P K V : Type) : Type where
  | move (p : P)
  /-- Somebody sets the entry `k`, or removes it. -/
  | tamper (k : K) (v : Option V)

section Steps

variable [DecidableEq P] [DecidableEq K]

def Net.openStep (net : Net P K V ω α) : OpenAction P K V → Option (Net P K V ω α)
  | .move p => net.move p
  | .tamper k v => some { net with store := Function.update net.store k v }

/-- Where a party has come to, of a process that follows `ops` and is robust for `post`. -/
structure Unharmed (ops : List (Op K)) (post : α → Prop) (party : Party K V ω α) : Prop where
  robust : party.cur.Robust post
  follows : ∃ front rest, ops = front ++ rest ∧ party.cur.Follows rest ∧
    writes front = party.wrote.map Prod.fst

theorem move_unharmed {net net' : Net P K V ω α} {p : P} {plan : P → List (Op K)} {post : P → α → Prop}
    (h : ∀ q party, net.party q = some party → Unharmed (plan q) (post q) party) (hmove : net.move p = some net') :
    ∀ q party, net'.party q = some party → Unharmed (plan q) (post q) party := by
  have hset : ∀ party', Unharmed (plan p) (post p) party' → ∀ q party,
      (net.setParty p party').party q = some party → Unharmed (plan q) (post q) party := by
    intro party' hparty' q party hq
    by_cases heq : q = p
    · subst heq
      rw [setParty_self, Option.some.injEq] at hq
      rwa [← hq]
    · rw [setParty_of_ne net party' heq] at hq
      exact h q party hq
  cases moved_of_move hmove with
  | @put party k v next hp hcur =>
    obtain ⟨hrobust, front, rest, hops, hfollows, hfront⟩ := h p party hp
    rw [hcur] at hrobust hfollows
    obtain ⟨rest, rfl, hrest⟩ := hfollows
    refine hset _ ⟨hrobust, front ++ [.put k], rest, ?_, hrest, ?_⟩
    · rw [hops, List.append_assoc, List.singleton_append]
    · rw [writes_append, hfront, List.map_append]
      rfl
  | @poll party k v next hp hcur hk =>
    obtain ⟨hrobust, front, rest, hops, hfollows, hfront⟩ := h p party hp
    rw [hcur] at hrobust hfollows
    obtain ⟨rest, rfl, hrest⟩ := hfollows
    refine hset _ ⟨hrobust v, front ++ [.poll k], rest, ?_, hrest v, ?_⟩
    · rw [hops, List.append_assoc, List.singleton_append]
    · rw [writes_append, writes_poll, writes_nil, List.append_nil, hfront]
  | wait => exact h
  | @note party o next hp hcur =>
    obtain ⟨hrobust, front, rest, hops, hfollows, hfront⟩ := h p party hp
    rw [hcur] at hrobust hfollows
    exact hset _ ⟨hrobust, front, rest, hops, hfollows, hfront⟩

/-- Under any interleaving with any tampering. -/
theorem unharmed_of_run {init : P → Option (Proc K V ω α)} (plan : P → List (Op K)) (post : P → α → Prop)
    (hinit : ∀ p x, init p = some x → x.Follows (plan p) ∧ x.Robust (post p))
    {actions : List (OpenAction P K V)} {net : Net P K V ω α}
    (hrun : Machine.exec Net.openStep (Net.start init) actions = some net) :
    ∀ p party, net.party p = some party → Unharmed (plan p) (post p) party := by
  refine Machine.exec_invariant (I := fun net : Net P K V ω α =>
    ∀ p party, net.party p = some party → Unharmed (plan p) (post p) party) (fun net action net' h hstep => ?_)
    (fun p party hp => ?_) hrun
  · cases action with
    | move p => exact move_unharmed h hstep
    | tamper k v =>
      obtain rfl := Option.some.inj hstep
      exact h
  · obtain ⟨x, hx, rfl⟩ := Option.map_eq_some_iff.mp hp
    obtain ⟨hfollows, hrobust⟩ := hinit p x hx
    exact ⟨hrobust, [], plan p, rfl, hfollows, rfl⟩

end Steps

/-- What a party has written is in its plan, in its order. -/
theorem Unharmed.wrote_front {ops : List (Op K)} {post : α → Prop} {party : Party K V ω α}
    (h : Unharmed ops post party) : party.wrote.map Prod.fst <+: writes ops := by
  obtain ⟨front, rest, rfl, -, hfront⟩ := h.follows
  rw [writes_append, ← hfront]
  exact List.prefix_append _ _

theorem Unharmed.returned {ops : List (Op K)} {post : α → Prop} {party : Party K V ω α} {a : α}
    (h : Unharmed ops post party) (hcur : party.cur = .done a) : post a := by
  have hrobust := h.robust
  rw [hcur] at hrobust
  exact hrobust

end Network
