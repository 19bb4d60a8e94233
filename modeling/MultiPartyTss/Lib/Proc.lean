import Mathlib.Tactic.Common

/-!
# Processes over a shared store

A process computes, writes entries of a store that it shares with others, and polls entries until they are
there. It may panic, and it may note a value: notes are for stating what a process computed on its way.

* `Proc.Follows`: which entries a process writes and polls, in which order.
* `Proc.eval`: its result over a store that does not change.
* `Proc.Holds`: partial correctness against a store in which every entry is written once. Whatever the
  process polls is in that store, and so is whatever it wrote itself; the contract says what must hold of
  its writes and notes, and the postcondition what must hold of its result.
* `Proc.HoldsGiven`: a second contract of the same process, where the first is known (`Holds.refine`).
-/

inductive Proc (K V ω α : Type) : Type where
  | done (a : α)
  /-- A panic. -/
  | fail
  | put (k : K) (v : V) (next : Proc K V ω α)
  /-- Wait until the entry `k` is there. -/
  | poll (k : K) (next : V → Proc K V ω α)
  | note (o : ω) (next : Proc K V ω α)

namespace Proc

variable {K V ω α β : Type}

def bind (x : Proc K V ω α) (f : α → Proc K V ω β) : Proc K V ω β :=
  match x with
  | done a => f a
  | fail => fail
  | put k v next => put k v (next.bind f)
  | poll k next => poll k fun v => (next v).bind f
  | note o next => note o (next.bind f)

instance : Monad (Proc K V ω) where
  pure := done
  bind := bind

def write (k : K) (v : V) : Proc K V ω Unit := put k v (done ())

def read (k : K) : Proc K V ω V := poll k done

def record (o : ω) : Proc K V ω Unit := note o (done ())

/-- `unwrap`. -/
def ofOption : Option α → Proc K V ω α
  | some a => done a
  | none => fail

/-- The result of a process that is at its end. -/
def result : Proc K V ω α → Option α
  | done a => some a
  | _ => none

theorem result_eq_some {x : Proc K V ω α} {a : α} : x.result = some a ↔ x = done a := by
  cases x <;> simp [result]

/-- The entry that a process polls next. -/
def polled : Proc K V ω α → Option K
  | poll k _ => some k
  | _ => none

theorem polled_eq_some {x : Proc K V ω α} {k : K} : x.polled = some k ↔ ∃ next, x = poll k next := by
  cases x <;> simp [polled]

/-! ### What a process writes and polls -/

inductive Op (K : Type) : Type where
  | put (k : K)
  | poll (k : K)

/-- Up to a panic, the writes and polls of the process are these. -/
def Follows (x : Proc K V ω α) (ops : List (Op K)) : Prop :=
  match x with
  | done _ => ops = []
  | fail => True
  | put k _ next => ∃ rest, ops = .put k :: rest ∧ next.Follows rest
  | poll k next => ∃ rest, ops = .poll k :: rest ∧ ∀ v, (next v).Follows rest
  | note _ next => next.Follows ops

theorem pure_follows (a : α) : (pure a : Proc K V ω α).Follows [] := rfl

theorem record_follows (o : ω) : (record o : Proc K V ω Unit).Follows [] := rfl

theorem ofOption_follows (o : Option α) : (ofOption o : Proc K V ω α).Follows [] := by
  cases o with
  | none => trivial
  | some a => rfl

theorem Follows.bind {x : Proc K V ω α} {f : α → Proc K V ω β} {ops ops' : List (Op K)}
    (hx : x.Follows ops) (hf : ∀ a, (f a).Follows ops') : (x >>= f).Follows (ops ++ ops') := by
  induction x generalizing ops with
  | done a =>
    obtain rfl : ops = [] := hx
    exact hf a
  | fail => trivial
  | put k v next ih =>
    obtain ⟨rest, rfl, hrest⟩ := hx
    exact ⟨rest ++ ops', rfl, ih hrest⟩
  | poll k next ih =>
    obtain ⟨rest, rfl, hrest⟩ := hx
    exact ⟨rest ++ ops', rfl, fun v => ih v (hrest v)⟩
  | note o next ih => exact ih hx

theorem Follows.writeBind {k : K} {v : V} {f : Unit → Proc K V ω β} {ops : List (Op K)}
    (hf : (f ()).Follows ops) : (write k v >>= f).Follows (.put k :: ops) := ⟨ops, rfl, hf⟩

/-- A first part that writes and polls nothing. -/
theorem Follows.localBind {x : Proc K V ω α} {f : α → Proc K V ω β} {ops : List (Op K)}
    (hx : x.Follows []) (hf : ∀ a, (f a).Follows ops) : (x >>= f).Follows ops := hx.bind hf

theorem Follows.ofOptionBind {o : Option α} {f : α → Proc K V ω β} {ops : List (Op K)}
    (hf : ∀ a, (f a).Follows ops) : (ofOption o >>= f).Follows ops :=
  (ofOption_follows o).localBind hf

theorem Follows.ofOptionBind_of {o : Option α} {f : α → Proc K V ω β} {ops : List (Op K)}
    (hf : ∀ a, o = some a → (f a).Follows ops) : (ofOption o >>= f).Follows ops := by
  cases o with
  | none => trivial
  | some a => exact hf a rfl

/-- The process with other notes. -/
def mapNote {ω' : Type} (f : ω → ω') : Proc K V ω α → Proc K V ω' α
  | done a => done a
  | fail => fail
  | put k v next => put k v (next.mapNote f)
  | poll k next => poll k fun v => (next v).mapNote f
  | note o next => note (f o) (next.mapNote f)

theorem Follows.mapNote {ω' : Type} {f : ω → ω'} {x : Proc K V ω α} {ops : List (Op K)} (h : x.Follows ops) :
    (x.mapNote f).Follows ops := by
  induction x generalizing ops with
  | done a => exact h
  | fail => trivial
  | put k v next ih =>
    obtain ⟨rest, rfl, hrest⟩ := h
    exact ⟨rest, rfl, ih hrest⟩
  | poll k next ih =>
    obtain ⟨rest, rfl, hrest⟩ := h
    exact ⟨rest, rfl, fun v => ih v (hrest v)⟩
  | note o next ih => exact ih h

/-- The entries written among some operations. -/
def writes (ops : List (Op K)) : List K :=
  ops.filterMap fun op =>
    match op with
    | .put k => some k
    | .poll _ => none

@[simp] theorem writes_nil : writes ([] : List (Op K)) = [] := rfl

@[simp] theorem writes_put (k : K) (ops : List (Op K)) : writes (.put k :: ops) = k :: writes ops := rfl

@[simp] theorem writes_poll (k : K) (ops : List (Op K)) : writes (.poll k :: ops) = writes ops := rfl

@[simp] theorem writes_append (ops ops' : List (Op K)) :
    writes (ops ++ ops') = writes ops ++ writes ops' := List.filterMap_append

/-! ### Partial correctness -/

/-- What a process may rely on and what it must keep to. -/
structure Contract (K V ω : Type) where
  store : K → Option V
  writes : K → V → Prop
  notes : ω → Prop

def Holds (C : Contract K V ω) (x : Proc K V ω α) (post : α → Prop) : Prop :=
  match x with
  | done a => post a
  | fail => True
  | put k v next => C.writes k v ∧ (C.store k = some v → next.Holds C post)
  | poll k next => ∀ v, C.store k = some v → (next v).Holds C post
  | note o next => C.notes o ∧ next.Holds C post

variable {C : Contract K V ω}

theorem Holds.mono {x : Proc K V ω α} {post post' : α → Prop} (h : x.Holds C post)
    (himp : ∀ a, post a → post' a) : x.Holds C post' := by
  induction x with
  | done a => exact himp a h
  | fail => trivial
  | put k v next ih => exact ⟨h.1, fun hk => ih (h.2 hk)⟩
  | poll k next ih => exact fun v hv => ih v (h v hv)
  | note o next ih => exact ⟨h.1, ih h.2⟩

@[simp] theorem holds_pure {a : α} {post : α → Prop} : (pure a : Proc K V ω α).Holds C post ↔ post a :=
  Iff.rfl

@[simp] theorem holds_bind {x : Proc K V ω α} {f : α → Proc K V ω β} {post : β → Prop} :
    (x >>= f).Holds C post ↔ x.Holds C fun a => (f a).Holds C post := by
  induction x with
  | done a => rfl
  | fail => rfl
  | put k v next ih => exact and_congr_right fun _ => imp_congr_right fun _ => ih
  | poll k next ih => exact forall_congr' fun v => imp_congr_right fun _ => ih v
  | note o next ih => exact and_congr_right fun _ => ih

@[simp] theorem holds_write {k : K} {v : V} {post : Unit → Prop} :
    (write k v).Holds C post ↔ C.writes k v ∧ (C.store k = some v → post ()) := Iff.rfl

@[simp] theorem holds_read {k : K} {post : V → Prop} :
    (read k).Holds C post ↔ ∀ v, C.store k = some v → post v := Iff.rfl

@[simp] theorem holds_record {o : ω} {post : Unit → Prop} :
    (record o).Holds C post ↔ C.notes o ∧ post () := Iff.rfl

@[simp] theorem holds_ofOption {o : Option α} {post : α → Prop} :
    (ofOption o).Holds C post ↔ ∀ a, o = some a → post a := by
  cases o with
  | none => exact ⟨fun _ a ha => (Option.some_ne_none a ha.symm).elim, fun _ => trivial⟩
  | some a => exact ⟨fun h b hb => Option.some.inj hb ▸ h, fun h => h a rfl⟩

/-! ### What may be assumed of the notes -/

/-- `Holds`, where a first contract of the process may be used: whatever it notes satisfies `given`. -/
def HoldsGiven (given : ω → Prop) (C : Contract K V ω) (x : Proc K V ω α) (post : α → Prop) : Prop :=
  match x with
  | done a => post a
  | fail => True
  | put k v next => C.writes k v ∧ (C.store k = some v → next.HoldsGiven given C post)
  | poll k next => ∀ v, C.store k = some v → (next v).HoldsGiven given C post
  | note o next => given o → C.notes o ∧ next.HoldsGiven given C post

variable {given : ω → Prop}

theorem Holds.refine {x : Proc K V ω α} {writes : K → V → Prop} {first post : α → Prop}
    (h : x.Holds ⟨C.store, writes, given⟩ first) (hgiven : x.HoldsGiven given C post) : x.Holds C post := by
  induction x with
  | done a => exact hgiven
  | fail => trivial
  | put k v next ih => exact ⟨hgiven.1, fun hk => ih (h.2 hk) (hgiven.2 hk)⟩
  | poll k next ih => exact fun v hv => ih v (h v hv) (hgiven v hv)
  | note o next ih => exact ⟨(hgiven h.1).1, ih h.2 (hgiven h.1).2⟩

theorem Holds.toGiven {x : Proc K V ω α} {post : α → Prop} (h : x.Holds C post) :
    x.HoldsGiven given C post := by
  induction x with
  | done a => exact h
  | fail => trivial
  | put k v next ih => exact ⟨h.1, fun hk => ih (h.2 hk)⟩
  | poll k next ih => exact fun v hv => ih v (h v hv)
  | note o next ih => exact fun _ => ⟨h.1, ih h.2⟩

/-- A part that needs nothing of the first contract. -/
theorem HoldsGiven.bind {x : Proc K V ω α} {f : α → Proc K V ω β} {post : β → Prop}
    (h : x.Holds C fun a => (f a).HoldsGiven given C post) : (x >>= f).HoldsGiven given C post := by
  induction x with
  | done a => exact h
  | fail => trivial
  | put k v next ih => exact ⟨h.1, fun hk => ih (h.2 hk)⟩
  | poll k next ih => exact fun v hv => ih v (h v hv)
  | note o next ih => exact fun _ => ⟨h.1, ih h.2⟩

theorem HoldsGiven.recordBind {o : ω} {f : Unit → Proc K V ω β} {post : β → Prop}
    (h : given o → C.notes o ∧ (f ()).HoldsGiven given C post) :
    (record o >>= f).HoldsGiven given C post := h

/-! ### Against a store that does not change -/

/-- The result of the process if all that it polls is in the store. -/
def eval (store : K → Option V) : Proc K V ω α → Option α
  | done a => some a
  | fail => none
  | put _ _ next => next.eval store
  | poll k next => (store k).bind fun v => (next v).eval store
  | note _ next => next.eval store

variable {store : K → Option V}

@[simp] theorem eval_pure (a : α) : (pure a : Proc K V ω α).eval store = some a := rfl

@[simp] theorem eval_bind (x : Proc K V ω α) (f : α → Proc K V ω β) :
    (x >>= f).eval store = (x.eval store).bind fun a => (f a).eval store := by
  induction x with
  | done a => rfl
  | fail => rfl
  | put k v next ih => exact ih
  | poll k next ih =>
    refine Eq.trans ?_ (Option.bind_assoc _ _ _).symm
    exact congrArg _ (funext ih)
  | note o next ih => exact ih

@[simp] theorem eval_read (k : K) : (read k : Proc K V ω V).eval store = store k := by
  show (store k).bind some = store k
  exact Option.bind_fun_some (store k)

@[simp] theorem eval_record (o : ω) : (record o : Proc K V ω Unit).eval store = some () := rfl

@[simp] theorem eval_ofOption (o : Option α) : (ofOption o : Proc K V ω α).eval store = o := by
  cases o with
  | none => rfl
  | some a => rfl

end Proc
