import MultiPartyTss.Gg20.ConnectionPool
import MultiPartyTss.Lib.Census

/-!
# Queries through the limiter

`with_conn` takes a permit of the limiter, which has as many as the pool has connections, and runs a closure with
a connection on a blocking thread. The caller may be dropped at any time: it gives its permit back and cancels
its handle, while the thread goes on to its next check. `get` takes no permit, so its callers compete for the
connections. `with_conn_safe`: over any run no permit and no connection is lost, the caller panics only for its
closure, a closure is not started for a caller that is gone, and there is a connection for each permit but for
those that tasks without a caller and the callers of `get` have.
-/

namespace Server

open Gg20 (ConnectionPool)
open Gg20.ConnectionPool (Sized create_sized outAfter out_of_step step_sized)

inductive CancelableError (E : Type) where
  | cancel
  | error (e : E)
  deriving DecidableEq, Repr

/-- What becomes of a closure; `none` is a panic. -/
abbrev Ran (T E : Type) : Type := Option (Except (CancelableError E) T)

inductive Caller (T E : Type) where
  | idle
  /-- In `limiter.acquire`. -/
  | acquiring
  /-- With a permit and the guard, until its task is over. -/
  | awaiting
  | returned (result : Except E T)
  | panicked
  | dropped
  deriving DecidableEq

/-- The blocking task. -/
inductive Task (T E : Type) where
  | unspawned
  | scheduled
  /-- In `pool.get`. -/
  | connecting
  | connected
  /-- In the closure. -/
  | running
  | done (result : Ran T E)
  deriving DecidableEq

structure Query (T E : Type) where
  caller : Caller T E
  task : Task T E
  /-- What has become of the closure, if it was run. -/
  closure : Option (Ran T E)
  deriving DecidableEq

/-- The callers of `get`: how many are in `r2d2`, and how many have a connection. -/
structure Others where
  waiting : Nat
  out : Nat
  deriving DecidableEq

/-- Callers of `with_conn` over one pool. -/
structure Queries (n : Nat) (T E : Type) where
  permits : Nat
  pool : ConnectionPool
  others : Others
  query : Fin n → Query T E

/-- What `with_conn` makes of the result of its task. -/
def outcome {T E : Type} : Ran T E → Caller T E
  | some (.ok t) => .returned (.ok t)
  | some (.error (.error e)) => .returned (.error e)
  | some (.error .cancel) | none => .panicked

namespace Task

variable {T E : Type}

/-- The task has a connection. -/
def Connected : Task T E → Prop
  | connected | running => True
  | unspawned | scheduled | connecting | done _ => False

instance : DecidablePred (Connected (T := T) (E := E))
  | connected | running => isTrue trivial
  | unspawned | scheduled | connecting | done _ => isFalse id

/-- The closure is not over. -/
def Underway : Task T E → Prop
  | scheduled | connecting | connected | running => True
  | unspawned | done _ => False

end Task

def Caller.Awaiting {T E : Type} : Caller T E → Prop
  | awaiting => True
  | idle | acquiring | returned _ | panicked | dropped => False

instance {T E : Type} : DecidablePred (Caller.Awaiting (T := T) (E := E))
  | .awaiting => isTrue trivial
  | .idle | .acquiring | .returned _ | .panicked | .dropped => isFalse id

namespace Others

/-- What becomes of the callers of `get`. -/
def next (others : Others) (pool : ConnectionPool) : ConnectionPool.Event → Others
  | .get =>
    match pool.getReady with
    | .error _ => others
    | .ok _ => { others with waiting := others.waiting + 1 }
  | .checkout => ⟨others.waiting - 1, others.out + 1⟩
  | .timeout => { others with waiting := others.waiting - 1 }
  | .giveBack _ => { others with out := others.out - 1 }
  | .establish | .close | .error _ | .database _ => others

/-- There is a caller of `get` to which the event can happen. -/
def Can (others : Others) : ConnectionPool.Event → Prop
  | .checkout | .timeout => 0 < others.waiting
  | .giveBack _ => 0 < others.out
  | .get | .establish | .close | .error _ | .database _ => True

instance (others : Others) : ∀ e, Decidable (others.Can e)
  | .checkout | .timeout | .giveBack _ => Nat.decLt _ _
  | .get | .establish | .close | .error _ | .database _ => isTrue trivial

end Others

namespace Queries

variable {n : Nat} {T E : Type}

def start (pool_size : Nat) (accepting : Bool) : Queries n T E :=
  ⟨pool_size, .create pool_size accepting, ⟨0, 0⟩, fun _ => ⟨.idle, .unspawned, none⟩⟩

def set (s : Queries n T E) (permits : Nat) (pool : ConnectionPool) (i : Fin n) (query : Query T E) : Queries n T E :=
  { s with permits, pool, query := Function.update s.query i query }

inductive Action (n : Nat) (T E : Type) where
  | call (i : Fin n)
  | acquire (i : Fin n)
  /-- The task begins, with its first check. -/
  | begin (i : Fin n)
  | checkout (i : Fin n)
  | timeout (i : Fin n)
  /-- The second check. -/
  | check (i : Fin n) (live : Bool)
  | finish (i : Fin n) (result : Ran T E) (live : Bool)
  /-- The task is over, and its caller goes on. -/
  | resume (i : Fin n)
  | drop (i : Fin n)
  /-- A caller of `get`, or the database. -/
  | pool (e : ConnectionPool.Event)

/-- The number of queries that are as given. -/
def count (s : Queries n T E) (P : Query T E → Prop) [DecidablePred P] : Nat := Census.count (fun _ q => P q) s.query

variable (unavailable : E)

def step (s : Queries n T E) : Action n T E → Option (Queries n T E)
  | .call i =>
    match (s.query i).caller with
    | .idle =>
      match s.pool.getReady with
      | .error _ => some (s.set s.permits s.pool i { s.query i with caller := .returned (.error unavailable) })
      | .ok p => some (s.set s.permits p i { s.query i with caller := .acquiring })
    | _ => none
  | .acquire i =>
    match (s.query i).caller with
    | .acquiring =>
      if 0 < s.permits then
        some (s.set (s.permits - 1) s.pool i { s.query i with caller := .awaiting, task := .scheduled })
      else none
    | _ => none
  | .begin i =>
    match (s.query i).task with
    | .scheduled =>
      if (s.query i).caller.Awaiting then
        some (s.set s.permits { s.pool with waiting := s.pool.waiting + 1 } i { s.query i with task := .connecting })
      else some (s.set s.permits s.pool i { s.query i with task := .done (some (.error .cancel)) })
    | _ => none
  | .checkout i =>
    match (s.query i).task with
    | .connecting =>
      (s.pool.step .checkout).map fun p => s.set s.permits p i { s.query i with task := .connected }
    | _ => none
  | .timeout i =>
    match (s.query i).task with
    | .connecting =>
      (s.pool.step .timeout).map fun p =>
        s.set s.permits p i { s.query i with task := .done (some (.error (.error unavailable))) }
    | _ => none
  | .check i live =>
    match (s.query i).task with
    | .connected =>
      if (s.query i).caller.Awaiting then some (s.set s.permits s.pool i { s.query i with task := .running })
      else
        (s.pool.step (.giveBack live)).map fun p =>
          s.set s.permits p i { s.query i with task := .done (some (.error .cancel)) }
    | _ => none
  | .finish i result live =>
    match (s.query i).task with
    | .running =>
      (s.pool.step (.giveBack live)).map fun p =>
        s.set s.permits p i { s.query i with task := .done result, closure := some result }
    | _ => none
  | .resume i =>
    match (s.query i).caller, (s.query i).task with
    | .awaiting, .done result => some (s.set (s.permits + 1) s.pool i { s.query i with caller := outcome result })
    | _, _ => none
  | .drop i =>
    match (s.query i).caller with
    | .acquiring => some (s.set s.permits s.pool i { s.query i with caller := .dropped })
    | .awaiting => some (s.set (s.permits + 1) s.pool i { s.query i with caller := .dropped })
    | _ => none
  | .pool e =>
    if s.others.Can e then (s.pool.step e).map fun p => { s with pool := p, others := s.others.next s.pool e }
    else none

/-! ### What a step does -/

/-- What a step can do to query `i`: the permits, the pool and the query after it. -/
inductive Moved (unavailable : E) (s : Queries n T E) (i : Fin n) : Nat → ConnectionPool → Query T E → Prop where
  | refused : (s.query i).caller = .idle →
      Moved unavailable s i s.permits s.pool { s.query i with caller := .returned (.error unavailable) }
  | called {p} : (s.query i).caller = .idle → s.pool.getReady = .ok p →
      Moved unavailable s i s.permits p { s.query i with caller := .acquiring }
  | acquired : (s.query i).caller = .acquiring → 0 < s.permits →
      Moved unavailable s i (s.permits - 1) s.pool { s.query i with caller := .awaiting, task := .scheduled }
  | began : (s.query i).task = .scheduled → (s.query i).caller.Awaiting →
      Moved unavailable s i s.permits { s.pool with waiting := s.pool.waiting + 1 }
        { s.query i with task := .connecting }
  | cancelled : (s.query i).task = .scheduled → ¬ (s.query i).caller.Awaiting →
      Moved unavailable s i s.permits s.pool { s.query i with task := .done (some (.error .cancel)) }
  | connected {p} : (s.query i).task = .connecting → s.pool.step .checkout = some p →
      Moved unavailable s i s.permits p { s.query i with task := .connected }
  | timedOut {p} : (s.query i).task = .connecting → s.pool.step .timeout = some p →
      Moved unavailable s i s.permits p { s.query i with task := .done (some (.error (.error unavailable))) }
  | checked : (s.query i).task = .connected → (s.query i).caller.Awaiting →
      Moved unavailable s i s.permits s.pool { s.query i with task := .running }
  | stopped {p live} : (s.query i).task = .connected → ¬ (s.query i).caller.Awaiting →
      s.pool.step (.giveBack live) = some p →
      Moved unavailable s i s.permits p { s.query i with task := .done (some (.error .cancel)) }
  | finished {p live result} : (s.query i).task = .running → s.pool.step (.giveBack live) = some p →
      Moved unavailable s i s.permits p { s.query i with task := .done result, closure := some result }
  | resumed {result} : (s.query i).caller = .awaiting → (s.query i).task = .done result →
      Moved unavailable s i (s.permits + 1) s.pool { s.query i with caller := outcome result }
  | left : (s.query i).caller = .acquiring →
      Moved unavailable s i s.permits s.pool { s.query i with caller := .dropped }
  | dropped : (s.query i).caller = .awaiting →
      Moved unavailable s i (s.permits + 1) s.pool { s.query i with caller := .dropped }

theorem moved_of_step {s t : Queries n T E} {a : Action n T E} (h : step unavailable s a = some t) :
    (∃ i permits pool query, Moved unavailable s i permits pool query ∧ t = s.set permits pool i query) ∨
      ∃ e p, s.others.Can e ∧ s.pool.step e = some p ∧
        t = { s with pool := p, others := s.others.next s.pool e } := by
  cases a with
  | call i =>
    simp only [step] at h
    split at h
    · rename_i hidle
      split at h
      · cases h
        exact Or.inl ⟨i, _, _, _, .refused hidle, rfl⟩
      · rename_i hready
        cases h
        exact Or.inl ⟨i, _, _, _, .called hidle hready, rfl⟩
    · cases h
  | acquire i =>
    simp only [step] at h
    split at h
    · rename_i hacquiring
      split_ifs at h with hpermits
      cases h
      exact Or.inl ⟨i, _, _, _, .acquired hacquiring hpermits, rfl⟩
    · cases h
  | begin i =>
    simp only [step] at h
    split at h
    · rename_i hscheduled
      split_ifs at h with hawaiting
      · cases h
        exact Or.inl ⟨i, _, _, _, .began hscheduled hawaiting, rfl⟩
      · cases h
        exact Or.inl ⟨i, _, _, _, .cancelled hscheduled hawaiting, rfl⟩
    · cases h
  | checkout i =>
    simp only [step] at h
    split at h
    · rename_i hconnecting
      obtain ⟨p, hp, rfl⟩ := Option.map_eq_some_iff.mp h
      exact Or.inl ⟨i, _, _, _, .connected hconnecting hp, rfl⟩
    · cases h
  | timeout i =>
    simp only [step] at h
    split at h
    · rename_i hconnecting
      obtain ⟨p, hp, rfl⟩ := Option.map_eq_some_iff.mp h
      exact Or.inl ⟨i, _, _, _, .timedOut hconnecting hp, rfl⟩
    · cases h
  | check i live =>
    simp only [step] at h
    split at h
    · rename_i hconnected
      split_ifs at h with hawaiting
      · cases h
        exact Or.inl ⟨i, _, _, _, .checked hconnected hawaiting, rfl⟩
      · obtain ⟨p, hp, rfl⟩ := Option.map_eq_some_iff.mp h
        exact Or.inl ⟨i, _, _, _, .stopped hconnected hawaiting hp, rfl⟩
    · cases h
  | finish i result live =>
    simp only [step] at h
    split at h
    · rename_i hrunning
      obtain ⟨p, hp, rfl⟩ := Option.map_eq_some_iff.mp h
      exact Or.inl ⟨i, _, _, _, .finished hrunning hp, rfl⟩
    · cases h
  | resume i =>
    simp only [step] at h
    split at h
    · rename_i hawaiting hdone
      cases h
      exact Or.inl ⟨i, _, _, _, .resumed hawaiting hdone, rfl⟩
    · cases h
  | drop i =>
    simp only [step] at h
    split at h
    · rename_i hacquiring
      cases h
      exact Or.inl ⟨i, _, _, _, .left hacquiring, rfl⟩
    · rename_i hawaiting
      cases h
      exact Or.inl ⟨i, _, _, _, .dropped hawaiting, rfl⟩
    · cases h
  | pool e =>
    simp only [step] at h
    split_ifs at h with hcan
    obtain ⟨p, hp, rfl⟩ := Option.map_eq_some_iff.mp h
    exact Or.inr ⟨e, p, hcan, hp, rfl⟩

/-! ### Permits and connections -/

variable {unavailable} {size : Nat} {s : Queries n T E} {i : Fin n} {permits : Nat} {pool : ConnectionPool}
  {query : Query T E}

theorem outcome_not_awaiting (result : Ran T E) : ¬ (outcome result).Awaiting := by
  unfold outcome
  split <;> exact id

/-- A permit comes and goes with the caller. -/
theorem Moved.permit (h : Moved unavailable s i permits pool query) :
    permits + (if query.caller.Awaiting then 1 else 0) =
      s.permits + if (s.query i).caller.Awaiting then 1 else 0 := by
  cases h with
  | refused hcaller | called hcaller | left hcaller | dropped hcaller => simp [hcaller, Caller.Awaiting]
  | acquired hcaller hpos =>
    simp only [hcaller, Caller.Awaiting, reduceIte]
    omega
  | resumed hcaller =>
    rw [if_neg (outcome_not_awaiting _), hcaller]
    rfl
  | began | cancelled | connected | timedOut | checked | stopped | finished => rfl

/-- A connection comes and goes with the task. -/
theorem Moved.connections (h : Moved unavailable s i permits pool query) (hs : Sized size s.pool)
    (hunspawned : (s.query i).caller = .acquiring → (s.query i).task = .unspawned) :
    Sized size pool ∧ s.pool.out + (if query.task.Connected then 1 else 0) =
      pool.out + if (s.query i).task.Connected then 1 else 0 := by
  have hstep : ∀ {e p}, s.pool.step e = some p → Sized size p ∧ p.out = outAfter s.pool e := fun hp =>
    ⟨step_sized hs hp, out_of_step hs.not_always hp⟩
  cases h with
  | refused | left | dropped | resumed => exact ⟨hs, rfl⟩
  | acquired hcaller =>
    rw [hunspawned hcaller]
    exact ⟨hs, rfl⟩
  | called hcaller hready =>
    obtain ⟨inner, available, rfl⟩ := ConnectionPool.getReady_ok hready
    exact ⟨⟨hs.not_always, hs.pool_size, hs.le⟩, rfl⟩
  | began htask =>
    rw [htask]
    exact ⟨⟨hs.not_always, hs.pool_size, hs.le⟩, rfl⟩
  | cancelled htask =>
    rw [htask]
    exact ⟨hs, rfl⟩
  | checked htask =>
    rw [htask]
    exact ⟨hs, rfl⟩
  | connected htask hp | timedOut htask hp =>
    obtain ⟨hsized, hout⟩ := hstep hp
    exact ⟨hsized, by simp [hout, htask, Task.Connected, outAfter]⟩
  | stopped htask hcaller hp | finished htask hp =>
    obtain ⟨hsized, hout⟩ := hstep hp
    have hpos := ConnectionPool.out_pos_of_giveBack hp
    refine ⟨hsized, ?_⟩
    simp only [hout, htask, Task.Connected, outAfter, reduceIte]
    omega

/-- Each awaiting caller has a permit, and each task its connection, beside those of the callers of `get`. -/
structure Counted (size : Nat) (s : Queries n T E) : Prop where
  sized : Sized size s.pool
  permits : s.permits + s.count (fun q => q.caller.Awaiting) = size
  connected : s.pool.out = s.count (fun q => q.task.Connected) + s.others.out

theorem count_set (s : Queries n T E) (permits : Nat) (pool : ConnectionPool) (i : Fin n) (query : Query T E)
    (P : Query T E → Prop) [DecidablePred P] :
    (s.set permits pool i query).count P + (if P (s.query i) then 1 else 0) =
      s.count P + if P query then 1 else 0 := Census.count_update i query

theorem Counted.set (hs : s.Counted size) (h : Moved unavailable s i permits pool query)
    (hunspawned : (s.query i).caller = .acquiring → (s.query i).task = .unspawned) :
    (s.set permits pool i query).Counted size := by
  obtain ⟨hsized, hout⟩ := h.connections hs.sized hunspawned
  have hpermits := h.permit
  have hcallers := s.count_set permits pool i query fun q => q.caller.Awaiting
  have htasks := s.count_set permits pool i query fun q => q.task.Connected
  have hall := hs.permits
  have hconnected := hs.connected
  refine ⟨hsized, ?_, ?_⟩
  · show permits + _ = size
    omega
  · show pool.out = _ + s.others.out
    omega

/-- What happens to the callers of `get`, and to the database. -/
theorem Counted.other (hs : s.Counted size) {e : ConnectionPool.Event} {p : ConnectionPool} (hcan : s.others.Can e)
    (hp : s.pool.step e = some p) :
    ({ s with pool := p, others := s.others.next s.pool e } : Queries n T E).Counted size := by
  have hconnected := hs.connected
  have hout : p.out + s.others.out = s.pool.out + (s.others.next s.pool e).out := by
    rw [out_of_step hs.sized.not_always hp]
    cases e with
    | giveBack live =>
      have hpos : 0 < s.others.out := hcan
      simp only [outAfter, Others.next]
      omega
    | checkout =>
      simp only [outAfter, Others.next]
      omega
    | get =>
      simp only [outAfter, Others.next]
      split <;> rfl
    | timeout | establish | close | error | database => rfl
  refine ⟨step_sized hs.sized hp, hs.permits, ?_⟩
  show p.out = s.count _ + (s.others.next s.pool e).out
  omega

/-- The connections of tasks whose caller is gone. -/
def orphaned (s : Queries n T E) : Nat := s.count fun q => q.task.Connected ∧ ¬ q.caller.Awaiting

/-- While a task whose caller awaits it has no connection, one is left beside the free permits, but for those
that others have. -/
theorem Counted.left_over (hs : s.Counted size) (hawaiting : (s.query i).caller.Awaiting)
    (htask : ¬ (s.query i).task.Connected) :
    s.pool.out + s.permits < size + s.orphaned + s.others.out := by
  have hpermits := hs.permits
  have hconnected := hs.connected
  have hcallers : s.count (fun q => q.caller.Awaiting ∧ q.task.Connected) +
      s.count (fun q => q.caller.Awaiting ∧ ¬ q.task.Connected) = s.count fun q => q.caller.Awaiting :=
    Census.count_and_add_count_not fun _ (q : Query T E) => q.task.Connected
  have htasks : s.count (fun q => q.task.Connected ∧ q.caller.Awaiting) + s.orphaned =
      s.count fun q => q.task.Connected :=
    Census.count_and_add_count_not fun _ (q : Query T E) => q.caller.Awaiting
  have hboth : s.count (fun q => q.caller.Awaiting ∧ q.task.Connected) =
      s.count fun q => q.task.Connected ∧ q.caller.Awaiting := Census.count_congr fun _ => and_comm
  have hpos : 0 < s.count fun q => q.caller.Awaiting ∧ ¬ q.task.Connected :=
    Census.count_pos (v := i) ⟨hawaiting, htask⟩
  omega

/-! ### Callers and closures -/

/-- How the caller, the task and the closure of a query go together. -/
inductive Coherent (unavailable : E) : Caller T E → Task T E → Option (Ran T E) → Prop where
  | idle : Coherent unavailable .idle .unspawned none
  | acquiring : Coherent unavailable .acquiring .unspawned none
  | refused : Coherent unavailable (.returned (.error unavailable)) .unspawned none
  | left : Coherent unavailable .dropped .unspawned none
  | underway {caller task} : caller = .awaiting ∨ caller = .dropped → task.Underway →
      Coherent unavailable caller task none
  | timedOut {caller} : caller = .awaiting ∨ caller = .dropped ∨ caller = .returned (.error unavailable) →
      Coherent unavailable caller (.done (some (.error (.error unavailable)))) none
  /-- A check fails only for a caller that is gone. -/
  | cancelled : Coherent unavailable .dropped (.done (some (.error .cancel))) none
  | ran {caller result} : caller = .awaiting ∨ caller = .dropped ∨ caller = outcome result →
      Coherent unavailable caller (.done result) (some result)

section Coherence

variable {caller : Caller T E} {task : Task T E} {closure : Option (Ran T E)}

/-- Before it has a permit, a query has no task. -/
theorem Coherent.unspawned (h : Coherent unavailable caller task closure)
    (hcaller : caller = .idle ∨ caller = .acquiring) : task = .unspawned ∧ closure = none := by
  have houtcome : ∀ result : Ran T E, outcome result ≠ .idle ∧ outcome result ≠ .acquiring := by
    intro result
    unfold outcome
    split <;> exact ⟨nofun, nofun⟩
  cases h with
  | idle | acquiring => exact ⟨rfl, rfl⟩
  | refused | left | cancelled => obtain hcaller | hcaller := hcaller <;> cases hcaller
  | underway h =>
    obtain rfl | rfl := h <;> obtain hcaller | hcaller := hcaller <;> cases hcaller
  | timedOut h =>
    obtain rfl | rfl | rfl := h <;> obtain hcaller | hcaller := hcaller <;> cases hcaller
  | @ran _ result h =>
    obtain rfl | rfl | rfl := h <;> obtain hcaller | hcaller := hcaller
    · cases hcaller
    · cases hcaller
    · cases hcaller
    · cases hcaller
    · exact ((houtcome result).1 hcaller).elim
    · exact ((houtcome result).2 hcaller).elim

theorem Coherent.of_underway (h : Coherent unavailable caller task closure) (htask : task.Underway) :
    closure = none ∧ (caller = .awaiting ∨ caller = .dropped) := by
  cases h with
  | underway hcaller => exact ⟨rfl, hcaller⟩
  | idle | acquiring | refused | left | timedOut | cancelled | ran => exact htask.elim

/-- Who awaits its task, and it is over, or not. -/
theorem Coherent.dropped (h : Coherent unavailable caller task closure) (hcaller : caller = .awaiting) :
    Coherent unavailable .dropped task closure := by
  subst hcaller
  cases h with
  | underway _ htask => exact .underway (Or.inr rfl) htask
  | timedOut => exact .timedOut (Or.inr (Or.inl rfl))
  | ran => exact .ran (Or.inr (Or.inl rfl))

theorem Coherent.resumed {result : Ran T E} (h : Coherent unavailable .awaiting (.done result) closure) :
    Coherent unavailable (outcome result) (.done result) closure := by
  cases h with
  | underway _ htask => exact htask.elim
  | timedOut => exact .timedOut (Or.inr (Or.inr rfl))
  | ran => exact .ran (Or.inr (Or.inr rfl))

end Coherence

theorem Moved.coherent (h : Moved unavailable s i permits pool query)
    (hq : Coherent unavailable (s.query i).caller (s.query i).task (s.query i).closure) :
    Coherent unavailable query.caller query.task query.closure := by
  cases h with
  | refused hcaller =>
    obtain ⟨htask, hclosure⟩ := hq.unspawned (Or.inl hcaller)
    rw [htask, hclosure]
    exact .refused
  | called hcaller =>
    obtain ⟨htask, hclosure⟩ := hq.unspawned (Or.inl hcaller)
    rw [htask, hclosure]
    exact .acquiring
  | acquired hcaller =>
    rw [(hq.unspawned (Or.inr hcaller)).2]
    exact .underway (Or.inl rfl) trivial
  | left hcaller =>
    obtain ⟨htask, hclosure⟩ := hq.unspawned (Or.inr hcaller)
    rw [htask, hclosure]
    exact .left
  | began htask | connected htask | checked htask =>
    obtain ⟨hclosure, hcaller⟩ := hq.of_underway (htask ▸ trivial)
    rw [hclosure]
    exact .underway hcaller trivial
  | cancelled htask hgone | stopped htask hgone =>
    obtain ⟨hclosure, hcaller⟩ := hq.of_underway (htask ▸ trivial)
    rw [hclosure, hcaller.resolve_left fun hawaiting => hgone (hawaiting ▸ trivial)]
    exact .cancelled
  | timedOut htask =>
    obtain ⟨hclosure, hcaller⟩ := hq.of_underway (htask ▸ trivial)
    rw [hclosure]
    exact .timedOut (hcaller.imp_right Or.inl)
  | finished htask =>
    obtain ⟨-, hcaller⟩ := hq.of_underway (htask ▸ trivial)
    exact .ran (hcaller.imp_right Or.inl)
  | resumed hcaller htask =>
    rw [hcaller, htask] at hq
    rw [htask]
    exact hq.resumed
  | dropped hcaller => exact hq.dropped hcaller

/-- What a caller is told, about its closure. -/
def Told (unavailable : E) (query : Query T E) : Prop :=
  match query.caller with
  | .returned (.ok t) => query.closure = some (some (.ok t))
  | .returned (.error e) => query.closure = some (some (.error (.error e))) ∨ query.closure = none ∧ e = unavailable
  | .panicked => query.closure = some none ∨ query.closure = some (some (.error .cancel))
  | .idle | .acquiring | .awaiting | .dropped => True

theorem outcome_told (result : Ran T E) (task : Task T E) :
    Told unavailable ⟨outcome result, task, some result⟩ := by
  unfold outcome
  split
  · rfl
  · exact Or.inl rfl
  · exact Or.inr rfl
  · exact Or.inl rfl

theorem Coherent.told {q : Query T E} (h : Coherent unavailable q.caller q.task q.closure) : Told unavailable q := by
  obtain ⟨caller, task, closure⟩ := q
  cases h with
  | idle | acquiring | left | cancelled => trivial
  | refused => exact Or.inr ⟨rfl, rfl⟩
  | underway hcaller => obtain rfl | rfl := hcaller <;> trivial
  | timedOut hcaller =>
    obtain rfl | rfl | rfl := hcaller
    · trivial
    · trivial
    · exact Or.inr ⟨rfl, rfl⟩
  | @ran _ result hcaller =>
    obtain rfl | rfl | rfl := hcaller
    · trivial
    · trivial
    · exact outcome_told result _

/-- The caller was gone before the second check. -/
structure Gone (q : Query T E) : Prop where
  caller : q.caller = .dropped
  task : q.task ≠ .running
  closure : q.closure = none

theorem Moved.gone (h : Moved unavailable s i permits pool query) (hq : Gone (s.query i)) : Gone query := by
  have hcaller := hq.caller
  cases h with
  | refused h | called h | acquired h | resumed h | left h | dropped h =>
    rw [hcaller] at h
    cases h
  | began htask hawaiting | checked htask hawaiting =>
    rw [hcaller] at hawaiting
    exact hawaiting.elim
  | cancelled | connected | timedOut | stopped => exact ⟨hcaller, nofun, hq.closure⟩
  | finished htask => exact (hq.task htask).elim

structure Inv (unavailable : E) (size : Nat) (s : Queries n T E) : Prop where
  counted : s.Counted size
  coherent : ∀ i, Coherent unavailable (s.query i).caller (s.query i).task (s.query i).closure

theorem start_inv (accepting : Bool) : (start size accepting : Queries n T E).Inv unavailable size := by
  have hnone : ∀ P : Query T E → Prop, [DecidablePred P] → ¬ P ⟨.idle, .unspawned, none⟩ →
      (start size accepting : Queries n T E).count P = 0 := fun P _ hP => Census.count_eq_zero fun _ => hP
  refine ⟨⟨create_sized size accepting, ?_, ?_⟩, fun i => .idle⟩
  · rw [hnone _ id]
    rfl
  · rw [hnone _ id]
    rfl

theorem step_inv {t : Queries n T E} {a : Action n T E} (h : s.Inv unavailable size)
    (hstep : step unavailable s a = some t) : t.Inv unavailable size := by
  obtain ⟨i, permits, pool, query, hmoved, rfl⟩ | ⟨e, p, hcan, hp, rfl⟩ := moved_of_step unavailable hstep
  · refine ⟨h.counted.set hmoved fun hcaller => ((h.coherent i).unspawned (Or.inr hcaller)).1, fun j => ?_⟩
    by_cases hj : j = i
    · subst hj
      simpa [set] using hmoved.coherent (h.coherent j)
    · simpa [set, hj] using h.coherent j
  · exact ⟨h.counted.other hcan hp, h.coherent⟩

theorem step_gone {t : Queries n T E} {a : Action n T E} (hq : Gone (s.query i))
    (hstep : step unavailable s a = some t) : Gone (t.query i) := by
  obtain ⟨j, permits, pool, query, hmoved, rfl⟩ | ⟨e, p, hcan, hp, rfl⟩ := moved_of_step unavailable hstep
  · by_cases hj : i = j
    · subst hj
      simpa [set] using hmoved.gone hq
    · simpa [set, hj] using hq
  · exact hq

/-- Any run of callers of `with_conn`, with the closures and the callers of `get` as they like. No permit and no
connection is lost, whatever becomes of the callers and the closures; a caller is told what its closure has come
to, or that the database is unavailable, and panics only if its closure panicked or says it was cancelled, which
it was not; while a caller with a permit has no connection yet, one is left beside the free permits, but for those
of tasks whose caller is gone and of the callers of `get`; and a closure that was not begun when its caller went
is never run. -/
theorem with_conn_safe (unavailable : E) (size : Nat) (accepting : Bool) (actions : List (Action n T E))
    (s : Queries n T E) (hrun : Machine.exec (step unavailable) (start size accepting) actions = some s) :
    s.permits + s.count (fun q => q.caller.Awaiting) = size ∧
      (s.pool.out = s.count (fun q => q.task.Connected) + s.others.out ∧ s.pool.idle + s.pool.out ≤ size) ∧
      (∀ i, Told unavailable (s.query i)) ∧
      (∀ i, (s.query i).caller.Awaiting → ¬ (s.query i).task.Connected →
        s.pool.out + s.permits < size + s.orphaned + s.others.out) ∧
      ∀ i, (s.query i).caller = .dropped → (s.query i).task ≠ .running → (s.query i).closure = none →
        ∀ later t, Machine.exec (step unavailable) s later = some t → (t.query i).closure = none := by
  have hinv : s.Inv unavailable size := Machine.exec_invariant (fun _ _ _ h hstep => step_inv h hstep)
    (start_inv accepting) hrun
  have hcounted := hinv.counted
  refine ⟨hcounted.permits, ⟨hcounted.connected, hcounted.sized.le⟩, fun i => (hinv.coherent i).told,
    fun i => hcounted.left_over, fun i hcaller htask hclosure later t hlater => ?_⟩
  have hgone : Gone (t.query i) := Machine.exec_invariant (I := fun t : Queries n T E => Gone (t.query i))
    (fun _ _ _ h hstep => step_gone h hstep) ⟨hcaller, htask, hclosure⟩ hlater
  exact hgone.closure

/-- Caller `i` goes before its task begins, `j` gets its permit and the connection, and then a caller of `get`. -/
def overtaken (i j : Fin 2) : List (Action 2 Nat String) :=
  [.pool .establish, .call i, .acquire i, .drop i, .call j, .acquire j, .begin j, .checkout j, .check j true,
    .finish j (some (.ok 7)) true, .resume j, .pool .get, .pool .checkout]

theorem overtaken_not_run :
    ∃ s : Queries 2 Nat String, Machine.exec (step "database unavailable") (start 1 true) (overtaken 0 1) = some s ∧
      (s.query 1).caller = .returned (.ok 7) ∧ Told "database unavailable" (s.query 1) ∧ s.others.out = 1 ∧
      s.permits + s.count (fun q => q.caller.Awaiting) = 1 ∧
      s.pool.out = s.count (fun q => q.task.Connected) + s.others.out ∧
      ∀ later t, Machine.exec (step "database unavailable") s later = some t → (t.query 0).closure = none := by
  have hrun : (Machine.exec (step "database unavailable") (start 1 true) (overtaken 0 1)).map
      (fun s : Queries 2 Nat String => (s.query 0, (s.query 1).caller, s.others.out)) =
      some (⟨.dropped, .scheduled, none⟩, .returned (.ok 7), 1) := by
    decide +kernel
  obtain ⟨s, hs, hend⟩ := Option.map_eq_some_iff.mp hrun
  obtain ⟨hgone, hend⟩ := Prod.mk.inj hend
  obtain ⟨hreturned, hothers⟩ := Prod.mk.inj hend
  obtain ⟨hpermits, ⟨hconnections, -⟩, htold, -, hnever⟩ :=
    with_conn_safe "database unavailable" 1 true (overtaken 0 1) s hs
  refine ⟨s, hs, hreturned, htold 1, hothers, hpermits, hconnections, hnever 0 ?_ ?_ ?_⟩ <;> rw [hgone]
  exact nofun

end Queries

end Server
