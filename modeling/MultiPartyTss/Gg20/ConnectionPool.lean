import Mathlib.Data.List.Infix
import MultiPartyTss.Lib.Run

/-!
# The availability flag of the connection pool

`ConnectionPool::get` fails at once while the flag of its `PoolStateTracker` is down, and otherwise asks the
`r2d2` pool for a connection. Callbacks of `r2d2` set the flag (a connection is handed out, or a new one is
established) and clear it (a caller times out, or a connection error is reported); the return of a
connection does neither. So after a timeout on a busy pool a returned connection is of no use: `get` does
not reach the pool, where handing it out would set the flag. A caller waits from `get_ready` on, whether it has
reached `r2d2` yet or not. `served_iff_inStep` says for which runs `get` serves whenever it could, and
`unavailable_until_established` that the flag stays down in between.
-/

namespace Gg20

inductive StoreError where
  | databaseUnavailable
  deriving DecidableEq, Repr

inductive PoolState where
  | created
  | ready
  deriving DecidableEq, Repr

/-- A pool with its flag, its connections, and the database behind it. `idle` and `out` count established
connections, in the pool and with callers, `waiting` the callers that `get_ready` has let in and that have not
got a connection or an error yet. -/
structure ConnectionPool where
  inner : PoolState
  available : Bool
  try_always : Bool
  pool_size : Nat
  idle : Nat
  out : Nat
  waiting : Nat
  accepting : Bool
  deriving DecidableEq, Repr

namespace ConnectionPool

/-- `ConnectionPool::create`; `build_unchecked` establishes no connection itself. -/
def create (pool_size : Nat) (accepting : Bool) : ConnectionPool where
  inner := .created
  available := true
  try_always := false
  pool_size := pool_size
  idle := 0
  out := 0
  waiting := 0
  accepting := accepting

def markAvailable (p : ConnectionPool) : ConnectionPool := { p with available := true }

def markUnavailable (p : ConnectionPool) : ConnectionPool := { p with available := false }

def getReady (p : ConnectionPool) : Except StoreError ConnectionPool :=
  if !p.available && !p.try_always then .error .databaseUnavailable
  else
    match p.inner with
    | .created => .ok { p.markAvailable with inner := .ready }
    | .ready => .ok p

/-! ### Callbacks -/

def briefErrorMsg (error : String) : String := (error.splitOn "\n").headD "no error details provided"

def contains (msg pattern : String) : Bool := decide (pattern.toList <:+: msg.toList)

/-- The error messages that say nothing about the database. -/
def exempt (msg : String) : Bool :=
  contains msg "canceling statement" || contains msg "no connection to the server" ||
    contains msg "terminating connection due to conflict with recovery"

def handleError (p : ConnectionPool) (error : String) : ConnectionPool :=
  if exempt (briefErrorMsg error) then p else p.markUnavailable

def handleAcquire (p : ConnectionPool) : ConnectionPool := p.markAvailable

def handleCheckout (p : ConnectionPool) : ConnectionPool := p.markAvailable

def handleTimeout (p : ConnectionPool) : ConnectionPool := p.markUnavailable

/-! ### Runs -/

/-- `r2d2` hands an idle connection out. -/
def take (p : ConnectionPool) : ConnectionPool :=
  { p.handleCheckout with idle := p.idle - 1, out := p.out + 1 }

/-- `ConnectionPool::get` for a caller that nobody overtakes; `none` is a wait inside `r2d2`. -/
def get (p : ConnectionPool) : Option (Except StoreError ConnectionPool) :=
  match p.getReady with
  | .error e => some (.error e)
  | .ok p => if 0 < p.idle then some (.ok p.take) else none

inductive Event where
  /-- A caller calls `get_ready`. -/
  | get
  /-- A waiting caller gets an idle connection. -/
  | checkout
  /-- A waiting caller times out. -/
  | timeout
  /-- A caller returns its connection, which the database may have closed. -/
  | giveBack (live : Bool)
  /-- A new connection is established. -/
  | establish
  /-- An idle connection is closed. -/
  | close
  /-- `r2d2` reports an error. -/
  | error (text : String)
  /-- The database begins or ceases to accept connections. -/
  | database (accepting : Bool)
  deriving DecidableEq, Repr

def step (p : ConnectionPool) : Event → Option ConnectionPool
  | .get =>
    match p.getReady with
    | .error _ => some p
    | .ok p => some { p with waiting := p.waiting + 1 }
  | .checkout =>
    if 0 < p.waiting ∧ 0 < p.idle then some { p.take with waiting := p.waiting - 1 } else none
  | .timeout =>
    if 0 < p.waiting then some { p.handleTimeout with waiting := p.waiting - 1 } else none
  | .giveBack live =>
    if 0 < p.out then some { p with out := p.out - 1, idle := if live then p.idle + 1 else p.idle } else none
  | .establish =>
    if p.accepting ∧ p.idle + p.out < p.pool_size then some { p.handleAcquire with idle := p.idle + 1 }
    else none
  | .close => if 0 < p.idle then some { p with idle := p.idle - 1 } else none
  | .error text => some (p.handleError text)
  | .database accepting => some { p with accepting := accepting }

/-- Where the database accepts connections and one is idle, `get` does not fail. -/
def Served (p : ConnectionPool) : Prop :=
  p.accepting = true → 0 < p.idle → p.get ≠ some (.error .databaseUnavailable)

/-- The flag is not cleared beside an idle connection, and none comes back, nor the database, while the
flag is down. -/
def InStep (p : ConnectionPool) : Event → Prop
  | .timeout => p.accepting = false ∨ p.idle = 0
  | .error text => exempt (briefErrorMsg text) = true ∨ p.accepting = false ∨ p.idle = 0
  | .giveBack live => live = true → p.available = true ∨ p.accepting = false
  | .database accepting => accepting = true → p.available = true ∨ p.idle = 0
  | _ => True

/-! ### What `get` and a step do -/

theorem getReady_error_iff (p : ConnectionPool) :
    p.getReady = .error .databaseUnavailable ↔ p.available = false ∧ p.try_always = false := by
  unfold getReady
  cases p.available <;> cases p.try_always <;> cases p.inner <;> simp

theorem get_error_iff (p : ConnectionPool) :
    p.get = some (.error .databaseUnavailable) ↔ p.available = false ∧ p.try_always = false := by
  rw [← getReady_error_iff]
  unfold get
  cases hready : p.getReady with
  | error e => simp
  | ok q => by_cases hidle : 0 < q.idle <;> simp [hidle]

/-- The outcomes of a step of a pool that does not always try. -/
inductive Stepped (p : ConnectionPool) : Event → ConnectionPool → Prop where
  | refused : p.available = false → Stepped p .get p
  | entered (inner) : p.available = true → Stepped p .get { p with inner, waiting := p.waiting + 1 }
  | checkout : 0 < p.waiting → 0 < p.idle →
      Stepped p .checkout { p with available := true, idle := p.idle - 1, out := p.out + 1, waiting := p.waiting - 1 }
  | timeout : 0 < p.waiting → Stepped p .timeout { p with available := false, waiting := p.waiting - 1 }
  | giveBack : 0 < p.out → Stepped p (.giveBack true) { p with out := p.out - 1, idle := p.idle + 1 }
  | giveBackDead : 0 < p.out → Stepped p (.giveBack false) { p with out := p.out - 1 }
  | establish : p.accepting = true → Stepped p .establish { p with available := true, idle := p.idle + 1 }
  | close : Stepped p .close { p with idle := p.idle - 1 }
  | exempted {text} : exempt (briefErrorMsg text) = true → Stepped p (.error text) p
  | counted {text} : exempt (briefErrorMsg text) = false → Stepped p (.error text) { p with available := false }
  | database (accepting) : Stepped p (.database accepting) { p with accepting }

theorem stepped_of_step {p q : ConnectionPool} {e : Event} (halways : p.try_always = false)
    (h : step p e = some q) : Stepped p e q := by
  cases e with
  | get =>
    obtain ⟨inner, available, try_always, pool_size, idle, out, waiting, accepting⟩ := p
    subst halways
    cases available with
    | false =>
      cases h
      exact .refused rfl
    | true =>
      cases inner <;> cases h <;> exact .entered .ready rfl
  | checkout =>
    simp only [step] at h
    split_ifs at h with hc
    cases h
    exact .checkout hc.1 hc.2
  | timeout =>
    simp only [step] at h
    split_ifs at h with hc
    cases h
    exact .timeout hc
  | giveBack live =>
    by_cases hc : 0 < p.out
    · simp only [step, if_pos hc] at h
      cases h
      cases live with
      | true => exact .giveBack hc
      | false => exact .giveBackDead hc
    · simp [step, hc] at h
  | establish =>
    simp only [step] at h
    split_ifs at h with hc
    cases h
    exact .establish hc.1
  | close =>
    simp only [step] at h
    split_ifs at h with hc
    cases h
    exact .close
  | error text =>
    cases h
    unfold handleError
    split_ifs with hexempt
    · exact .exempted hexempt
    · exact .counted (by simpa using hexempt)
  | database accepting =>
    cases h
    exact .database accepting

/-! ### Which runs are served -/

/-- `Served`, for the flag. -/
structure Flagged (p : ConnectionPool) : Prop where
  not_always : p.try_always = false
  flag : p.accepting = true → 0 < p.idle → p.available = true

theorem served_iff {p : ConnectionPool} (halways : p.try_always = false) : p.Served ↔ p.Flagged := by
  constructor
  · intro hserved
    refine ⟨halways, fun haccepting hidle => ?_⟩
    by_contra hdown
    exact hserved haccepting hidle ((get_error_iff p).mpr ⟨by simpa using hdown, halways⟩)
  · intro hflagged haccepting hidle herror
    have hdown := ((get_error_iff p).mp herror).1
    rw [hflagged.flag haccepting hidle] at hdown
    cases hdown

/-- A flag that may be down keeps `Flagged` where nothing is idle or the database is away. -/
theorem flagged_of_idle {p : ConnectionPool} (halways : p.try_always = false)
    (h : p.accepting = false ∨ p.idle = 0) : p.Flagged := by
  refine ⟨halways, fun haccepting hidle => ?_⟩
  rcases h with h | h
  · simp [h] at haccepting
  · omega

theorem step_flagged {p q : ConnectionPool} {e : Event} (hp : p.Flagged) (he : p.InStep e)
    (h : step p e = some q) : q.Flagged := by
  have halways := hp.not_always
  cases stepped_of_step halways h with
  | refused | exempted => exact hp
  | entered inner havailable => exact ⟨halways, fun _ _ => havailable⟩
  | checkout | establish => exact ⟨halways, fun _ _ => rfl⟩
  | timeout => exact flagged_of_idle halways he
  | counted hcounted => exact flagged_of_idle halways (he.resolve_left (by simp [hcounted]))
  | giveBack =>
    refine ⟨halways, fun haccepting _ => (he rfl).resolve_right ?_⟩
    rw [show p.accepting = true from haccepting]
    decide
  | giveBackDead => exact ⟨halways, hp.flag⟩
  | close => exact ⟨halways, fun haccepting hidle => hp.flag haccepting (Nat.lt_of_lt_of_le hidle (Nat.sub_le _ _))⟩
  | database accepting =>
    exact ⟨halways, fun haccepting hidle => (he haccepting).resolve_right (Nat.ne_of_gt hidle)⟩

theorem step_not_flagged {p q : ConnectionPool} {e : Event} (hp : p.Flagged) (he : ¬ p.InStep e)
    (h : step p e = some q) : ¬ q.Flagged := by
  intro hq
  have hflag := hq.flag
  cases stepped_of_step hp.not_always h with
  | refused | entered | checkout | establish | close => exact he trivial
  | exempted hexempt => exact he (Or.inl hexempt)
  | giveBackDead => simp [InStep] at he
  | timeout =>
    simp only [InStep, not_or] at he
    have hdown := hflag (by simpa using he.1) (Nat.pos_of_ne_zero he.2)
    cases hdown
  | counted =>
    simp only [InStep, not_or] at he
    have hdown := hflag (by simpa using he.2.1) (Nat.pos_of_ne_zero he.2.2)
    cases hdown
  | giveBack =>
    simp only [InStep, not_or, forall_const] at he
    exact he.1 (hflag (by simpa using he.2) (Nat.succ_pos _))
  | database accepting =>
    simp only [InStep, not_or, Classical.not_imp] at he
    exact he.2.1 (hflag he.1 (Nat.pos_of_ne_zero he.2.2))

theorem create_flagged (pool_size : Nat) (accepting : Bool) : (create pool_size accepting).Flagged :=
  ⟨rfl, fun _ _ => rfl⟩

theorem step_not_always {p q : ConnectionPool} {e : Event} (halways : p.try_always = false)
    (h : step p e = some q) : q.try_always = false := by
  cases stepped_of_step halways h <;> exact halways

/-- In a run from `create`, `get` serves in every state in which a connection is idle and the database
accepts connections, exactly when every step is in step with the flag. -/
theorem served_iff_inStep (pool_size : Nat) (accepting : Bool) {events : List Event} {p : ConnectionPool}
    (hrun : Machine.exec step (create pool_size accepting) events = some p) :
    Machine.Always step Served (create pool_size accepting) events ↔
      Machine.Guarded step InStep (create pool_size accepting) events := by
  refine Machine.guarded_iff_always (fun s e t hs he ht => step_flagged hs he ht)
    (fun s hs => (served_iff hs.not_always).mpr hs) (fun s e t hs he ht hserved => ?_)
    (create_flagged pool_size accepting) hrun
  exact step_not_flagged hs he ht ((served_iff (step_not_always hs.not_always ht)).mp hserved)

instance (p : ConnectionPool) : ∀ e : Event, Decidable (p.InStep e)
  | .timeout => inferInstanceAs (Decidable (_ ∨ _))
  | .error _ => inferInstanceAs (Decidable (_ ∨ _ ∨ _))
  | .giveBack _ => inferInstanceAs (Decidable (_ → _ ∨ _))
  | .database _ => inferInstanceAs (Decidable (_ → _ ∨ _))
  | .get | .checkout | .establish | .close => isTrue trivial

/-- A caller takes the only connection, the next one times out, and the connection comes back. -/
def busyPool : List Event := [.establish, .get, .checkout, .get, .timeout, .giveBack true]

/-- The connection is idle and the database is there, but `get` fails. -/
theorem busyPool_unserved :
    ∃ p, Machine.exec step (create 1 true) busyPool = some p ∧
      p.accepting = true ∧ p.idle = 1 ∧ p.get = some (.error .databaseUnavailable) :=
  ⟨_, rfl, rfl, rfl, rfl⟩

/-- With a second connection there is no timeout, and both callers are served. -/
theorem widePool_served : Machine.Always step Served (create 2 true)
    [.establish, .establish, .get, .checkout, .get, .checkout, .giveBack true] :=
  (served_iff_inStep 2 true rfl).mpr (by decide)

/-! ### How long the flag stays down -/

/-- The flag is down, and no caller is left past `get_ready` whose success would set it. -/
structure Down (p : ConnectionPool) : Prop where
  not_always : p.try_always = false
  unavailable : p.available = false
  nobody : p.waiting = 0

theorem step_down {p q : ConnectionPool} {e : Event} (hp : p.Down) (he : e ≠ .establish)
    (h : step p e = some q) : q.Down := by
  have hdown := hp.unavailable
  have hnobody := hp.nobody
  cases stepped_of_step hp.not_always h with
  | refused | exempted => exact hp
  | entered inner havailable => simp [hdown] at havailable
  | checkout hwaiting | timeout hwaiting => omega
  | establish => exact (he rfl).elim
  | giveBack | giveBackDead | close | counted | database =>
    constructor <;> first | exact hp.not_always | exact hnobody | exact hdown | rfl

/-- Whatever is returned, `get` fails until a new connection is established. -/
theorem unavailable_until_established {p q : ConnectionPool} {events : List Event} (hp : p.Down)
    (hnone : .establish ∉ events) (hrun : Machine.exec step p events = some q) :
    q.get = some (.error .databaseUnavailable) := by
  have htrue : Machine.Guarded step (fun _ _ => True) p events := Machine.guarded_true p events
  have hguard := htrue.and_mem (Q := fun e => e ≠ .establish) fun e he heq => hnone (heq ▸ he)
  have hq : q.Down := (Machine.always_of_guarded (fun s e t hs he ht => step_down hs he.2 ht) hp hguard).last hrun
  exact (get_error_iff q).mpr ⟨hq.unavailable, hq.not_always⟩

/-- The busy pool when its connection has come back. -/
def refusing : ConnectionPool := ⟨.ready, false, false, 1, 1, 0, 0, true⟩

/-- A caller is refused, the connection is closed, and the database restarts. -/
def restart : List Event := [.get, .database false, .close, .database true]

theorem busyPool_unavailable :
    Machine.exec step (create 1 true) busyPool = some refusing ∧
      ∃ q, Machine.exec step refusing restart = some q ∧ q.get = some (.error .databaseUnavailable) := by
  have hdown : refusing.Down := ⟨rfl, rfl, rfl⟩
  have hnone : Event.establish ∉ restart := by decide
  exact ⟨rfl, _, rfl, unavailable_until_established hdown hnone rfl⟩

/-! ### How many connections there are -/

/-- A pool of at most `size` connections. -/
structure Sized (size : Nat) (p : ConnectionPool) : Prop where
  not_always : p.try_always = false
  pool_size : p.pool_size = size
  le : p.idle + p.out ≤ size

theorem create_sized (size : Nat) (accepting : Bool) : Sized size (.create size accepting) :=
  ⟨rfl, rfl, Nat.zero_le _⟩

/-- The connections with callers after an event. -/
def outAfter (p : ConnectionPool) : Event → Nat
  | .checkout => p.out + 1
  | .giveBack _ => p.out - 1
  | _ => p.out

theorem out_of_step {p q : ConnectionPool} {e : Event} (halways : p.try_always = false)
    (h : step p e = some q) : q.out = outAfter p e := by
  cases stepped_of_step halways h <;> rfl

theorem out_pos_of_giveBack {p q : ConnectionPool} {live : Bool} (h : step p (.giveBack live) = some q) :
    0 < p.out := by
  by_contra hnone
  simp only [step, if_neg hnone, reduceCtorEq] at h

theorem step_sized {size : Nat} {p q : ConnectionPool} {e : Event} (hp : Sized size p)
    (h : step p e = some q) : Sized size q := by
  have hsize := hp.pool_size
  have hle := hp.le
  have hstepped := stepped_of_step hp.not_always h
  have hestablish : e = .establish → p.idle + p.out < size := by
    rintro rfl
    simp only [step] at h
    split_ifs at h with hc
    exact hsize ▸ hc.2
  refine ⟨step_not_always hp.not_always h, ?_, ?_⟩
  · cases hstepped <;> exact hsize
  · cases hstepped with
    | refused | exempted | entered | timeout | counted | database => exact hle
    | checkout | giveBack =>
      simp only
      omega
    | giveBackDead | close =>
      simp only
      omega
    | establish =>
      have hlt := hestablish rfl
      simp only
      omega

/-- Getting the pool ready touches no connection. -/
theorem getReady_ok {p q : ConnectionPool} (h : p.getReady = .ok q) :
    ∃ inner available, q = { p with inner, available } := by
  unfold getReady at h
  split_ifs at h
  split at h <;> cases h
  · exact ⟨_, _, rfl⟩
  · exact ⟨_, _, rfl⟩

end ConnectionPool

end Gg20
