import Mathlib.Data.List.Basic

/-!
# A readers-writer lock and a notifier

The two blocking primitives of an asynchronous room, as values. The lock is either written by one holder
or read by a list of them, so a state with both cannot be written down. The notifier counts the calls of
`notify_waiters`; a `Notified` future is the count at its creation, and it has completed once the count
has passed it. So a call completes every future created before it, and leaves nothing for later ones.
-/

namespace Sync

/-! ### The lock -/

inductive RwLock where
  | reading (readers : List Nat)
  | writing (writer : Nat)
  deriving DecidableEq, Repr

namespace RwLock

def free : RwLock := .reading []

/-- `read().await` by `r`, when it is granted. -/
def acquireRead (r : Nat) : RwLock → Option RwLock
  | .reading readers => some (.reading (r :: readers))
  | .writing _ => none

/-- Dropping the read guard of `r`. -/
def releaseRead (r : Nat) : RwLock → RwLock
  | .reading readers => .reading (readers.erase r)
  | .writing w => .writing w

/-- `write().await` by `w`, when it is granted. -/
def acquireWrite (w : Nat) : RwLock → Option RwLock
  | .reading [] => some (.writing w)
  | _ => none

/-- Dropping the write guard. -/
def releaseWrite : RwLock → RwLock
  | .writing _ => free
  | .reading readers => .reading readers

/-- `r` holds a read guard. -/
def HasReader (lock : RwLock) (r : Nat) : Prop := ∃ readers, lock = .reading readers ∧ r ∈ readers

theorem acquireRead_some {lock lock' : RwLock} {r : Nat} (h : lock.acquireRead r = some lock') :
    lock'.HasReader r ∧ (∀ r', lock.HasReader r' → lock'.HasReader r') ∧
      (∀ w, lock ≠ .writing w) ∧ ∀ w, lock' ≠ .writing w := by
  cases lock with
  | reading readers =>
    cases h
    refine ⟨⟨_, rfl, List.mem_cons_self⟩, ?_, by simp, by simp⟩
    rintro r' ⟨_, ⟨⟩, hr'⟩
    exact ⟨_, rfl, List.mem_cons_of_mem r hr'⟩
  | writing w => cases h

theorem acquireWrite_some {lock lock' : RwLock} {w : Nat} (h : lock.acquireWrite w = some lock') :
    lock = free ∧ lock' = .writing w := by
  cases lock with
  | reading readers =>
    cases readers with
    | nil =>
      cases h
      exact ⟨rfl, rfl⟩
    | cons r readers => cases h
  | writing w' => cases h

theorem not_hasReader_free (r : Nat) : ¬ free.HasReader r := by
  rintro ⟨_, ⟨⟩, hr⟩
  cases hr

theorem not_hasReader_writing (w r : Nat) : ¬ (writing w).HasReader r := by
  rintro ⟨_, ⟨⟩, _⟩

theorem HasReader.release {lock : RwLock} {r r' : Nat} (h : lock.HasReader r') (hne : r' ≠ r) :
    (lock.releaseRead r).HasReader r' := by
  obtain ⟨readers, rfl, hr'⟩ := h
  exact ⟨readers.erase r, rfl, (List.mem_erase_of_ne hne).mpr hr'⟩

theorem releaseRead_writing {lock : RwLock} {r w : Nat} :
    lock.releaseRead r = .writing w ↔ lock = .writing w := by
  cases lock <;> simp [releaseRead]

end RwLock

/-! ### The notifier -/

/-- A notifier that was asked `calls` times to notify its waiters. -/
structure Notify where
  calls : Nat
  deriving DecidableEq, Repr

/-- A `Notified` future: the number of calls before it was created. -/
abbrev Ticket := Nat

namespace Notify

def new : Notify := ⟨0⟩

def notified (n : Notify) : Ticket := n.calls

def notifyWaiters (n : Notify) : Notify := ⟨n.calls + 1⟩

/-- The future has completed: it was created before some call. -/
def Fired (n : Notify) (t : Ticket) : Prop := t < n.calls

instance (n : Notify) (t : Ticket) : Decidable (n.Fired t) := inferInstanceAs (Decidable (t < n.calls))

/-- The future was created by this notifier. -/
def Created (n : Notify) (t : Ticket) : Prop := t ≤ n.calls

theorem created_notified (n : Notify) : n.Created n.notified := Nat.le_refl _

theorem Created.notifyWaiters {n : Notify} {t : Ticket} (h : n.Created t) :
    n.notifyWaiters.Created t := Nat.le_succ_of_le h

/-- `notify_waiters` completes every future created before it. -/
theorem Created.fired {n : Notify} {t : Ticket} (h : n.Created t) : n.notifyWaiters.Fired t :=
  Nat.lt_succ_of_le h

end Notify

end Sync
