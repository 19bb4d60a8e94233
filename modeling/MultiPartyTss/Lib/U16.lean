import Mathlib.Tactic.Common

/-!
# Sixteen-bit counters

`u16` values as naturals below `U16.size`. Atomic counters wrap in every build; plain addition panics
in a build with overflow checks and wraps in one without.
-/

namespace U16

/-- The number of `u16` values. -/
def size : Nat := 65536

/-- Whether the build checks plain arithmetic for overflow. -/
inductive Build where
  | debug
  | release
  deriving DecidableEq, Repr

/-- The value `AtomicU16::fetch_add(1)` leaves. -/
def fetchAdd (x : Nat) : Nat := (x + 1) % size

/-- The value `AtomicU16::fetch_sub(1)` leaves. -/
def fetchSub (x : Nat) : Nat := if x = 0 then size - 1 else x - 1

/-- `x + 1` on `u16`; `none` is the overflow panic. -/
def addOne (build : Build) (x : Nat) : Option Nat :=
  if x + 1 < size then some (x + 1)
  else match build with
    | .debug => none
    | .release => some 0

/-- `x + y` on `u16`; `none` is the overflow panic. -/
def add (build : Build) (x y : Nat) : Option Nat :=
  if x + y < size then some (x + y)
  else match build with
    | .debug => none
    | .release => some ((x + y) % size)

/-- `x - 1` on `u16`; `none` is the underflow panic. -/
def subOne (build : Build) (x : Nat) : Option Nat :=
  if x = 0 then
    match build with
    | .debug => none
    | .release => some (size - 1)
  else some (x - 1)

theorem fetchAdd_of_lt {x : Nat} (h : x + 1 < size) : fetchAdd x = x + 1 := Nat.mod_eq_of_lt h

theorem fetchSub_of_pos {x : Nat} (hpos : 0 < x) : fetchSub x = x - 1 := if_neg (by omega)

theorem addOne_of_lt {build : Build} {x : Nat} (h : x + 1 < size) : addOne build x = some (x + 1) :=
  if_pos h

theorem subOne_of_pos {build : Build} {x : Nat} (h : 1 ≤ x) : subOne build x = some (x - 1) :=
  if_neg (by omega)

theorem add_cases {build : Build} {x y z : Nat} (h : add build x y = some z) :
    z = x + y ∨ (z = (x + y) % size ∧ size ≤ x + y) := by
  unfold add at h
  split_ifs at h with hlt
  · exact Or.inl (Option.some.inj h).symm
  · cases build with
    | debug => exact (Option.some_ne_none z h.symm).elim
    | release => exact Or.inr ⟨(Option.some.inj h).symm, Nat.not_lt.mp hlt⟩

theorem addOne_cases {build : Build} {x y : Nat} (h : addOne build x = some y) :
    (y = x + 1 ∧ x + 1 < size) ∨ (y = 0 ∧ size ≤ x + 1) := by
  unfold addOne at h
  split at h
  · rename_i hlt
    cases h
    exact Or.inl ⟨rfl, hlt⟩
  · rename_i hlt
    cases build with
    | debug => cases h
    | release =>
      cases h
      exact Or.inr ⟨rfl, Nat.not_lt.mp hlt⟩

end U16
