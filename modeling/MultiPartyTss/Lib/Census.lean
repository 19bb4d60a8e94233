import Mathlib.Data.Finset.Card
import Mathlib.Data.Fintype.Basic

/-!
# Counting the parties in some state

`count P f` is the number of parties `v` whose state `f v` meets `P v`. One party that changes its state changes
the count by at most one (`count_update`), which is what the invariants of counters and of limited resources
come down to.
-/

namespace Census

variable {ι β : Type*} [Fintype ι] (P : ι → β → Prop) [∀ v b, Decidable (P v b)]

def count (f : ι → β) : Nat := (Finset.univ.filter fun v => P v (f v)).card

variable {P} {f : ι → β}

theorem count_eq_zero (h : ∀ v, ¬ P v (f v)) : count P f = 0 := by
  rw [count, Finset.card_eq_zero, Finset.filter_eq_empty_iff]
  exact fun v _ => h v

theorem count_pos {v : ι} (h : P v (f v)) : 0 < count P f :=
  Finset.card_pos.mpr ⟨v, Finset.mem_filter.mpr ⟨Finset.mem_univ v, h⟩⟩

theorem card_le_count {s : Finset ι} (h : ∀ v ∈ s, P v (f v)) : s.card ≤ count P f :=
  Finset.card_le_card fun v hv => Finset.mem_filter.mpr ⟨Finset.mem_univ v, h v hv⟩

theorem count_congr {Q : ι → β → Prop} [∀ v b, Decidable (Q v b)] (h : ∀ v, P v (f v) ↔ Q v (f v)) :
    count P f = count Q f := by
  rw [count, count, Finset.filter_congr fun v _ => h v]

/-- The parties that meet `P` meet `Q` or they do not. -/
theorem count_and_add_count_not (Q : ι → β → Prop) [∀ v b, Decidable (Q v b)] :
    count (fun v b => P v b ∧ Q v b) f + count (fun v b => P v b ∧ ¬ Q v b) f = count P f := by
  rw [count, count, count, ← Finset.filter_filter, ← Finset.filter_filter]
  exact Finset.card_filter_add_card_filter_not _

variable [DecidableEq ι]

/-- One party changes. -/
theorem count_update (v : ι) (b : β) :
    count P (Function.update f v b) + (if P v (f v) then 1 else 0) = count P f + if P v b then 1 else 0 := by
  have hcard : ∀ g : ι → β, count P g =
      ((Finset.univ.filter fun w => P w (g w)).erase v).card + if P v (g v) then 1 else 0 := by
    intro g
    have hmem : v ∈ (Finset.univ.filter fun w => P w (g w)) ↔ P v (g v) := by simp
    split_ifs with hv
    · exact (Finset.card_erase_add_one (hmem.mpr hv)).symm
    · rw [Finset.erase_eq_of_notMem (mt hmem.mp hv), count, Nat.add_zero]
  have herase : (Finset.univ.filter fun w => P w (Function.update f v b w)).erase v =
      (Finset.univ.filter fun w => P w (f w)).erase v := by
    ext w
    by_cases hw : w = v
    · simp [hw]
    · simp [hw]
  rw [hcard (Function.update f v b), hcard f, herase, Function.update_self]
  omega

end Census
