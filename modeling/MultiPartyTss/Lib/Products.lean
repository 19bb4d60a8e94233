import Mathlib.Algebra.BigOperators.Ring.Finset
import Mathlib.Algebra.BigOperators.Group.Finset.Sigma

/-!
# Additive shares of products

Parties `A` have secrets `k p` and `b p`, and each ordered pair of parties has shared the product of the one's
`k` with the other's `b`: `alpha p q` is what `p` has of `k p * b q`, and `beta q p` what `q` has of it. What
all parties add up is the product of the sums.
-/

namespace Products

variable {ι R : Type*} [CommRing R] [DecidableEq ι]

/-- What party `p` adds up: its own product and its shares of the products with the others. -/
def localShare (A : Finset ι) (k b : ι → R) (alpha beta : ι → ι → R) (p : ι) : R :=
  k p * b p + ∑ q ∈ A.erase p, alpha p q + ∑ q ∈ A.erase p, beta p q

theorem sum_localShare {A : Finset ι} {k b : ι → R} {alpha beta : ι → ι → R}
    (h : ∀ p ∈ A, ∀ q ∈ A.erase p, alpha p q + beta q p = k p * b q) :
    ∑ p ∈ A, localShare A k b alpha beta p = (∑ p ∈ A, k p) * ∑ p ∈ A, b p := by
  have hswap : ∑ p ∈ A, ∑ q ∈ A.erase p, beta p q = ∑ p ∈ A, ∑ q ∈ A.erase p, beta q p := by
    apply Finset.sum_comm'
    intro p q
    rw [Finset.mem_erase, Finset.mem_erase]
    constructor
    · rintro ⟨hp, hne, hq⟩
      exact ⟨⟨hne.symm, hp⟩, hq⟩
    · rintro ⟨⟨hne, hp⟩, hq⟩
      exact ⟨hp, hne.symm, hq⟩
  calc ∑ p ∈ A, localShare A k b alpha beta p
      = ∑ p ∈ A, (k p * b p + ∑ q ∈ A.erase p, (alpha p q + beta q p)) := by
        simp only [localShare, Finset.sum_add_distrib, hswap, add_assoc]
    _ = ∑ p ∈ A, (k p * b p + ∑ q ∈ A.erase p, k p * b q) := by
        apply Finset.sum_congr rfl
        intro p hp
        rw [Finset.sum_congr rfl (h p hp)]
    _ = ∑ p ∈ A, ∑ q ∈ A, k p * b q := by
        apply Finset.sum_congr rfl
        intro p hp
        exact Finset.add_sum_erase A (fun q => k p * b q) hp
    _ = (∑ p ∈ A, k p) * ∑ p ∈ A, b p := (Finset.sum_mul_sum A A k b).symm

end Products
