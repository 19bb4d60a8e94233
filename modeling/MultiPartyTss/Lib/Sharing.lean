import Mathlib.LinearAlgebra.Lagrange

/-!
# Shamir sharings

A sharing of a secret with threshold `t` is a polynomial of degree at most `t` whose value at `0` is the
secret; a share is its value at another point. Sums of sharings share the sum of the secrets
(`Sharing.sum`), and more than `t` shares give the secret back by interpolation (`Sharing.reconstruct`), which
is a weighted sum of them (`Sharing.sum_weighted`).
-/

open Polynomial

/-- `f` shares `secret` with threshold `t`. -/
structure Sharing {F : Type*} [Field F] (t : Nat) (secret : F) (f : F[X]) : Prop where
  natDegree_le : f.natDegree ≤ t
  eval_zero : f.eval 0 = secret

namespace Sharing

variable {F α ι : Type*} [Field F] {t : Nat}

theorem sum {A : Finset α} {secret : α → F} {f : α → F[X]} (h : ∀ a ∈ A, Sharing t (secret a) (f a)) :
    Sharing t (∑ a ∈ A, secret a) (∑ a ∈ A, f a) := by
  constructor
  · exact natDegree_sum_le_of_forall_le A f fun a ha => (h a ha).natDegree_le
  · rw [eval_finsetSum]
    exact Finset.sum_congr rfl fun a ha => (h a ha).eval_zero

theorem reconstruct [DecidableEq ι] {secret : F} {f : F[X]} (h : Sharing t secret f) {S : Finset ι}
    {v r : ι → F} (hv : Set.InjOn v S) (hcard : t < S.card) (hr : ∀ b ∈ S, f.eval (v b) = r b) :
    (Lagrange.interpolate S v r).eval 0 = secret := by
  have hdegree : f.degree < S.card :=
    calc f.degree ≤ f.natDegree := degree_le_natDegree
      _ ≤ t := Nat.cast_le.mpr h.natDegree_le
      _ < S.card := Nat.cast_lt.mpr hcard
  rw [← Lagrange.eq_interpolate_of_eval_eq r hv hdegree hr, h.eval_zero]

/-- What the share at `i` is weighted with. -/
def coefficient [DecidableEq ι] (S : Finset ι) (v : ι → F) (i : ι) : F :=
  ∏ j ∈ S.erase i, v j * (v j - v i)⁻¹

theorem eval_basis_zero [DecidableEq ι] (S : Finset ι) (v : ι → F) (i : ι) :
    (Lagrange.basis S v i).eval 0 = coefficient S v i := by
  rw [Lagrange.basis, eval_prod, coefficient]
  refine Finset.prod_congr rfl fun j _ => ?_
  rw [Lagrange.basisDivisor, eval_mul, eval_C, eval_sub, eval_X, eval_C, zero_sub, ← neg_sub (v i) (v j),
    inv_neg, mul_neg, mul_neg, mul_comm]

/-- The weighted shares add up to the secret. -/
theorem sum_weighted [DecidableEq ι] {secret : F} {f : F[X]} (h : Sharing t secret f) {S : Finset ι}
    {v : ι → F} (hv : Set.InjOn v S) (hcard : t < S.card) :
    ∑ i ∈ S, coefficient S v i * f.eval (v i) = secret := by
  rw [← h.reconstruct hv hcard fun i _ => rfl, Lagrange.interpolate_apply, eval_finsetSum]
  refine Finset.sum_congr rfl fun i _ => ?_
  rw [eval_mul, eval_C, eval_basis_zero, mul_comm]

/-- A line shares its value at `0`, with threshold 1. -/
theorem line (a b : F) :
    ∃ f : F[X], Sharing 1 b f ∧ ∀ x, f.eval x = a * x + b :=
  ⟨C a * X + C b, ⟨natDegree_linear_le, by simp⟩, fun x => by simp⟩

end Sharing
