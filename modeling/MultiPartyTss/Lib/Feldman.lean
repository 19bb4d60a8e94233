import MultiPartyTss.Lib.Sharing

/-!
# Commitments to a sharing

A dealer commits to the coefficients of its polynomial by multiples of a point. Whoever holds a share checks
it against the value of the commitments at its own number (`commitmentAt`); the first commitment is that of
the secret. Nothing is assumed about where the commitments come from: if there are at most `t + 1` of them,
their values at more than `t` points, weighted as shares are, add up to the first (`sum_weighted_commitments`).
-/

variable {F G ι : Type*} [Field F] [AddCommGroup G] [Module F G]

/-- The value at `x`, from the commitments to the coefficients. -/
def commitmentAt (x : F) : List G → G
  | [] => 0
  | c :: commitments => c + x • commitmentAt x commitments

namespace Sharing

variable [DecidableEq ι] {t : Nat} {S : Finset ι} {v : ι → F}

open Polynomial

/-- The weights of the powers. -/
theorem sum_weighted_pow (hv : Set.InjOn v S) (hcard : t < S.card) {m : Nat} (hm : m ≤ t) :
    ∑ i ∈ S, coefficient S v i * v i ^ m = 0 ^ m := by
  have hsharing : Sharing t ((X ^ m : F[X]).eval 0) (X ^ m : F[X]) := ⟨(natDegree_X_pow_le m).trans hm, rfl⟩
  have hsum := hsharing.sum_weighted hv hcard
  simpa only [eval_pow, eval_X] using hsum

theorem sum_weighted_pow_smul (hv : Set.InjOn v S) (hcard : t < S.card) (commitments : List G) {m : Nat}
    (hlength : m + commitments.length ≤ t + 1) :
    ∑ i ∈ S, (coefficient S v i * v i ^ m) • commitmentAt (v i) commitments =
      (0 ^ m : F) • commitments.headD 0 := by
  induction commitments generalizing m with
  | nil => simp [commitmentAt]
  | cons c commitments ih =>
    rw [List.length_cons] at hlength
    have hrest := ih (m := m + 1) (by omega)
    rw [pow_succ, mul_zero, zero_smul] at hrest
    calc ∑ i ∈ S, (coefficient S v i * v i ^ m) • commitmentAt (v i) (c :: commitments)
        = ∑ i ∈ S, ((coefficient S v i * v i ^ m) • c +
            (coefficient S v i * v i ^ (m + 1)) • commitmentAt (v i) commitments) := by
          refine Finset.sum_congr rfl fun i _ => ?_
          rw [commitmentAt, smul_add, smul_smul, pow_succ, mul_assoc]
      _ = (∑ i ∈ S, coefficient S v i * v i ^ m) • c := by
          rw [Finset.sum_add_distrib, hrest, add_zero, Finset.sum_smul]
      _ = (0 ^ m : F) • (c :: commitments).headD 0 := by
          rw [sum_weighted_pow hv hcard (by omega)]
          rfl

/-- The weighted values add up to the commitment of the secret. -/
theorem sum_weighted_commitments (hv : Set.InjOn v S) (hcard : t < S.card) {commitments : List G}
    (hlength : commitments.length ≤ t + 1) :
    ∑ i ∈ S, coefficient S v i • commitmentAt (v i) commitments = commitments.headD 0 := by
  have hsum := sum_weighted_pow_smul hv hcard commitments (m := 0) (by omega)
  simpa only [pow_zero, mul_one, one_smul] using hsum

/-- The same for several dealers. -/
theorem sum_weighted_dealers (hv : Set.InjOn v S) (hcard : t < S.card) {dealers : List (List G)}
    (hlength : ∀ commitments ∈ dealers, commitments.length ≤ t + 1) :
    ∑ i ∈ S, coefficient S v i • (dealers.map (commitmentAt (v i))).sum =
      (dealers.map fun commitments => commitments.headD 0).sum := by
  induction dealers with
  | nil => simp
  | cons commitments dealers ih =>
    simp only [List.map_cons, List.sum_cons, smul_add, Finset.sum_add_distrib]
    rw [sum_weighted_commitments hv hcard (hlength commitments List.mem_cons_self),
      ih fun other hother => hlength other (List.mem_cons_of_mem _ hother)]

end Sharing
