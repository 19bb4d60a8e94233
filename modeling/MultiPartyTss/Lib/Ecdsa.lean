import Mathlib.Algebra.Module.Basic

/-!
# The ECDSA equation

Over any field of scalars, group of points and coordinate of points. A signature made with a nonce is valid
under the point of the key (`Ecdsa.valid_of_nonce`). If the coordinate does not tell a point from its
negative, then `s` and `-s` are valid together (`Ecdsa.valid_neg`).
-/

namespace Ecdsa

variable {F G : Type*} [Field F] [AddCommGroup G] [Module F G] {xCoord : G → F} {g y : G} {m r s : F}

/-- `(r, s)` is a signature of `m` under the public key `y`. -/
def Valid (xCoord : G → F) (g y : G) (m r s : F) : Prop :=
  s ≠ 0 ∧ xCoord (s⁻¹ • (m • g + r • y)) = r

instance [DecidableEq F] : Decidable (Valid xCoord g y m r s) :=
  inferInstanceAs (Decidable (s ≠ 0 ∧ xCoord (s⁻¹ • (m • g + r • y)) = r))

theorem valid_neg (hx : ∀ P, xCoord (-P) = xCoord P) :
    Valid xCoord g y m r (-s) ↔ Valid xCoord g y m r s := by
  rw [Valid, Valid, neg_ne_zero, inv_neg, neg_smul, hx]

/-- The signature of `m` with the nonce `k` under the key `x`, where `R` is the point of the inverse of `k`. -/
theorem valid_of_nonce {k x : F} {R : G} (hR : R = k⁻¹ • g) (hr : r = xCoord R)
    (hs : s = k * (m + r * x)) (hs0 : s ≠ 0) : Valid xCoord g (x • g) m r s := by
  have hsum : m + r * x ≠ 0 := by
    rintro hsum
    rw [hsum, mul_zero] at hs
    exact hs0 hs
  have hpoint : s⁻¹ • (m • g + r • x • g) = R := by
    rw [smul_smul, ← add_smul, smul_smul, hs, hR, mul_inv, mul_assoc, inv_mul_cancel₀ hsum, mul_one]
  exact ⟨hs0, by rw [hpoint, hr]⟩

end Ecdsa
