import Mathlib.Data.List.TakeWhile
import Mathlib.Data.Nat.Digits.Lemmas

/-!
# Big-endian bytes

The number a string of bytes stands for, most significant byte first, and how long the shortest string for
a number is: a minimal string fits into `k` bytes exactly when its number is below `256 ^ k`.
-/

namespace Bytes

/-- The number with these bytes, most significant first. -/
def bigEndian (bytes : List UInt8) : Nat := Nat.ofDigits 256 (bytes.reverse.map UInt8.toNat)

/-- No leading zero, except that the one byte zero may stand for zero. -/
def Minimal (bytes : List UInt8) : Prop := bytes.head? = some 0 → bytes.length = 1

/-- The minimal bytes of a number. -/
def ofNat (n : Nat) : List UInt8 := ((Nat.digits 256 n).map UInt8.ofNat).reverse

theorem bigEndian_replicate_append (k : Nat) (bytes : List UInt8) :
    bigEndian (List.replicate k 0 ++ bytes) = bigEndian bytes := by
  simp [bigEndian, Nat.ofDigits_append_replicate_zero]

theorem bigEndian_append (xs ys : List UInt8) :
    bigEndian (xs ++ ys) = bigEndian xs * 256 ^ ys.length + bigEndian ys := by
  simp [bigEndian, Nat.ofDigits_append, Nat.add_comm, Nat.mul_comm]

theorem bigEndian_singleton (b : UInt8) : bigEndian [b] = b.toNat := by
  simp [bigEndian]

theorem bigEndian_cons (b : UInt8) (bytes : List UInt8) :
    bigEndian (b :: bytes) = b.toNat * 256 ^ bytes.length + bigEndian bytes := by
  rw [← List.singleton_append, bigEndian_append, bigEndian_singleton]

theorem bigEndian_dropWhile (bytes : List UInt8) :
    bigEndian (bytes.dropWhile fun b => b == 0) = bigEndian bytes := by
  have hzeros : bytes.takeWhile (fun b => b == 0)
      = List.replicate (bytes.takeWhile fun b => b == 0).length 0 := by
    rw [List.eq_replicate_iff]
    refine ⟨rfl, fun b hb => ?_⟩
    simpa using List.mem_takeWhile_imp hb
  conv_rhs => rw [← List.takeWhile_append_dropWhile (p := fun b => b == 0) (l := bytes), hzeros]
  rw [bigEndian_replicate_append]

theorem minimal_dropWhile (bytes : List UInt8) : Minimal (bytes.dropWhile fun b => b == 0) := by
  intro h
  have hhead := List.head?_dropWhile_not (fun b : UInt8 => b == 0) bytes
  simp [h] at hhead

/-- The digits of a number without leading zeros. -/
theorem digits_bigEndian {bytes : List UInt8} (h : bytes.head? ≠ some 0) :
    Nat.digits 256 (bigEndian bytes) = bytes.reverse.map UInt8.toNat := by
  refine Nat.digits_ofDigits 256 (by decide) _ (fun d hd => ?_) fun hne => ?_
  · obtain ⟨b, -, rfl⟩ := List.mem_map.mp hd
    exact b.toNat_lt
  · cases bytes with
    | nil => simp at hne
    | cons b bytes =>
      have hb : b ≠ 0 := by simpa using h
      have hnat : b.toNat ≠ 0 := fun hzero => hb (UInt8.toNat_inj.mp hzero)
      simpa using hnat

theorem length_le_iff {bytes : List UInt8} (h : Minimal bytes) {k : Nat} (hk : 0 < k) :
    bytes.length ≤ k ↔ bigEndian bytes < 256 ^ k := by
  by_cases hhead : bytes.head? = some 0
  · have hone := h hhead
    obtain ⟨b, rfl⟩ := List.length_eq_one_iff.mp hone
    have hb : b = 0 := by simpa using hhead
    subst hb
    have hpos : 0 < 256 ^ k := Nat.pow_pos (by decide)
    simp only [bigEndian, List.reverse_singleton, List.map_singleton, UInt8.toNat_zero, List.length_singleton,
      Nat.ofDigits_singleton]
    omega
  · rw [← Nat.digits_length_le_iff (by decide), digits_bigEndian hhead, List.length_map, List.length_reverse]

theorem bigEndian_ofNat (n : Nat) : bigEndian (ofNat n) = n := by
  have hdigits : (Nat.digits 256 n).map (UInt8.toNat ∘ UInt8.ofNat) = Nat.digits 256 n := by
    refine (List.map_congr_left fun d hd => ?_).trans (List.map_id _)
    have hlt : d < 256 := Nat.digits_lt_base (by decide) hd
    simp [Nat.mod_eq_of_lt hlt]
  rw [bigEndian, ofNat, List.reverse_reverse, List.map_map, hdigits, Nat.ofDigits_digits]

theorem minimal_ofNat (n : Nat) : Minimal (ofNat n) := by
  intro h
  rw [ofNat, List.head?_reverse, List.getLast?_map, Option.map_eq_some_iff] at h
  obtain ⟨d, hd, hzero⟩ := h
  have hne : Nat.digits 256 n ≠ [] := by
    intro hnil
    simp [hnil] at hd
  have hlast := Nat.getLast_digit_ne_zero 256 (Nat.digits_ne_nil_iff_ne_zero.mp hne)
  rw [List.getLast?_eq_some_getLast hne, Option.some.injEq] at hd
  have hlt : d < 256 := Nat.digits_lt_base (by decide) (hd ▸ List.getLast_mem hne)
  have hmod : d % 256 = 0 := by simpa using congrArg UInt8.toNat hzero
  omega

end Bytes
