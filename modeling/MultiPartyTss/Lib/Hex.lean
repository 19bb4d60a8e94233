import MultiPartyTss.Lib.Bytes

/-!
# Hexadecimal texts

The number that the digits of a text stand for, its bytes where the digits come in pairs, and the shortest
text of a number, filled with zeros from the left.
-/

namespace Hex

open Bytes

def lowerDigits : List Char := "0123456789abcdef".toList

def upperDigits : List Char := "0123456789ABCDEF".toList

/-- The value of a digit in either case. -/
def digit (c : Char) : Option Nat :=
  if c ∈ lowerDigits then some (lowerDigits.idxOf c)
  else if c ∈ upperDigits then some (upperDigits.idxOf c)
  else none

def isDigit (c : Char) : Bool := (digit c).isSome

/-- The number of a text of digits, most significant first. -/
def value (cs : List Char) : Nat := Nat.ofDigits 16 (cs.reverse.map fun c => (digit c).getD 0)

/-- Reads a number in base 16. -/
def parse (cs : List Char) : Option Nat := if cs ≠ [] ∧ cs.all isDigit = true then some (value cs) else none

/-- The bytes of a text of pairs of digits. -/
def decode : List Char → Option (List UInt8)
  | [] => some []
  | [_] => none
  | a :: b :: cs =>
    match digit a, digit b with
    | some x, some y => (decode cs).map fun bytes => UInt8.ofNat (16 * x + y) :: bytes
    | _, _ => none

/-- `n` zeros in front of a text of `width - n` characters. -/
def padLeft (width : Nat) (cs : List Char) : List Char := List.replicate (width - cs.length) '0' ++ cs

/-- Two lower-case digits. -/
def ofByte (v : UInt8) : List Char :=
  [lowerDigits.getD (v.toNat / 16) '0', lowerDigits.getD (v.toNat % 16) '0']

/-- Pairs of lower-case digits. -/
def encode (bytes : List UInt8) : List Char := bytes.flatMap ofByte

/-- The shortest lower-case text of a number. -/
structure Renders (cs : List Char) (n : Nat) : Prop where
  nonempty : cs ≠ []
  lower : ∀ c ∈ cs, c ∈ lowerDigits
  value_eq : value cs = n
  minimal : cs.head? = some '0' → cs = ['0']

def ofNat (n : Nat) : List Char :=
  if n = 0 then ['0'] else (Nat.digits 16 n).reverse.map fun d => lowerDigits.getD d '0'

/-! ### Digits -/

theorem digit_lt {c : Char} {x : Nat} (h : digit c = some x) : x < 16 := by
  unfold digit at h
  split_ifs at h with hlower hupper
  · cases h
    exact List.idxOf_lt_length_of_mem hlower
  · cases h
    exact List.idxOf_lt_length_of_mem hupper

theorem digit_getD_lt (c : Char) : (digit c).getD 0 < 16 := by
  cases h : digit c with
  | none => exact Nat.succ_pos 15
  | some x => exact digit_lt h

theorem digit_lower {d : Nat} (h : d < 16) : digit (lowerDigits.getD d '0') = some d := by
  revert d
  decide

theorem lower_isDigit {c : Char} (h : c ∈ lowerDigits) : isDigit c = true := by
  simp [isDigit, digit, h]

/-- Every digit is a character of at least the code of `0`. -/
theorem le_toNat_of_isDigit {c : Char} (h : isDigit c = true) : 48 ≤ c.toNat ∧ c.toNat < 128 := by
  have hall : (lowerDigits ++ upperDigits).all
      (fun c => decide (48 ≤ c.toNat) && decide (c.toNat < 128)) = true := by decide
  rw [List.all_eq_true] at hall
  have hmem : c ∈ lowerDigits ++ upperDigits := by
    rw [List.mem_append]
    by_contra hno
    rw [not_or] at hno
    simp [isDigit, digit, hno] at h
  simpa using hall c hmem

/-! ### The value of a text -/

@[simp] theorem value_nil : value [] = 0 := rfl

theorem value_cons (c : Char) (cs : List Char) :
    value (c :: cs) = (digit c).getD 0 * 16 ^ cs.length + value cs := by
  simp [value, Nat.ofDigits_append, Nat.add_comm, Nat.mul_comm]

theorem value_padLeft (width : Nat) (cs : List Char) : value (padLeft width cs) = value cs := by
  unfold padLeft
  induction width - cs.length with
  | zero => rfl
  | succ k ih =>
    rw [List.replicate_succ, List.cons_append, value_cons, ih]
    simp [show digit '0' = some 0 by decide]

theorem value_ofByte (v : UInt8) : value (ofByte v) = v.toNat := by
  have hlt := v.toNat_lt
  rw [ofByte, value_cons, value_cons, digit_lower (by omega), digit_lower (Nat.mod_lt _ (by decide))]
  simp only [Option.getD_some, List.length_singleton, List.length_nil, value_nil]
  omega

/-! ### Pairs of digits -/

theorem decode_isSome_iff (cs : List Char) :
    (decode cs).isSome ↔ Even cs.length ∧ cs.all isDigit = true := by
  induction cs using decode.induct with
  | case1 => simp [decode]
  | case2 => simp [decode]
  | case3 a b cs x y hb ha ih =>
    simp only [decode, ha, hb, Option.isSome_map, ih, List.length_cons, List.all_cons, isDigit, Option.isSome_some,
      Bool.true_and]
    rw [Nat.even_add_one, Nat.even_add_one, not_not]
  | case4 a b cs hno =>
    have hnone : decode (a :: b :: cs) = none := by
      rw [decode]
      split
      · exact (hno _ _ ‹_› ‹_›).elim
      · rfl
    have hdigits : ¬ (isDigit a = true ∧ isDigit b = true) := by
      rintro ⟨ha, hb⟩
      obtain ⟨x, hx⟩ := Option.isSome_iff_exists.mp ha
      obtain ⟨y, hy⟩ := Option.isSome_iff_exists.mp hb
      exact hno x y hx hy
    rw [hnone]
    simp only [List.all_cons, Bool.and_eq_true, Option.isSome_none, Bool.false_eq_true, false_iff]
    exact fun h => hdigits ⟨h.2.1, h.2.2.1⟩

/-- The bytes of a text are those of its number. -/
theorem bigEndian_decode {cs : List Char} {bytes : List UInt8} (h : decode cs = some bytes) :
    bigEndian bytes = value cs ∧ cs.length = 2 * bytes.length := by
  induction cs using decode.induct generalizing bytes with
  | case1 =>
    cases h
    exact ⟨rfl, rfl⟩
  | case2 => cases h
  | case3 a b cs x y hb ha ih =>
    simp only [decode, ha, hb, Option.map_eq_some_iff] at h
    obtain ⟨rest, hrest, rfl⟩ := h
    obtain ⟨hvalue, hlen⟩ := ih hrest
    have hx := digit_lt ha
    have hy := digit_lt hb
    have hbyte : (UInt8.ofNat (16 * x + y)).toNat = 16 * x + y := by
      rw [UInt8.toNat_ofNat']
      omega
    have hpow : (16 : Nat) ^ cs.length = 256 ^ rest.length := by
      rw [hlen, pow_mul]
      norm_num
    refine ⟨?_, by simp only [List.length_cons]; omega⟩
    rw [bigEndian_cons, hbyte, hvalue, value_cons, value_cons, ha, hb, List.length_cons, pow_succ, hpow]
    simp only [Option.getD_some]
    ring
  | case4 a b cs hno =>
    rw [decode] at h
    split at h
    · exact (hno _ _ ‹_› ‹_›).elim
    · cases h

/-! ### Digits as characters -/

def utf8 (cs : List Char) : List UInt8 := (String.ofList cs).toUTF8.data.toList

theorem utf8_cons (c : Char) (cs : List Char) : utf8 (c :: cs) = String.utf8EncodeChar c ++ utf8 cs := by
  rw [utf8, utf8, String.toUTF8_eq_toByteArray, String.toUTF8_eq_toByteArray, String.toByteArray_ofList,
    String.toByteArray_ofList, List.utf8Encode_cons, List.utf8Encode_singleton, ByteArray.data_append,
    Array.toList_append, List.data_toByteArray]

theorem length_le_length_utf8 (cs : List Char) : cs.length ≤ (utf8 cs).length := by
  induction cs with
  | nil => exact Nat.zero_le _
  | cons c cs ih =>
    have hpos := Char.utf8Size_pos c
    rw [utf8_cons, List.length_append, String.length_utf8EncodeChar, List.length_cons]
    omega

theorem utf8EncodeChar_of_isDigit {c : Char} (h : isDigit c = true) :
    String.utf8EncodeChar c = [UInt8.ofNat c.toNat] := by
  have hlt := (le_toNat_of_isDigit h).2
  have hascii : c.val.toNat ≤ 127 := Nat.le_of_lt_succ hlt
  unfold String.utf8EncodeChar
  dsimp only
  rw [if_pos hascii]
  rfl

/-- The digits of a text are below its bytes, since a digit is below its character. -/
theorem value_filter_le (cs : List Char) :
    value (cs.filter isDigit) ≤ bigEndian (utf8 cs) ∧
      (cs.filter isDigit ≠ [] → value (cs.filter isDigit) < bigEndian (utf8 cs)) := by
  induction cs with
  | nil => exact ⟨Nat.zero_le _, fun h => (h rfl).elim⟩
  | cons c cs ih =>
    rw [utf8_cons, bigEndian_append]
    by_cases hdigit : isDigit c = true
    · rw [List.filter_cons_of_pos hdigit, utf8EncodeChar_of_isDigit hdigit, bigEndian_singleton, value_cons]
      obtain ⟨hge, hlt⟩ := le_toNat_of_isDigit hdigit
      have hbyte : (UInt8.ofNat c.toNat).toNat = c.toNat := by
        rw [UInt8.toNat_ofNat']
        omega
      have hvalue := digit_getD_lt c
      have hlen : (cs.filter isDigit).length ≤ (utf8 cs).length :=
        (List.length_filter_le isDigit cs).trans (length_le_length_utf8 cs)
      have hpow : 16 ^ (cs.filter isDigit).length ≤ 256 ^ (utf8 cs).length :=
        (Nat.pow_le_pow_left (by decide) _).trans (Nat.pow_le_pow_right (by decide) hlen)
      have hlead : (digit c).getD 0 * 16 ^ (cs.filter isDigit).length
          < (UInt8.ofNat c.toNat).toNat * 256 ^ (utf8 cs).length := by
        rw [hbyte]
        exact Nat.mul_lt_mul_of_lt_of_le (by omega) hpow (Nat.pow_pos (by decide))
      have hrest := ih.1
      exact ⟨by omega, fun _ => by omega⟩
    · rw [List.filter_cons_of_neg hdigit]
      exact ⟨ih.1.trans (Nat.le_add_left _ _), fun h => (ih.2 h).trans_le (Nat.le_add_left _ _)⟩

/-! ### Padding -/

theorem length_padLeft {width : Nat} {cs : List Char} (h : cs.length ≤ width) :
    (padLeft width cs).length = width := by
  rw [padLeft, List.length_append, List.length_replicate]
  omega

theorem lower_padLeft (width : Nat) {cs : List Char} (h : ∀ c ∈ cs, c ∈ lowerDigits) :
    ∀ c ∈ padLeft width cs, c ∈ lowerDigits := by
  intro c hc
  rcases List.mem_append.mp hc with hc | hc
  · rw [List.eq_of_mem_replicate hc]
    decide
  · exact h c hc

theorem lower_ofByte (v : UInt8) : ∀ c ∈ ofByte v, c ∈ lowerDigits := by
  have hlt := v.toNat_lt
  have hget : ∀ d, d < 16 → lowerDigits.getD d '0' ∈ lowerDigits := by decide
  intro c hc
  simp only [ofByte, List.mem_cons, List.not_mem_nil, or_false] at hc
  rcases hc with rfl | rfl
  · exact hget _ (by omega)
  · exact hget _ (Nat.mod_lt _ (by decide))

theorem parse_of_lower {cs : List Char} (hne : cs ≠ []) (h : ∀ c ∈ cs, c ∈ lowerDigits) :
    parse cs = some (value cs) :=
  if_pos ⟨hne, List.all_eq_true.mpr fun c hc => lower_isDigit (h c hc)⟩

theorem parse_ofByte (v : UInt8) : parse (ofByte v) = some v.toNat := by
  have hne : ofByte v ≠ [] := List.cons_ne_nil _ _
  rw [parse_of_lower hne (lower_ofByte v), value_ofByte]

/-! ### The shortest text -/

theorem Renders.length_le {cs : List Char} {n k : Nat} (h : Renders cs n) (hk : 0 < k) (hn : n < 16 ^ k) :
    cs.length ≤ k := by
  cases cs with
  | nil => exact Nat.zero_le k
  | cons c cs =>
    by_cases hzero : c = '0'
    · rw [h.minimal (by rw [hzero, List.head?_cons])]
      exact hk
    · -- a leading digit other than zero counts for a power of 16
      have hpos : 0 < (digit c).getD 0 := by
        have hall : lowerDigits.all (fun c => decide (c = '0') || decide (0 < (digit c).getD 0)) = true := by
          decide
        rw [List.all_eq_true] at hall
        simpa [hzero] using hall c (h.lower c List.mem_cons_self)
      have hle : 16 ^ cs.length ≤ n := by
        rw [← h.value_eq, value_cons]
        exact Nat.le_add_right_of_le (Nat.le_mul_of_pos_left _ hpos)
      exact (Nat.pow_lt_pow_iff_right (by decide)).mp (hle.trans_lt hn)

theorem renders_ofNat (n : Nat) : Renders (ofNat n) n := by
  by_cases hn : n = 0
  · subst hn
    have hlower : ∀ c ∈ ofNat 0, c ∈ lowerDigits := List.forall_mem_singleton.mpr List.mem_cons_self
    exact ⟨by decide, hlower, by decide, fun _ => rfl⟩
  · have hdigits : ∀ d ∈ Nat.digits 16 n, d < 16 := fun d hd => Nat.digits_lt_base (by decide) hd
    have hne : Nat.digits 16 n ≠ [] := Nat.digits_ne_nil_iff_ne_zero.mpr hn
    rw [ofNat, if_neg hn]
    constructor
    · simpa using hne
    · intro c hc
      obtain ⟨d, hd, rfl⟩ := List.mem_map.mp hc
      have hget : ∀ d, d < 16 → lowerDigits.getD d '0' ∈ lowerDigits := by decide
      exact hget d (hdigits d (List.mem_reverse.mp hd))
    · have hmap : (Nat.digits 16 n).map (fun d => (digit (lowerDigits.getD d '0')).getD 0) = Nat.digits 16 n := by
        refine (List.map_congr_left fun d hd => ?_).trans (List.map_id _)
        rw [digit_lower (hdigits d hd), Option.getD_some, id_eq]
      rw [value, ← List.map_reverse, List.reverse_reverse, List.map_map]
      exact (congrArg (Nat.ofDigits 16) hmap).trans (Nat.ofDigits_digits 16 n)
    · intro hhead
      have hlast := Nat.getLast_digit_ne_zero 16 hn
      rw [List.head?_map, List.head?_reverse, List.getLast?_eq_some_getLast hne, Option.map_some,
        Option.some.injEq] at hhead
      have hdigit := digit_lower (hdigits _ (List.getLast_mem hne))
      rw [hhead, show digit '0' = some 0 by decide, Option.some.injEq] at hdigit
      exact (hlast hdigit.symm).elim

end Hex
