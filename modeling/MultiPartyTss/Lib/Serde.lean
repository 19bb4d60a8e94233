import Mathlib.Logic.Encodable.Basic
import Mathlib.Tactic.Common

/-!
# Values as text

Values travel between the parties as JSON text. `Serde α` is a writer and a reader for one type with the
round trip as a field, so that what is read back is what was written, and different values have different
texts. `Serde.numeric` is such a pair for any encodable type, for runs on given inputs.
-/

/-- `serde_json::to_string` and `serde_json::from_str` at one type. -/
class Serde (α : Type*) where
  toStr : α → String
  fromStr : String → Option α
  round_trip : ∀ a, fromStr (toStr a) = some a

namespace Serde

attribute [simp] round_trip

theorem toStr_injective {α : Type*} [Serde α] : Function.Injective (toStr : α → String) := by
  intro a b h
  have hab := congrArg (fromStr : String → Option α) h
  rw [round_trip, round_trip, Option.some.injEq] at hab
  exact hab

/-- The digits at the start of a text are those of the number it starts with. -/
theorem takeWhile_digits (n : Nat) (rest : List Char) (hrest : rest.head?.all fun c => !c.isDigit) :
    (Nat.toDigits 10 n ++ rest).takeWhile Char.isDigit = Nat.toDigits 10 n := by
  have hdigits : ∀ c ∈ Nat.toDigits 10 n, c.isDigit = true := fun c hc =>
    Nat.isDigit_of_mem_toDigits (by decide) (by decide) hc
  rw [List.takeWhile_append_of_pos hdigits]
  cases rest with
  | nil => simp
  | cons c rest =>
    have hc : c.isDigit = false := by simpa using hrest
    simp [hc]

/-- The decimal digits of the code of a value. -/
@[reducible] def numeric (α : Type*) [Encodable α] : Serde α where
  toStr a := String.ofList (Nat.toDigits 10 (Encodable.encode a))
  fromStr text := Encodable.decode (Nat.ofDigitChars 10 text.toList 0)
  round_trip a := by
    rw [String.toList_ofList, Nat.ofDigitChars_ten_toDigits, Encodable.encodek]

end Serde
