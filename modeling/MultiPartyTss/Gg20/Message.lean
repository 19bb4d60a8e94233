import MultiPartyTss.Gg18.Sign
import MultiPartyTss.Lib.Bytes
import MultiPartyTss.Lib.Json

/-!
# The length of the message

Both `check_sig` functions pad the bytes of the message to 32 by a subtraction that panics if there are
more, at the end of a signing run. Of the endpoints that take a message only the GG20 gateway bounds its
length. `padding_total_iff` says which messages are safe at each endpoint.
-/

namespace Gg20

namespace Message

open Gg18 Bytes

/-- The routes that take a message to sign. -/
inductive Endpoint where
  | gg18Centralized
  | gg18Distributed
  | gg20Distributed
  | gg20PubKey
  | gg20Gateway
  deriving DecidableEq, Repr

/-- A `&str` field of a JSON request, which cannot hold a text with escapes. -/
def borrowed (message : String) : Option String := if Json.needsEscape message then none else some message

/-- The message that the endpoint hands to `sign`, if it accepts it. The gateway posts it to the nodes'
`/ecdsa/gg_20/pub_key/sign`. -/
def handed : Endpoint → String → Option String
  | .gg18Centralized, message | .gg18Distributed, message => borrowed message
  | .gg20Distributed, message | .gg20PubKey, message => borrowed message
  | .gg20Gateway, message => if 64 < message.utf8ByteSize then none else borrowed message

variable {F G : Type} {L : KeygenLibrary F G} (S : SignLibrary L) (from_hex : String → Option Int)

/-- `ecdsa::common::check_sig`; `none` is a panic. The bytes of a number are those of its magnitude. -/
def checkSig (r s : F) (msg : Int) (pk : G) : Option Bool := do
  let msg ← pad32 (L.toBytes msg.natAbs)
  let bytes_r ← pad32 (S.scalarToBytes r)
  let bytes_s ← pad32 (S.scalarToBytes s)
  S.verify msg (bytes_r ++ bytes_s) (rawPk S pk)

/-- The padding of the message does not underflow in the final check of `sign`. The GG20 `sign` refuses a
text that is no number before it runs. -/
def PaddingTotal : Endpoint → String → Prop
  | .gg18Centralized, message | .gg18Distributed, message =>
    (pad32 (L.toBytes (L.fromBytes (messageBytes S message)))).isSome
  | .gg20Distributed, message | .gg20PubKey, message | .gg20Gateway, message =>
    ∀ v, from_hex message = some v → (pad32 (L.toBytes v.natAbs)).isSome

/-- The final check of `sign` panics, whatever the signature. -/
def CheckPanics : Endpoint → String → Prop
  | .gg18Centralized, message | .gg18Distributed, message =>
    ∀ r s pk, Gg18.checkSig S r s (L.fromBytes (messageBytes S message)) pk = none
  | .gg20Distributed, message | .gg20PubKey, message | .gg20Gateway, message =>
    ∃ v, from_hex message = some v ∧ ∀ r s pk, checkSig S r s v pk = none

/-- At most 32 bytes after the leading zeros, or a number of at most 256 bits. -/
def Fits : Endpoint → String → Prop
  | .gg18Centralized, message | .gg18Distributed, message =>
    ((messageBytes S message).dropWhile fun b => b == 0).length ≤ 32
  | .gg20Distributed, message | .gg20PubKey, message => ∀ v, from_hex message = some v → v.natAbs < 2 ^ 256
  | .gg20Gateway, _ => True

variable (L) in
/-- What `BigInt` does with bytes and with hexadecimal texts. -/
structure BigIntLaws : Prop where
  toBytes_value : ∀ n, bigEndian (L.toBytes n) = n
  toBytes_minimal : ∀ n, Minimal (L.toBytes n)
  fromBytes_value : ∀ bytes, L.fromBytes bytes = bigEndian bytes
  fromHex_lt : ∀ text v, from_hex text = some v → v.natAbs < 16 ^ text.utf8ByteSize

/-! ### The padding -/

theorem pad32_isSome (bytes : List UInt8) : (pad32 bytes).isSome ↔ bytes.length ≤ 32 := by
  unfold pad32
  split_ifs with h <;> simp [h]

theorem borrowed_eq {message text : String} (h : borrowed message = some text) : text = message := by
  unfold borrowed at h
  split_ifs at h
  exact (Option.some.inj h).symm

theorem handed_eq {e : Endpoint} {message text : String} (h : handed e message = some text) :
    text = message ∧ (e = .gg20Gateway → text.utf8ByteSize ≤ 64) := by
  cases e with
  | gg20Gateway =>
    simp only [handed] at h
    split_ifs at h with hlong
    obtain rfl := borrowed_eq h
    exact ⟨rfl, fun _ => Nat.not_lt.mp hlong⟩
  | _ => exact ⟨borrowed_eq h, nofun⟩

variable {S from_hex}

theorem BigIntLaws.pad32_toBytes (laws : BigIntLaws L from_hex) (n : Nat) :
    (pad32 (L.toBytes n)).isSome ↔ n < 256 ^ 32 := by
  rw [pad32_isSome, length_le_iff (laws.toBytes_minimal n) (by decide), laws.toBytes_value]

theorem BigIntLaws.pad32_messageBytes (laws : BigIntLaws L from_hex) (message : String) :
    (pad32 (L.toBytes (L.fromBytes (messageBytes S message)))).isSome ↔
      ((messageBytes S message).dropWhile fun b => b == 0).length ≤ 32 := by
  rw [laws.pad32_toBytes, laws.fromBytes_value, length_le_iff (minimal_dropWhile _) (by decide),
    bigEndian_dropWhile]

/-- The gateway's bound on the text is one on the number. -/
theorem BigIntLaws.fromHex_lt_of_short (laws : BigIntLaws L from_hex) {text : String} {v : Int}
    (hv : from_hex text = some v) (hshort : text.utf8ByteSize ≤ 64) : v.natAbs < 256 ^ 32 :=
  calc v.natAbs < 16 ^ text.utf8ByteSize := laws.fromHex_lt text v hv
    _ ≤ 16 ^ 64 := Nat.pow_le_pow_right (by decide) hshort
    _ = 256 ^ 32 := by norm_num

theorem checkSig_none {r s : F} {msg : Int} {pk : G} (h : pad32 (L.toBytes msg.natAbs) = none) :
    checkSig S r s msg pk = none := by
  rw [checkSig, h]
  rfl

theorem gg18_checkSig_none {r s : F} {msg : Nat} {pk : G} (h : pad32 (L.toBytes msg) = none) :
    Gg18.checkSig S r s msg pk = none := by
  rw [Gg18.checkSig, h]
  rfl

theorem paddingTotal_iff_fits (laws : BigIntLaws L from_hex) {e : Endpoint} {message text : String}
    (h : handed e message = some text) : PaddingTotal S from_hex e text ↔ Fits S from_hex e text := by
  have hpow : (256 : Nat) ^ 32 = 2 ^ 256 := by norm_num
  cases e with
  | gg18Centralized | gg18Distributed => exact laws.pad32_messageBytes text
  | gg20Distributed | gg20PubKey =>
    simp only [PaddingTotal, Fits, laws.pad32_toBytes, hpow]
  | gg20Gateway =>
    have hshort := (handed_eq h).2 rfl
    simp only [PaddingTotal, Fits, laws.pad32_toBytes, iff_true]
    exact fun v hv => laws.fromHex_lt_of_short hv hshort

theorem checkPanics_of_not_paddingTotal {e : Endpoint} {text : String} (h : ¬ PaddingTotal S from_hex e text) :
    CheckPanics S from_hex e text := by
  cases e with
  | gg18Centralized | gg18Distributed =>
    exact fun r s pk => gg18_checkSig_none (Option.not_isSome_iff_eq_none.mp h)
  | gg20Distributed | gg20PubKey | gg20Gateway =>
    simp only [PaddingTotal, not_forall] at h
    obtain ⟨v, hv, hnone⟩ := h
    exact ⟨v, hv, fun r s pk => checkSig_none (Option.not_isSome_iff_eq_none.mp hnone)⟩

/-- The padding of an accepted message does not underflow exactly when the message fits, and where it does
the final check panics. -/
theorem padding_total_iff (laws : BigIntLaws L from_hex) {e : Endpoint} {message text : String}
    (h : handed e message = some text) :
    (PaddingTotal S from_hex e text ↔ Fits S from_hex e text) ∧
      (¬ Fits S from_hex e text → CheckPanics S from_hex e text) := by
  have hiff := paddingTotal_iff_fits (S := S) laws h
  exact ⟨hiff, fun hfits => checkPanics_of_not_paddingTotal (mt hiff.mp hfits)⟩

/-! ### Two messages -/

/-- Digits without a sign. -/
def fromHex (text : String) : Option Int :=
  if text ≠ "" ∧ (text.toList.all fun c => Json.hexDigits.contains c) = true then
    some (Nat.ofDigits (16 : Nat) (text.toList.reverse.map fun c => Json.hexDigits.idxOf c) : Nat)
  else none

theorem length_le_utf8ByteSize (cs : List Char) : cs.length ≤ (String.ofList cs).utf8ByteSize := by
  induction cs with
  | nil => simp
  | cons c cs ih =>
    have hpos := Char.utf8Size_pos c
    rw [String.ofList_cons, String.utf8ByteSize_append, String.utf8ByteSize_singleton, List.length_cons]
    omega

theorem fromHex_lt {text : String} {v : Int} (h : fromHex text = some v) :
    v.natAbs < 16 ^ text.utf8ByteSize := by
  unfold fromHex at h
  split_ifs at h with hdigits
  cases h
  have hlt : ∀ d ∈ text.toList.reverse.map fun c => Json.hexDigits.idxOf c, d < 16 := by
    intro d hd
    obtain ⟨c, hc, rfl⟩ := List.mem_map.mp hd
    have hdigit := List.all_eq_true.mp hdigits.2 c (List.mem_reverse.mp hc)
    exact List.idxOf_lt_length_of_mem (List.contains_iff_mem.mp hdigit)
  have hvalue := Nat.ofDigits_lt_base_pow_length (by decide) hlt
  have hlen := length_le_utf8ByteSize text.toList
  rw [String.ofList_toList] at hlen
  rw [List.length_map, List.length_reverse] at hvalue
  rw [Int.natAbs_natCast]
  exact hvalue.trans_le (Nat.pow_le_pow_right (by decide) hlen)

/-- The small libraries with the bytes of numbers as they are. -/
def bytesLibrary : KeygenLibrary (ZMod 3) (ZMod 3) :=
  { KeygenLibrary.small with
    toBytes := Bytes.ofNat
    fromBytes := bigEndian }

def bytesSignLibrary : SignLibrary bytesLibrary := { SignLibrary.small with }

theorem bytesLaws : BigIntLaws bytesLibrary fromHex where
  toBytes_value := bigEndian_ofNat
  toBytes_minimal := minimal_ofNat
  fromBytes_value _ := rfl
  fromHex_lt _ _ h := fromHex_lt h

/-- A text of 33 letters that is not hexadecimal, at an endpoint that takes it. -/
theorem long_text_panics :
    handed .gg18Distributed "the quick brown fox jumps over it" = some "the quick brown fox jumps over it" ∧
      ¬ PaddingTotal bytesSignLibrary fromHex .gg18Distributed "the quick brown fox jumps over it" := by
  refine ⟨by decide +kernel, ?_⟩
  show ¬ (pad32 (bytesLibrary.toBytes (bytesLibrary.fromBytes
    (messageBytes bytesSignLibrary "the quick brown fox jumps over it")))).isSome = true
  decide +kernel

/-- The message of the tests, in hexadecimal. -/
theorem hello_world_fits :
    PaddingTotal bytesSignLibrary fromHex .gg20Gateway "68656c6c6f20776f726c64" :=
  have haccept : handed .gg20Gateway "68656c6c6f20776f726c64" = some "68656c6c6f20776f726c64" := by
    decide +kernel
  (padding_total_iff bytesLaws haccept).1.mpr trivial

end Message

end Gg20
