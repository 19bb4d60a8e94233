import MultiPartyTss.Gg20.Message
import MultiPartyTss.Lib.Hex

/-!
# What is signed, and how a signature is written

`sign` of GG20 reads the message as a hexadecimal number and gives it to `SignManual::new`; `sign` of GG18
decodes pairs of digits and falls back to the bytes of the text. `same_integer_iff` says on which messages
the two sign the same number. The signature is returned as 130 digits: `r` and `s` filled up to 64, and two
for the recovery id. `signature_round_trips` reads them back.
-/

namespace Gg20

open Gg18 Bytes Hex

/-- `SignatureRecid` of `gg_2020`. -/
structure SignatureRecid (F : Type) where
  r : F
  s : F
  recid : UInt8

/-- What `sign` uses of the `gg_2020` state machines. -/
structure SignMachines (F G : Type) where
  LocalKey : Type
  CompletedOfflineStage : Type
  SignManual : Type
  PartialSignature : Type
  parseLocalKey : String → Option LocalKey
  publicKey : LocalKey → G
  newSignManual : Int → CompletedOfflineStage → Except String (SignManual × PartialSignature)
  complete : SignManual → List PartialSignature → Option (SignatureRecid F)

namespace Sign

/-- `.context(message)?` on a result without a value. -/
def context {α : Type} (message : String) : Option α → ExceptT String Option α
  | some a => pure a
  | none => throw message

variable {F G : Type} {L : KeygenLibrary F G} (S : SignLibrary L) (M : SignMachines F G)
  (from_hex : String → Option Int)

/-- `format!("{:0>width$}{:0>width$}{:02x}", r, s, v, width = 64)`. -/
def formatSignature (r s : String) (v : UInt8) : String :=
  String.ofList (padLeft 64 r.toList ++ padLeft 64 s.toList ++ ofByte v)

/-- The returned text of a signature. -/
def render (sig : SignatureRecid F) : String :=
  let r := S.toStrRadix16 (L.fromBytes (S.scalarToBytes sig.r))
  let s := S.toStrRadix16 (L.fromBytes (S.scalarToBytes sig.s))
  let v := sig.recid
  formatSignature r s v

/-- `sign`. The offline stage and the exchange of partial signatures are what the rooms make of them; an
outer `none` is a panic of the final check. -/
def sign (share_key message : String) (offline : M.LocalKey → Except String M.CompletedOfflineStage)
    (online : M.PartialSignature → Except String (List M.PartialSignature)) : ExceptT String Option String := do
  let message ← context "invalid hex" (from_hex message)
  let local_share ← context "parse local share" (M.parseLocalKey share_key)
  let pk := M.publicKey local_share
  let completed_offline_stage ← liftExcept (offline local_share)
  let (signing, partial_signature) ← liftExcept (M.newSignManual message completed_offline_stage)
  let partial_signatures ← liftExcept (online partial_signature)
  let sig ← context "online stage failed" (M.complete signing partial_signatures)
  let is_correct ← ExceptT.lift (Message.checkSig S sig.r sig.s message pk)
  if is_correct = false then throw "something wrong. invalid signature"
  else pure (render S sig)

/-! ### What `sign` does with the message and the signature -/

theorem bind_eq_ok {α β : Type} {x : ExceptT String Option α} {f : α → ExceptT String Option β} {b : β}
    (h : (x >>= f) = some (.ok b)) : ∃ a, x = some (.ok a) ∧ f a = some (.ok b) := by
  change (Option.bind x fun r => ExceptT.bindCont f r) = some (.ok b) at h
  obtain ⟨r, hx, hr⟩ := Option.bind_eq_some_iff.mp h
  cases r with
  | error e => cases hr
  | ok a => exact ⟨a, hx, hr⟩

theorem context_eq_ok {α : Type} {message : String} {o : Option α} {a : α}
    (h : context message o = some (.ok a)) : o = some a := by
  cases o with
  | none => cases h
  | some a' =>
    cases h
    rfl

theorem liftExcept_eq_ok {α : Type} {x : Except String α} {a : α}
    (h : (liftExcept x : ExceptT String Option α) = some (.ok a)) : x = .ok a := by
  cases x with
  | error e => cases h
  | ok a' =>
    cases h
    rfl

variable {S M from_hex}

/-- A signing that returns: the number of the message was given to `SignManual::new`, and the text is that
of a signature that passed the final check under the key of the share. -/
theorem sign_returns {share_key message text : String}
    {offline : M.LocalKey → Except String M.CompletedOfflineStage}
    {online : M.PartialSignature → Except String (List M.PartialSignature)}
    (h : sign S M from_hex share_key message offline online = some (.ok text)) :
    ∃ v local_share completed manual sig, from_hex message = some v ∧ M.parseLocalKey share_key = some local_share ∧
      M.newSignManual v completed = .ok manual ∧
      Message.checkSig S sig.r sig.s v (M.publicKey local_share) = some true ∧ text = render S sig := by
  unfold sign at h
  obtain ⟨v, hv, h⟩ := bind_eq_ok h
  obtain ⟨local_share, hshare, h⟩ := bind_eq_ok h
  obtain ⟨completed, -, h⟩ := bind_eq_ok h
  obtain ⟨manual, hmanual, h⟩ := bind_eq_ok h
  obtain ⟨partial_signatures, -, h⟩ := bind_eq_ok h
  obtain ⟨sig, -, h⟩ := bind_eq_ok h
  obtain ⟨is_correct, hcheck, h⟩ := bind_eq_ok h
  cases is_correct with
  | false => cases h
  | true =>
    cases h
    refine ⟨v, local_share, completed, manual, sig, context_eq_ok hv, context_eq_ok hshare,
      liftExcept_eq_ok hmanual, ?_, rfl⟩
    change Option.map Except.ok (Message.checkSig S sig.r sig.s v (M.publicKey local_share))
      = some (.ok true) at hcheck
    obtain ⟨ok, hok, heq⟩ := Option.map_eq_some_iff.mp hcheck
    cases heq
    exact hok

/-! ### The message -/

/-- The magnitude is the number of the digits in the text, which may have a sign and blanks beside them. -/
structure Reads (text : String) (v : Int) : Prop where
  some_digit : text.toList.filter isDigit ≠ []
  magnitude : v.natAbs = value (text.toList.filter isDigit)

variable (S from_hex) in
/-- What `hex::decode`, `BigInt::from_bytes` and `BigInt::from_hex` do. -/
structure DecodingLaws : Prop where
  hexDecode_eq : ∀ text, S.hexDecode text = decode text.toList
  fromBytes_value : ∀ bytes, L.fromBytes bytes = bigEndian bytes
  fromHex_reads : ∀ text v, from_hex text = some v → Reads text v

/-- An even number of digits and nothing else. -/
def PairsOfDigits (message : String) : Prop := Even message.toList.length ∧ message.toList.all isDigit = true

/-- GG18 signs the number that GG20 signs exactly if the message is made of pairs of digits. Otherwise it
signs the bytes of the text, which make a greater number. -/
theorem same_integer_iff (laws : DecodingLaws S from_hex) {message : String} {v : Int}
    (h : from_hex message = some v) (hv : 0 ≤ v) :
    (((L.fromBytes (messageBytes S message) : Nat) : Int) = v ↔ PairsOfDigits message) ∧
      (¬ PairsOfDigits message → messageBytes S message = message.toUTF8.data.toList ∧
        v < (L.fromBytes (messageBytes S message) : Nat)) := by
  have hreads := laws.fromHex_reads message v h
  have hsome := decode_isSome_iff message.toList
  rw [← laws.hexDecode_eq] at hsome
  rw [PairsOfDigits, ← hsome, laws.fromBytes_value, messageBytes]
  cases hdecode : S.hexDecode message with
  | some bytes =>
    have hdigits := (hsome.mp (by rw [hdecode]; rfl)).2
    rw [laws.hexDecode_eq] at hdecode
    have hvalue := (bigEndian_decode hdecode).1
    have hfilter : message.toList.filter isDigit = message.toList :=
      List.filter_eq_self.mpr (List.all_eq_true.mp hdigits)
    have hmagnitude := hreads.magnitude
    rw [hfilter, ← hvalue] at hmagnitude
    simp only [Option.isSome_some, iff_true, not_true_eq_false, false_implies, and_true]
    omega
  | none =>
    have hlt := (value_filter_le message.toList).2 hreads.some_digit
    rw [← hreads.magnitude, utf8, String.ofList_toList] at hlt
    simp only [Option.isSome_none, Bool.false_eq_true, iff_false, not_false_eq_true, true_implies, true_and]
    exact ⟨by omega, by omega⟩

/-- Libraries with the decoders as they are documented. -/
def hexSignLibrary : SignLibrary Message.bytesLibrary :=
  { SignLibrary.small with hexDecode := fun text => decode text.toList }

def parseHex (text : String) : Option Int := (parse text.toList).map Int.ofNat

theorem parseHex_reads {text : String} {v : Int} (h : parseHex text = some v) : Reads text v := by
  obtain ⟨n, hn, rfl⟩ := Option.map_eq_some_iff.mp h
  unfold parse at hn
  split_ifs at hn with hdigits
  cases hn
  have hfilter : text.toList.filter isDigit = text.toList :=
    List.filter_eq_self.mpr (List.all_eq_true.mp hdigits.2)
  exact ⟨by rw [hfilter]; exact hdigits.1, by rw [hfilter]; rfl⟩

theorem hexLaws : DecodingLaws hexSignLibrary parseHex where
  hexDecode_eq _ := rfl
  fromBytes_value _ := rfl
  fromHex_reads _ _ h := parseHex_reads h

/-- Three digits: GG20 signs the number, GG18 the three characters. -/
theorem odd_digits_differ :
    parseHex "abc" = some 2748 ∧
      Message.bytesLibrary.fromBytes (messageBytes hexSignLibrary "abc") = 6382179 := by
  constructor
  · decide +kernel
  · show bigEndian (messageBytes hexSignLibrary "abc") = 6382179
    decide +kernel

/-- Mixed case and leading zeros agree, three digits do not. -/
theorem mixed_case_agrees :
    Message.bytesLibrary.fromBytes (messageBytes hexSignLibrary "00aBcD") = (43981 : Int) ∧
      (2748 : Int) < Message.bytesLibrary.fromBytes (messageBytes hexSignLibrary "abc") := by
  have hpairs : PairsOfDigits "00aBcD" := ⟨by decide +kernel, by decide +kernel⟩
  have hodd : ¬ PairsOfDigits "abc" := fun hpairs => absurd hpairs.1 (by decide +kernel)
  constructor
  · exact (same_integer_iff hexLaws (show parseHex "00aBcD" = some 43981 by decide +kernel) (by decide)).1.mpr hpairs
  · exact ((same_integer_iff hexLaws (show parseHex "abc" = some 2748 by decide +kernel) (by decide)).2 hodd).2

/-! ### The signature -/

/-- The text of `r`, `s` and `v`: 130 lower-case digits that read back by position. -/
structure Encodes (text : String) (r s : Nat) (v : UInt8) : Prop where
  length : text.toList.length = 130
  lower : ∀ c ∈ text.toList, c ∈ lowerDigits
  parse_r : parse (text.toList.take 64) = some r
  parse_s : parse ((text.toList.drop 64).take 64) = some s
  parse_v : parse (text.toList.drop 128) = some v.toNat

/-- A number of 256 bits, filled up to 64 digits. -/
theorem parse_padLeft {text : String} {n : Nat} (h : Renders text.toList n) (hn : n < 2 ^ 256) :
    (padLeft 64 text.toList).length = 64 ∧ (∀ c ∈ padLeft 64 text.toList, c ∈ lowerDigits) ∧
      parse (padLeft 64 text.toList) = some n := by
  have hle := h.length_le (k := 64) (by decide) (hn.trans_eq (by norm_num))
  have hlen := length_padLeft hle
  have hlower := lower_padLeft 64 h.lower
  have hne : padLeft 64 text.toList ≠ [] := by
    intro hnil
    rw [hnil] at hlen
    cases hlen
  refine ⟨hlen, hlower, ?_⟩
  rw [parse_of_lower hne hlower, value_padLeft, h.value_eq]

theorem formatSignature_encodes {r s : String} {m n : Nat} (v : UInt8) (hr : Renders r.toList m)
    (hs : Renders s.toList n) (hm : m < 2 ^ 256) (hn : n < 2 ^ 256) : Encodes (formatSignature r s v) m n v := by
  obtain ⟨hlen_r, hlower_r, hparse_r⟩ := parse_padLeft hr hm
  obtain ⟨hlen_s, hlower_s, hparse_s⟩ := parse_padLeft hs hn
  have htext : (formatSignature r s v).toList
      = padLeft 64 r.toList ++ (padLeft 64 s.toList ++ ofByte v) := by
    rw [formatSignature, String.toList_ofList, List.append_assoc]
  have hlen_v : (ofByte v).length = 2 := rfl
  constructor
  · simp [htext, hlen_r, hlen_s, hlen_v]
  · intro c hc
    rw [htext, List.mem_append, List.mem_append] at hc
    rcases hc with hc | hc | hc
    · exact hlower_r c hc
    · exact hlower_s c hc
    · exact lower_ofByte v c hc
  · rw [htext, List.take_left' hlen_r]
    exact hparse_r
  · rw [htext, List.drop_left' hlen_r, List.take_left' hlen_s]
    exact hparse_s
  · rw [htext, show 128 = 64 + 64 from rfl, ← List.drop_drop, List.drop_left' hlen_r, List.drop_left' hlen_s]
    exact parse_ofByte v

/-- What a text encodes is read off it. -/
theorem Encodes.inj {text : String} {r s r' s' : Nat} {v v' : UInt8} (h : Encodes text r s v)
    (h' : Encodes text r' s' v') : r' = r ∧ s' = s ∧ v' = v := by
  have hr := h.parse_r
  have hs := h.parse_s
  have hv := h.parse_v
  rw [h'.parse_r, Option.some.injEq] at hr
  rw [h'.parse_s, Option.some.injEq] at hs
  rw [h'.parse_v, Option.some.injEq] at hv
  exact ⟨hr, hs, UInt8.toNat_inj.mp hv⟩

/-- The text of a signature reads back, so different signatures have different texts. -/
theorem signature_round_trips {to_str_radix : Nat → String}
    (hradix : ∀ n, Renders (to_str_radix n).toList n) {r s : Nat} (v : UInt8) (hr : r < 2 ^ 256)
    (hs : s < 2 ^ 256) :
    Encodes (formatSignature (to_str_radix r) (to_str_radix s) v) r s v ∧
      ∀ r' s' v', r' < 2 ^ 256 → s' < 2 ^ 256 →
        formatSignature (to_str_radix r') (to_str_radix s') v'
          = formatSignature (to_str_radix r) (to_str_radix s) v → r' = r ∧ s' = s ∧ v' = v := by
  have hencodes := formatSignature_encodes v (hradix r) (hradix s) hr hs
  refine ⟨hencodes, fun r' s' v' hr' hs' heq => ?_⟩
  have hencodes' := formatSignature_encodes v' (hradix r') (hradix s') hr' hs'
  rw [heq] at hencodes'
  exact hencodes.inj hencodes'

/-- A short `r` and a one-digit `s`. -/
theorem short_signature_round_trips :
    Encodes (formatSignature (String.ofList (Hex.ofNat 4660)) (String.ofList (Hex.ofNat 0)) 1) 4660 0 1 ∧
      ∀ r' s' v', r' < 2 ^ 256 → s' < 2 ^ 256 →
        formatSignature (String.ofList (Hex.ofNat r')) (String.ofList (Hex.ofNat s')) v'
          = formatSignature (String.ofList (Hex.ofNat 4660)) (String.ofList (Hex.ofNat 0)) 1 →
            r' = 4660 ∧ s' = 0 ∧ v' = 1 := by
  have hradix : ∀ n, Renders (String.ofList (Hex.ofNat n)).toList n := by
    intro n
    rw [String.toList_ofList]
    exact renders_ofNat n
  exact signature_round_trips hradix 1 (by norm_num)
    (by norm_num)

end Sign

end Gg20
