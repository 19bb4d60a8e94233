import MultiPartyTss.Gg18.SignOutput
import MultiPartyTss.Lib.Tampering

/-!
# Signing on a map that anybody may write

The requests that set an entry do not say who sets it, so nothing of what a signer reads is certain. What it
checks itself before it returns is the signature: `signatures_survive_tampering`.
-/

namespace Gg18

open Proc Slots Network

variable {F G : Type} {L : KeygenLibrary F G} {S : SignLibrary L}

section Safety

variable [Field F] [AddCommGroup G] [Module F G] {xCoord : G → F} {g : G}

/-- `verify` accepts signatures only. -/
structure VerifyLaws (S : SignLibrary L) (xCoord : G → F) (g : G) : Prop where
  verify : ∀ r s pk message msg bytes_r bytes_s, pad32 (L.toBytes message) = some msg →
    pad32 (S.scalarToBytes r) = some bytes_r → pad32 (S.scalarToBytes s) = some bytes_s →
    S.verify msg (bytes_r ++ bytes_s) (rawPk S pk) = some true → Ecdsa.Valid xCoord g pk (message : F) r s

theorem VerifyLaws.checkSig (laws : VerifyLaws S xCoord g) {r s : F} {message : Nat} {pk : G}
    (h : checkSig S r s message pk = some ()) : Ecdsa.Valid xCoord g pk (message : F) r s := by
  obtain ⟨msg, hmsg, h⟩ := Option.bind_eq_some_iff.mp h
  obtain ⟨bytes_r, hr, h⟩ := Option.bind_eq_some_iff.mp h
  obtain ⟨bytes_s, hs, h⟩ := Option.bind_eq_some_iff.mp h
  obtain ⟨is_correct, hverify, h⟩ := Option.bind_eq_some_iff.mp h
  cases is_correct with
  | false => cases h
  | true => exact laws.verify r s pk message msg bytes_r bytes_s hmsg hr hs hverify

/-- The text is a signature of the message under the public key that came with the key of the signer. -/
def SignInput.Signed (S : SignLibrary L) (a : SignInput L) (xCoord : G → F) (g : G) (text : String) : Prop :=
  ∃ output sig, a.output = some output ∧ text = signJson S sig ∧
    Ecdsa.Valid xCoord g output.y_sum (L.fromBytes (messageBytes S a.msg) : F) (S.r sig) (S.s sig)

variable [Serde F]

/-- The last step of the last round is the check. -/
theorem signPhase5_robust (laws : VerifyLaws S xCoord g) (p t n : Nat) (uuid : String)
    (coins : SignDraw → L.Seed) (local_sig : S.LocalSignature) (R : G) (message_bn : Nat) (y_sum : G) :
    (signPhase5 S p t n uuid coins local_sig R message_bn y_sum).Robust fun text =>
      ∃ sig, text = signJson S sig ∧ Ecdsa.Valid xCoord g y_sum (message_bn : F) (S.r sig) (S.s sig) := by
  refine .rest fun commit5a_vec => .rest fun includes_i => .rest fun decommit5a => .rest fun commit5a_others => ?_
  refine .rest fun others5a => .rest fun phase5c => .rest fun commit5c_vec => .rest fun decommit5d_vec => ?_
  refine .rest fun phase_5a_decomm_vec => .rest fun s_i => .rest fun s_i_vec => .rest fun s_i_others => ?_
  refine .rest fun sig => .ofOptionBind fun _ hcheck => .pure ⟨sig, rfl, ?_⟩
  exact laws.checkSig hcheck

variable [Serde Nat] [DecidableEq G]

theorem sign_robust (laws : VerifyLaws S xCoord g) (a : SignInput L) :
    (a.process S).Robust (a.Signed S xCoord g) := by
  refine .ofOptionBind fun output houtput => ?_
  -- rounds 0 and 1
  refine .rest fun _ => .rest fun n => .rest fun round0_ans_vec => .rest fun signers_vec => .rest fun index => ?_
  refine .rest fun vss_scheme => .rest fun _ => .rest fun _ => .rest fun round1_ans_vec => .rest fun round1 => ?_
  -- round 2
  refine .rest fun _ => .rest fun vecs => .rest fun _ => .rest fun round2_ans_vec => .rest fun received => ?_
  refine .rest fun alphas => .rest fun delta_i => .rest fun sigma => .rest fun _ => ?_
  -- rounds 3 and 4
  refine .rest fun delta_vec => .rest fun delta_inv => .rest fun decommit_vec => .rest fun decommit_others => ?_
  refine .rest fun bc1_others => .rest fun R => .rest fun _ => ?_
  refine (signPhase5_robust laws _ _ _ _ _ _ _ _ _).mono fun text htext => ?_
  obtain ⟨sig, rfl, hvalid⟩ := htext
  exact ⟨output, sig, houtput, rfl, hvalid⟩

/-- Any number of signers with any inputs, and anybody who sets and removes entries between their steps: whoever
returns, returns a signature of its message under the public key of its own key, and all that a signer has
written are the entries of its own number and session, each once and in the order of the rounds. -/
theorem signatures_survive_tampering {P : Type} [DecidableEq P] (laws : VerifyLaws S xCoord g)
    (input : P → Option (SignInput L)) (actions : List (OpenAction P String String))
    (net : Net P String String (SignNote S) String)
    (hrun : Machine.exec Net.openStep (Net.start fun p => (input p).map fun a => a.process S) actions = some net) :
    ∀ p a, input p = some a → (∀ text, net.output p = some text → a.Signed S xCoord g text) ∧
      ∀ party, net.party p = some party →
        party.wrote.map Prod.fst <+: writes (exchangePlan a.number a.count a.uuid signRounds) ∧
          (party.wrote.map Prod.fst).Nodup := by
  have hunharmed := unharmed_of_run
    (fun p => (input p).elim [] fun a => exchangePlan a.number a.count a.uuid signRounds)
    (fun p text => ∃ a, input p = some a ∧ a.Signed S xCoord g text)
    (fun p x hx => by
      obtain ⟨a, ha, rfl⟩ := Option.map_eq_some_iff.mp hx
      rw [ha]
      exact ⟨sign_follows a, (sign_robust laws a).mono fun text htext => ⟨a, rfl, htext⟩⟩) hrun
  intro p a ha
  refine ⟨fun text htext => ?_, fun party hp => ?_⟩
  · obtain ⟨party, hp, hcur⟩ := output_eq_some.mp htext
    obtain ⟨b, hb, hsigned⟩ := (hunharmed p party hp).returned hcur
    obtain rfl := Option.some.inj (ha.symm.trans hb)
    exact hsigned
  · have hfront := (hunharmed p party hp).wrote_front
    rw [ha] at hfront
    exact ⟨hfront, (exchange_nodup a.number a.count a.uuid signRounds_wellNamed).sublist hfront.sublist⟩

end Safety

/-! ### Two signers and somebody else -/

/-- The sum of some bytes. -/
def byteSum (bytes : List UInt8) : Nat := (bytes.map UInt8.toNat).sum

/-- The small library, whose bytes add up to the number, with a `verify` that reads them. -/
def SignLibrary.checked : SignLibrary KeygenLibrary.small :=
  { SignLibrary.signing with
    verify := fun msg sig raw_pk => some (decide (Ecdsa.Valid (fun P : ZMod 3 => P * P) 1 (byteSum raw_pk : ZMod 3)
      (byteSum msg : ZMod 3) (byteSum (sig.take 32) : ZMod 3) (byteSum (sig.drop 32) : ZMod 3))) }

theorem byteSum_pad32 {bytes padded : List UInt8} (h : pad32 bytes = some padded) :
    padded.length = 32 ∧ byteSum padded = byteSum bytes := by
  unfold pad32 at h
  split_ifs at h with hlen
  obtain rfl := Option.some.inj h
  refine ⟨by rw [List.length_append, List.length_replicate]; omega, ?_⟩
  simp [byteSum]

theorem byteSum_val (x : ZMod 3) : (byteSum [UInt8.ofNat x.val] : ZMod 3) = x := by
  revert x
  decide

theorem SignLibrary.checked_laws : VerifyLaws SignLibrary.checked (fun P : ZMod 3 => P * P) 1 := by
  refine ⟨fun r s pk message msg bytes_r bytes_s hmsg hr hs hverify => ?_⟩
  obtain ⟨-, hmsg⟩ := byteSum_pad32 hmsg
  obtain ⟨hlength, hr⟩ := byteSum_pad32 hr
  obtain ⟨-, hs⟩ := byteSum_pad32 hs
  have hvalid := of_decide_eq_true (Option.some.inj hverify)
  have hmessage : byteSum (KeygenLibrary.small.toBytes message) = message := by
    simp [byteSum, KeygenLibrary.small]
  have hpk : (byteSum (rawPk SignLibrary.checked pk) : ZMod 3) = pk := byteSum_val pk
  have hscalar : ∀ x : ZMod 3, (byteSum (SignLibrary.checked.scalarToBytes x) : ZMod 3) = x := byteSum_val
  rwa [List.take_left' hlength, List.drop_left' hlength, hmsg, hr, hs, hmessage, hpk, hscalar, hscalar] at hvalid

/-- The keys of two parties, for either signer. -/
def checkedSigner (p : Nat) : Option (SignInput KeygenLibrary.small) :=
  letI := Serde.numeric (ZMod 3)
  if p = 1 ∨ p = 2 then
    some ⟨.release, 1, Serde.toStr (smallOutput (3 - p)), "message", fun _ => (p - 1 : Nat), ⟨p, "session"⟩⟩
  else none

/-- Somebody sets the first entry of signer 1 before it does, and removes it in the end. -/
def tamperedSigning : Option (Net Nat String String (SignNote SignLibrary.checked) String) :=
  letI := Serde.numeric Nat
  letI := Serde.numeric (ZMod 3)
  Machine.exec Net.openStep (Net.start fun p => (checkedSigner p).map fun a => a.process SignLibrary.checked)
    (.tamper (broadcastKey 1 "round0" "session") (some "") :: (List.range 46).map (fun i => .move (i % 2 + 1)) ++
      [.tamper (broadcastKey 1 "round0" "session") none])

/-- Both return a signature. -/
theorem tampered_signers_sign :
    letI := Serde.numeric Nat
    letI := Serde.numeric (ZMod 3)
    ∃ net a text, tamperedSigning = some net ∧ checkedSigner 1 = some a ∧ net.output 1 = some text ∧
      a.Signed SignLibrary.checked (fun P : ZMod 3 => P * P) 1 text := by
  have hrun : (tamperedSigning.map fun net => (net.output 1).isSome) = some true := by
    decide +kernel
  let _ := Serde.numeric Nat
  let _ := Serde.numeric (ZMod 3)
  obtain ⟨net, hnet, hfinished⟩ := Option.map_eq_some_iff.mp hrun
  obtain ⟨text, htext⟩ := Option.isSome_iff_exists.mp hfinished
  exact ⟨net, _, text, hnet, rfl, htext,
    (signatures_survive_tampering SignLibrary.checked_laws checkedSigner _ net hnet 1 _ rfl).1 text htext⟩

end Gg18
