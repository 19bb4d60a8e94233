import MultiPartyTss.Gg18.Format
import MultiPartyTss.Gg18.Session

/-!
# Signing of one GG18 party

`sign` after its signup, as a process over the map: a round for the key generation indices, the first
messages of the multiplications, their answers from party to party, and seven rounds of broadcasts. Rounds
5 to 9, which turn the shares into a signature, are `signPhase5`.
-/

namespace Gg18

open Proc Slots

variable {F G : Type} {L : KeygenLibrary F G} (S : SignLibrary L)

/-- Local values of `sign` that are stated about. -/
inductive SignNote where
  | created (sign_keys : S.SignKeys)
  | phase2 (delta_i sigma : F)
  | round4 (delta_inv : F) (R : G)

instance [DecidableEq F] [DecidableEq G] [DecidableEq S.SignKeys] : DecidableEq (SignNote S)
  | .created _, .created _ => decidable_of_iff _ (Iff.of_eq (SignNote.created.injEq ..)).symm
  | .phase2 _ _, .phase2 _ _ => decidable_of_iff _ (Iff.of_eq (SignNote.phase2.injEq ..)).symm
  | .round4 _ _, .round4 _ _ => decidable_of_iff _ (Iff.of_eq (SignNote.round4.injEq ..)).symm
  | .created _, .phase2 _ _ => isFalse nofun
  | .created _, .round4 _ _ => isFalse nofun
  | .phase2 _ _, .created _ => isFalse nofun
  | .phase2 _ _, .round4 _ _ => isFalse nofun
  | .round4 _ _, .created _ => isFalse nofun
  | .round4 _ _, .phase2 _ _ => isFalse nofun

/-! ### The message and the final check -/

/-- The bytes to sign: those of a hexadecimal text, or else of the text itself. -/
def messageBytes (msg : String) : List UInt8 :=
  match S.hexDecode msg with
  | some x => x
  | none => msg.toUTF8.data.toList

/-- Zeros in front up to 32 bytes; the subtraction panics if there are more. -/
def pad32 (bytes : List UInt8) : Option (List UInt8) :=
  if bytes.length ≤ 32 then some (List.replicate (32 - bytes.length) 0 ++ bytes) else none

/-- An uncompressed point with its leading byte. -/
def rawPk (pk : G) : List UInt8 :=
  let raw_pk := S.pointToBytes pk
  if raw_pk.length = 64 then 4 :: raw_pk else raw_pk

/-- `check_sig`; `none` is a panic. -/
def checkSig (r s : F) (msg : Nat) (pk : G) : Option Unit := do
  let msg ← pad32 (L.toBytes msg)
  let bytes_r ← pad32 (S.scalarToBytes r)
  let bytes_s ← pad32 (S.scalarToBytes s)
  let is_correct ← S.verify msg (bytes_r ++ bytes_s) (rawPk S pk)
  if is_correct then some () else none

/-- The JSON of a signature. -/
def signJson (sig : S.SignatureRecid) : String :=
  "\x7b\"r\":\"" ++ S.toStrRadix16 (L.fromBytes (S.scalarToBytes (S.r sig))) ++
    "\",\"s\":\"" ++ S.toStrRadix16 (L.fromBytes (S.scalarToBytes (S.s sig))) ++
    "\",\"v\":" ++ Nat.repr (S.recid sig) ++ "\x7d"

/-! ### The rounds -/

variable [Serde Nat] [Serde F]

/-- A broadcast of the own value, and the values of all signers in order. -/
def signRound {β ω : Type} [Serde β] (party_num n : Nat) (round uuid : String) (own : β) :
    PartyProc ω (List β) := do
  broadcast party_num round (Serde.toStr own) uuid
  let ans_vec ← pollForBroadcasts party_num n round uuid
  ofOption (formatVecFromReads ans_vec party_num own)

/-- The loop that sends the answers to the first messages; `j` counts the others. -/
def sendMessageBs (party_num_int : Nat) (uuid : String) (vecs : MessageBVecs S) :
    List Nat → Nat → PartyProc (SignNote S) Unit
  | [], _ => pure ()
  | i :: is, j =>
    if i = party_num_int then sendMessageBs party_num_int uuid vecs is j
    else do
      let m_b_gamma ← ofOption vecs.m_b_gamma_send_vec[j]?
      let m_b_w ← ofOption vecs.m_b_w_send_vec[j]?
      sendP2p party_num_int i "round2" (Serde.toStr (m_b_gamma, m_b_w)) uuid
      sendMessageBs party_num_int uuid vecs is (j + 1)

/-- Rounds 5 to 9: from the local signature to the signature. `n` is `threshold + 1`. -/
def signPhase5 (party_num_int threshold n : Nat) (uuid : String) (coins : SignDraw → L.Seed)
    (local_sig : S.LocalSignature) (R : G) (message_bn : Nat) (y_sum : G) :
    PartyProc (SignNote S) String := do
  let phase5a := S.phase5aBroadcast5bZkproof (coins .phase5a) local_sig
  let phase5_com := phase5a.1
  -- phase (5A) broadcast commit
  let commit5a_vec ← signRound party_num_int n "round5" uuid phase5_com
  -- phase (5B) broadcast decommit and (5B) ZK proof
  let decommit5a_and_elgamal_and_dlog_vec_includes_i ←
    signRound party_num_int n "round6" uuid phase5a.2
  let decommit5a_and_elgamal_and_dlog_vec ←
    ofOption (removeAt decommit5a_and_elgamal_and_dlog_vec_includes_i (party_num_int - 1))
  let commit5a_others ← ofOption (removeAt commit5a_vec (party_num_int - 1))
  let others5a ← ofOption
    ((List.range threshold).mapM fun i => decommit5a_and_elgamal_and_dlog_vec.2[i]?)
  let phase5c ← ofOption (S.phase5c (coins .phase5c) local_sig (others5a.map fun d => d.1)
    commit5a_others.2 (others5a.map fun d => d.2.1) (others5a.map fun d => d.2.2) (S.v_i phase5a.2.1) R)
  let commit5c_vec ← signRound party_num_int n "round7" uuid phase5c.1
  let decommit5d_vec ← signRound party_num_int n "round8" uuid phase5c.2
  let phase_5a_decomm_vec_includes_i ← ofOption ((List.range (threshold + 1)).mapM fun i =>
    decommit5a_and_elgamal_and_dlog_vec_includes_i[i]?.map fun d => d.1)
  let s_i ← ofOption (S.phase5d local_sig decommit5d_vec commit5c_vec phase_5a_decomm_vec_includes_i)
  let s_i_vec ← signRound party_num_int n "round9" uuid s_i
  let s_i_others ← ofOption (removeAt s_i_vec (party_num_int - 1))
  let sig ← ofOption (S.outputSignature local_sig s_i_others.2)
  ofOption (checkSig S (S.r sig) (S.s sig) message_bn y_sum)
  pure (signJson S sig)

/-- `sign` after `get_party_signup`. -/
def sign [DecidableEq G] [Field F] [AddCommGroup G] [Module F G] (build : U16.Build) (threshold : Nat)
    (key msg : String) (coins : SignDraw → L.Seed) (party_signup : PartySignup) :
    PartyProc (SignNote S) String := do
  let message := messageBytes S msg
  let output : L.Output ← ofOption (Serde.fromStr key)
  let party_keys := output.party_keys
  let party_id := output.party_id
  let vss_scheme_vec := output.vss_scheme_vec
  let party_num_int := party_signup.number
  let uuid := party_signup.uuid
  -- round 0: collect signers IDs
  broadcast party_num_int "round0" (Serde.toStr party_id) uuid
  let n ← ofOption (U16.addOne build threshold)
  let round0_ans_vec ← pollForBroadcasts party_num_int n "round0" uuid
  let signers_vec ← ofOption (formatSigners build party_num_int party_id round0_ans_vec threshold)
  let index ← ofOption signers_vec[party_num_int - 1]?
  let vss_scheme ← ofOption vss_scheme_vec[index]?
  let sign_keys := S.create (coins .create) (S.setPrivate party_keys output.shared_keys) vss_scheme index
    signers_vec
  record (.created sign_keys)
  let xi_com_vec := S.getCommitmentsToXi vss_scheme_vec
  let com := (S.phase1Broadcast (coins .broadcast) sign_keys).1
  let decommit := (S.phase1Broadcast (coins .broadcast) sign_keys).2
  let m_a_k := S.messageA (coins .messageA) (S.k_i sign_keys) (L.ek party_keys)
  broadcast party_num_int "round1" (Serde.toStr (com, m_a_k)) uuid
  let round1_ans_vec ← pollForBroadcasts party_num_int n "round1" uuid
  let round1 ← ofOption
    (formatBroadcastPhase1AndMessageAVec S build threshold party_num_int com round1_ans_vec)
  let bc1_vec := round1.1
  let m_a_vec := round1.2
  ofOption (if signers_vec.length = bc1_vec.length then some () else none)
  let vecs ← ofOption (formatMessageBAndNiVec S build threshold party_num_int coins sign_keys
    output.paillier_key_vec m_a_vec signers_vec)
  sendMessageBs S party_num_int uuid vecs (List.range' 1 n) 0
  let round2_ans_vec ← pollForP2p party_num_int n "round2" uuid
  let received ← ofOption (formatRound2RecGammaAndWVec S threshold round2_ans_vec)
  let alphas ← ofOption (formatRound2AlphaAndMiuVec S build threshold party_num_int received.1 received.2
    xi_com_vec vss_scheme_vec party_keys sign_keys signers_vec)
  let delta_i ← ofOption (S.phase2DeltaI sign_keys alphas.1 vecs.beta_vec)
  let sigma ← ofOption (S.phase2SigmaI sign_keys alphas.2 vecs.ni_vec)
  record (.phase2 delta_i sigma)
  let delta_vec ← signRound party_num_int n "round3" uuid delta_i
  let delta_inv ← ofOption (S.phase3ReconstructDelta delta_vec)
  -- decommit to gamma_i
  let decommit_vec ← signRound party_num_int n "round4" uuid decommit
  let decommit_others ← ofOption (removeAt decommit_vec (party_num_int - 1))
  let bc1_others ← ofOption (removeAt bc1_vec (party_num_int - 1))
  let R ← ofOption (S.phase4 delta_inv (received.1.map S.b_proof) decommit_others.2 bc1_others.2)
  -- adding local g_gamma_i
  let R := R + delta_inv • S.g_gamma_i decommit_others.1
  record (.round4 delta_inv R)
  -- we assume the message is already hashed (by the signer)
  let message_bn := L.fromBytes message
  let local_sig := S.phase5LocalSig (coins .localSig) (S.k_i sign_keys) message_bn R sigma output.y_sum
  signPhase5 S party_num_int threshold n uuid coins local_sig R message_bn output.y_sum

/-! ### A small library -/

/-- A library over the integers modulo 3, for runs on given inputs: the first message is the secret with the
encryption key, and the answer is the product less the share kept, which is wrong under any other key. -/
def SignLibrary.small : SignLibrary KeygenLibrary.small where
  DecryptionKey := Nat
  PartyPrivate := ZMod 3
  SignKeys := Nat × ZMod 3
  SignBroadcastPhase1 := Nat
  SignDecommitPhase1 := ZMod 3
  MessageA := ZMod 3 × Nat
  MessageB := Nat × ZMod 3
  LocalSignature := Nat
  Phase5Com1 := Nat
  Phase5ADecom1 := Nat
  HomoELGamalProof := Nat
  Phase5Com2 := Nat
  Phase5DDecom2 := Nat
  SignatureRecid := Nat
  dk keys := keys
  setPrivate _ shared_keys := shared_keys
  create seed private_x _ _ _ := (seed, private_x)
  k_i sign_keys := sign_keys.1
  gamma_i sign_keys := sign_keys.1 + 2
  w_i sign_keys := sign_keys.2
  getCommitmentsToXi vss_scheme_vec := vss_scheme_vec.map fun _ => 0
  updateCommitmentsToXi _ _ _ _ := 0
  phase1Broadcast seed sign_keys := (seed, sign_keys.1 + 2)
  g_gamma_i decommit := decommit
  messageA _ k_i ek := (k_i, ek)
  messageB (seed : Nat) b (ek : Nat) m_a := some ((ek, if ek = m_a.2 then m_a.1 * b - seed else 0), seed)
  b_proof _ := (0 : Nat)
  pk _ := 0
  verifyProofsGetAlpha m_b dk _ := some (if m_b.1 = dk then m_b.2 else 0)
  phase2DeltaI sign_keys alpha_vec beta_vec :=
    if alpha_vec.length = beta_vec.length then
      some ((sign_keys.1 : ZMod 3) * (sign_keys.1 + 2) + alpha_vec.sum + beta_vec.sum)
    else none
  phase2SigmaI sign_keys miu_vec ni_vec :=
    some ((sign_keys.1 : ZMod 3) * sign_keys.2 + miu_vec.sum + ni_vec.sum)
  -- every unit is its own inverse
  phase3ReconstructDelta delta_vec := if delta_vec.sum = 0 then none else some delta_vec.sum
  phase4 delta_inv _ decommit_vec _ := some (delta_inv * decommit_vec.sum)
  phase5LocalSig seed _ _ _ _ _ := seed
  phase5aBroadcast5bZkproof seed _ := (seed, seed, seed, seed)
  v_i _ := 0
  phase5c seed _ _ _ _ _ _ _ := some (seed, seed)
  phase5d _ _ _ _ := some 0
  outputSignature _ s_i_vec := some s_i_vec.length
  r _ := 0
  s _ := 0
  recid sig := sig
  hexDecode _ := none
  scalarToBytes x := [UInt8.ofNat x.val]
  pointToBytes x := [UInt8.ofNat x.val]
  toStrRadix16 := Nat.repr
  verify _ _ _ := some true
  serdeRound1 := Serde.numeric (Nat × ZMod 3 × Nat)
  serdeRound2 := Serde.numeric ((Nat × ZMod 3) × Nat × ZMod 3)
  serdeDecommit := Serde.numeric (ZMod 3)
  serdeCom1 := Serde.numeric Nat
  serdeRound6 := Serde.numeric (Nat × Nat × Nat)
  serdeCom2 := Serde.numeric Nat
  serdeDecom2 := Serde.numeric Nat

instance : DecidableEq SignLibrary.small.SignKeys := inferInstanceAs (DecidableEq (Nat × ZMod 3))

end Gg18
