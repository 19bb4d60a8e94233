import MultiPartyTss.Gg18.KeygenProgress
import MultiPartyTss.Gg18.SignAlgebra

/-!
# Signing does not deadlock

As `KeygenProgress` for `sign`. The bound of the last loop of round 2 overflows at 65535 signers; then all of
them panic there, and there the plans end (`signPlan`).
-/

namespace Gg18

open Proc Slots Network

variable {F G : Type} {L : KeygenLibrary F G} {S : SignLibrary L}

/-! ### Vectors -/

section Vectors

variable {p : Nat} {is : List Nat} {signers_vec : List Nat}

theorem formatMessageBAndNiLoop_eq {coins : SignDraw → L.Seed} {sign_keys : S.SignKeys}
    {paillier_key_vector : List L.EncryptionKey} {m_a_vec : List S.MessageA} {m : Nat → S.MessageA}
    {ek : Nat → L.EncryptionKey} {answer : Nat → (S.MessageB × F) × (S.MessageB × F)} {j : Nat}
    (hma : m_a_vec.drop j = (others p is).map m)
    (hek : ∀ i ∈ others p is, ∃ index, signers_vec[i - 1]? = some index ∧
      paillier_key_vector[index]? = some (ek i))
    (hgamma : ∀ i ∈ others p is,
      S.messageB (coins (.messageBGamma i)) (S.gamma_i sign_keys) (ek i) (m i) = some (answer i).1)
    (hw : ∀ i ∈ others p is,
      S.messageB (coins (.messageBW i)) (S.w_i sign_keys) (ek i) (m i) = some (answer i).2) :
    formatMessageBAndNiLoop S p coins sign_keys paillier_key_vector m_a_vec signers_vec is j =
      some ⟨(others p is).map fun i => (answer i).1.1, (others p is).map fun i => (answer i).1.2,
        (others p is).map fun i => (answer i).2.1, (others p is).map fun i => (answer i).2.2⟩ := by
  induction is generalizing j with
  | nil => rfl
  | cons i is ih =>
    by_cases hip : i = p
    · subst hip
      rw [others_self] at hma hek hgamma hw ⊢
      rw [formatMessageBAndNiLoop, if_pos rfl]
      exact ih hma hek hgamma hw
    · rw [others_of_ne is hip] at hma hek hgamma hw ⊢
      obtain ⟨hget, hrest⟩ := drop_eq_cons hma
      obtain ⟨index, hindex, hkey⟩ := hek i List.mem_cons_self
      rw [formatMessageBAndNiLoop, if_neg hip, hget, hindex]
      simp only [Option.bind_eq_bind, Option.bind_some, hkey, hgamma i List.mem_cons_self,
        hw i List.mem_cons_self]
      rw [ih hrest (fun i hi => hek i (List.mem_cons_of_mem _ hi))
        (fun i hi => hgamma i (List.mem_cons_of_mem _ hi)) fun i hi => hw i (List.mem_cons_of_mem _ hi)]
      rfl

theorem formatRound2AlphaAndMiuLoop_eq [DecidableEq G] {m_b_gamma_rec_vec m_b_w_rec_vec : List S.MessageB}
    {xi_com_vec : List G} {vss_scheme_vec : List L.VerifiableSS} {party_keys : L.Keys} {sign_keys : S.SignKeys}
    {m_b_gamma m_b_w : Nat → S.MessageB} {product : Nat → F × F} {j : Nat}
    (hrec_gamma : m_b_gamma_rec_vec.drop j = (others p is).map m_b_gamma)
    (hrec_w : m_b_w_rec_vec.drop j = (others p is).map m_b_w)
    (halpha : ∀ i ∈ others p is,
      S.verifyProofsGetAlpha (m_b_gamma i) (S.dk party_keys) (S.k_i sign_keys) = some (product i).1)
    (hmiu : ∀ i ∈ others p is,
      S.verifyProofsGetAlpha (m_b_w i) (S.dk party_keys) (S.k_i sign_keys) = some (product i).2)
    (hpk : ∀ i ∈ others p is, ∃ index xi_com vss_scheme, signers_vec[i - 1]? = some index ∧
      xi_com_vec[index]? = some xi_com ∧ vss_scheme_vec[index]? = some vss_scheme ∧
      S.pk (S.b_proof (m_b_w i)) = S.updateCommitmentsToXi xi_com vss_scheme index signers_vec) :
    formatRound2AlphaAndMiuLoop S p m_b_gamma_rec_vec m_b_w_rec_vec xi_com_vec vss_scheme_vec party_keys
      sign_keys signers_vec is j =
        some ((others p is).map fun i => (product i).1, (others p is).map fun i => (product i).2) := by
  induction is generalizing j with
  | nil => rfl
  | cons i is ih =>
    by_cases hip : i = p
    · subst hip
      rw [others_self] at hrec_gamma hrec_w halpha hmiu hpk ⊢
      rw [formatRound2AlphaAndMiuLoop, if_pos rfl]
      exact ih hrec_gamma hrec_w halpha hmiu hpk
    · rw [others_of_ne is hip] at hrec_gamma hrec_w halpha hmiu hpk ⊢
      obtain ⟨hget, hrest⟩ := drop_eq_cons hrec_gamma
      obtain ⟨hget_w, hrest_w⟩ := drop_eq_cons hrec_w
      obtain ⟨index, xi_com, vss_scheme, hindex, hxi, hvss, heq⟩ := hpk i List.mem_cons_self
      rw [formatRound2AlphaAndMiuLoop, if_neg hip, hget, hget_w, hindex]
      simp only [Option.bind_eq_bind, Option.bind_some, halpha i List.mem_cons_self, hmiu i List.mem_cons_self,
        hxi, hvss, if_pos heq]
      rw [ih hrest hrest_w (fun i hi => halpha i (List.mem_cons_of_mem _ hi))
        (fun i hi => hmiu i (List.mem_cons_of_mem _ hi)) fun i hi => hpk i (List.mem_cons_of_mem _ hi)]
      rfl

theorem formatRound2AlphaAndMiuVec_overflow [DecidableEq G] {build : U16.Build} {t : Nat}
    {m_b_gamma_rec_vec m_b_w_rec_vec : List S.MessageB} {xi_com_vec : List G}
    {vss_scheme_vec : List L.VerifiableSS} {party_keys : L.Keys} {sign_keys : S.SignKeys} {out : List F × List F}
    (ht : t + 1 < U16.size) (hsize : ¬ t + 2 < U16.size)
    (h : formatRound2AlphaAndMiuVec S build t p m_b_gamma_rec_vec m_b_w_rec_vec xi_com_vec vss_scheme_vec
      party_keys sign_keys signers_vec = some out) : out = ([], []) := by
  obtain ⟨stop, hstop, h⟩ := Option.bind_eq_some_iff.mp h
  have hzero : stop - 1 = 0 := by
    unfold U16.add at hstop
    rw [if_neg hsize] at hstop
    cases build with
    | debug => exact (Option.some_ne_none stop hstop.symm).elim
    | release =>
      obtain rfl := Option.some.inj hstop
      rw [show t + 2 = U16.size by omega, Nat.mod_self]
  rw [hzero] at h
  exact (Option.some.inj h).symm

end Vectors

/-! ### The values of a signing -/

/-- The rounds up to the panic, if the number of signers plus one overflows. -/
def signPlan (t : Nat) : List Round :=
  signRounds.take 4 ++ if t + 2 < U16.size then signRounds.drop 4 else []

theorem signPlan_supplied (t : Nat) : Supplied [] (signPlan t) := by
  unfold signPlan
  split_ifs <;> simp [signRounds, Supplied]

/-- Signers `1..=t+1`. -/
def signers (t : Nat) : List Nat := List.range' 1 (t + 1)

theorem mem_signers {t p : Nat} : p ∈ signers t ↔ 1 ≤ p ∧ p ≤ t + 1 := by
  rw [signers, List.mem_range'_1]
  omega

/-- A signer's own value and those of the others. -/
theorem removeAt_signers {β : Type} {t p : Nat} (hp : p ∈ signers t) (m : Nat → β) :
    removeAt ((signers t).map m) (p - 1) = some (m p, (others p (signers t)).map m) :=
  removeAt_map m (mem_signers.mp hp).1 (mem_signers.mp hp).2

theorem getElem?_signers {β : Type} {t p : Nat} (hp : p ∈ signers t) (m : Nat → β) :
    ((signers t).map m)[p - 1]? = some (m p) := by
  obtain ⟨hpos, hle⟩ := mem_signers.mp hp
  exact getElem?_map_range' m hpos (by omega)

variable [Serde Nat] [Serde F] [DecidableEq G] [Field F] [AddCommGroup G] [Module F G]

/-- What the library returns to signers `1..=t+1` that have keys of one key generation, if all its checks
pass. Where there are two arguments, the first is the signer that has the value. -/
structure SignTranscript (S : SignLibrary L) (t : Nat) (key : Nat → String) (msg : String)
    (coins : Nat → SignDraw → L.Seed) where
  output : Nat → L.Output
  vss_scheme : Nat → Nat → L.VerifiableSS
  ek : Nat → Nat → L.EncryptionKey
  xi_com : Nat → Nat → G
  sign_keys : Nat → S.SignKeys
  answer : Nat → Nat → (S.MessageB × F) × (S.MessageB × F)
  product : Nat → Nat → F × F
  delta_i : Nat → F
  sigma : Nat → F
  delta_inv : F
  R_others : Nat → G
  phase5c : Nat → S.Phase5Com2 × S.Phase5DDecom2
  s_i : Nat → F
  sig : Nat → S.SignatureRecid
  reads : ∀ p ∈ signers t, Serde.fromStr (key p) = some (output p)
  party_id_pos : ∀ p ∈ signers t, 1 ≤ (output p).party_id
  vss_scheme_eq : ∀ p ∈ signers t, ∀ i ∈ signers t,
    (output p).vss_scheme_vec[(output i).party_id - 1]? = some (vss_scheme p i)
  ek_eq : ∀ p ∈ signers t, ∀ i ∈ signers t,
    (output p).paillier_key_vec[(output i).party_id - 1]? = some (ek p i)
  xi_com_eq : ∀ p ∈ signers t, ∀ i ∈ signers t,
    (S.getCommitmentsToXi (output p).vss_scheme_vec)[(output i).party_id - 1]? = some (xi_com p i)
  sign_keys_eq : ∀ p ∈ signers t, sign_keys p = S.create (coins p .create)
    (S.setPrivate (output p).party_keys (output p).shared_keys) (vss_scheme p p) ((output p).party_id - 1)
    ((signers t).map fun i => (output i).party_id - 1)
  gamma_eq : ∀ p ∈ signers t, ∀ i ∈ others p (signers t),
    S.messageB (coins p (.messageBGamma i)) (S.gamma_i (sign_keys p)) (ek p i)
      (S.messageA (coins i .messageA) (S.k_i (sign_keys i)) (L.ek (output i).party_keys)) = some (answer p i).1
  w_eq : ∀ p ∈ signers t, ∀ i ∈ others p (signers t),
    S.messageB (coins p (.messageBW i)) (S.w_i (sign_keys p)) (ek p i)
      (S.messageA (coins i .messageA) (S.k_i (sign_keys i)) (L.ek (output i).party_keys)) = some (answer p i).2
  alpha_eq : ∀ p ∈ signers t, ∀ i ∈ others p (signers t),
    S.verifyProofsGetAlpha (answer i p).1.1 (S.dk (output p).party_keys) (S.k_i (sign_keys p)) =
      some (product p i).1
  miu_eq : ∀ p ∈ signers t, ∀ i ∈ others p (signers t),
    S.verifyProofsGetAlpha (answer i p).2.1 (S.dk (output p).party_keys) (S.k_i (sign_keys p)) =
      some (product p i).2
  pk_eq : ∀ p ∈ signers t, ∀ i ∈ others p (signers t), S.pk (S.b_proof (answer i p).2.1) =
    S.updateCommitmentsToXi (xi_com p i) (vss_scheme p i) ((output i).party_id - 1)
      ((signers t).map fun i => (output i).party_id - 1)
  delta_eq : ∀ p ∈ signers t, S.phase2DeltaI (sign_keys p)
    ((others p (signers t)).map fun i => (product p i).1)
    ((others p (signers t)).map fun i => (answer p i).1.2) = some (delta_i p)
  sigma_eq : ∀ p ∈ signers t, S.phase2SigmaI (sign_keys p)
    ((others p (signers t)).map fun i => (product p i).2)
    ((others p (signers t)).map fun i => (answer p i).2.2) = some (sigma p)
  delta_inv_eq : S.phase3ReconstructDelta ((signers t).map delta_i) = some delta_inv
  R_eq : ∀ p ∈ signers t, S.phase4 delta_inv ((others p (signers t)).map fun i => S.b_proof (answer i p).1.1)
    ((others p (signers t)).map fun i => (S.phase1Broadcast (coins i .broadcast) (sign_keys i)).2)
    ((others p (signers t)).map fun i => (S.phase1Broadcast (coins i .broadcast) (sign_keys i)).1) =
      some (R_others p)
  R : Nat → G
  R_sum : ∀ p ∈ signers t,
    R p = R_others p + delta_inv • S.g_gamma_i (S.phase1Broadcast (coins p .broadcast) (sign_keys p)).2
  local_sig : Nat → S.LocalSignature
  local_sig_eq : ∀ p ∈ signers t, local_sig p = S.phase5LocalSig (coins p .localSig) (S.k_i (sign_keys p))
    (L.fromBytes (messageBytes S msg)) (R p) (sigma p) (output p).y_sum
  phase5a : Nat → S.Phase5Com1 × S.Phase5ADecom1 × S.HomoELGamalProof × L.DLogProof
  phase5a_eq : ∀ p ∈ signers t, phase5a p = S.phase5aBroadcast5bZkproof (coins p .phase5a) (local_sig p)
  phase5c_eq : ∀ p ∈ signers t, S.phase5c (coins p .phase5c) (local_sig p)
    ((others p (signers t)).map fun i => (phase5a i).2.1) ((others p (signers t)).map fun i => (phase5a i).1)
    ((others p (signers t)).map fun i => (phase5a i).2.2.1)
    ((others p (signers t)).map fun i => (phase5a i).2.2.2) (S.v_i (phase5a p).2.1) (R p) = some (phase5c p)
  s_i_eq : ∀ p ∈ signers t, S.phase5d (local_sig p) ((signers t).map fun i => (phase5c i).2)
    ((signers t).map fun i => (phase5c i).1) ((signers t).map fun i => (phase5a i).2.1) = some (s_i p)
  sig_eq : ∀ p ∈ signers t, S.outputSignature (local_sig p) ((others p (signers t)).map s_i) = some (sig p)
  check_eq : ∀ p ∈ signers t, checkSig S (S.r (sig p)) (S.s (sig p)) (L.fromBytes (messageBytes S msg))
    (output p).y_sum = some ()

namespace SignTranscript

variable {build : U16.Build} {t : Nat} {key : Nat → String} {msg : String} {coins : Nat → SignDraw → L.Seed}
  {uuid : String}

section Values

variable (T : SignTranscript S t key msg coins)

def com (p : Nat) : S.SignBroadcastPhase1 := (S.phase1Broadcast (coins p .broadcast) (T.sign_keys p)).1

def decommit (p : Nat) : S.SignDecommitPhase1 := (S.phase1Broadcast (coins p .broadcast) (T.sign_keys p)).2

def m_a (p : Nat) : S.MessageA := S.messageA (coins p .messageA) (S.k_i (T.sign_keys p)) (L.ek (T.output p).party_keys)

/-- What signer `p` broadcasts, by the round. -/
def broadcasts (p : Nat) : List (String × String) :=
  [("round0", Serde.toStr (T.output p).party_id), ("round1", Serde.toStr (T.com p, T.m_a p)),
    ("round3", Serde.toStr (T.delta_i p)), ("round4", Serde.toStr (T.decommit p)),
    ("round5", Serde.toStr (T.phase5a p).1), ("round6", Serde.toStr (T.phase5a p).2),
    ("round7", Serde.toStr (T.phase5c p).1), ("round8", Serde.toStr (T.phase5c p).2),
    ("round9", Serde.toStr (T.s_i p))]

def Expected (uuid : String) : String → String → Prop :=
  Gg18.Expected (t + 1) uuid (fun p round v => (round, v) ∈ T.broadcasts p) fun p i v =>
    v = Serde.toStr ((T.answer p i).1.1, (T.answer p i).2.1)

end Values

variable {T : SignTranscript S t key msg coins}

omit [DecidableEq G] in
theorem broadcast_expected {p : Nat} {round v : String} (hp : p ∈ signers t) (hr : RoundName round)
    (hv : (round, v) ∈ T.broadcasts p) : T.Expected uuid (broadcastKey p round uuid) v := by
  have hbounds := mem_signers.mp hp
  exact ⟨p, by omega, .broadcast hr hv⟩

/-! ### One signer -/

variable {p : Nat}

omit [DecidableEq G] in
theorem sendMessageBs_completes (hp : p ∈ signers t) {vecs : MessageBVecs S} {is : List Nat} {j : Nat}
    (hgamma : vecs.m_b_gamma_send_vec.drop j = (others p is).map fun i => (T.answer p i).1.1)
    (hw : vecs.m_b_w_send_vec.drop j = (others p is).map fun i => (T.answer p i).2.1) :
    (sendMessageBs S p uuid vecs is j).Completes (T.Expected uuid) False
      ((others p is).map fun i => .put (p2pKey p i "round2" uuid)) fun _ => True := by
  induction is generalizing j with
  | nil => exact completes_pure trivial
  | cons i is ih =>
    by_cases hip : i = p
    · subst hip
      rw [others_self] at hgamma hw ⊢
      rw [sendMessageBs, if_pos rfl]
      exact ih hgamma hw
    · rw [others_of_ne is hip] at hgamma hw ⊢
      obtain ⟨hget, hrest⟩ := drop_eq_cons hgamma
      obtain ⟨hget_w, hrest_w⟩ := drop_eq_cons hw
      rw [sendMessageBs, if_neg hip]
      apply Completes.ofOptionBind hget
      apply Completes.ofOptionBind hget_w
      have hbounds := mem_signers.mp hp
      exact Completes.writeBind ⟨p, by omega, .send (by decide) rfl⟩ (ih hrest hrest_w)

omit [DecidableEq G] in
/-- A round of broadcasts, if the table of the signers has `m i` for signer `i`. -/
theorem signRound_completes {β : Type} [Serde β] {m : Nat → β} {round : String} (hp : p ∈ signers t)
    (hr : RoundName round) (hm : (round, Serde.toStr (m p)) ∈ T.broadcasts p)
    (hread : ∀ i v, (round, v) ∈ T.broadcasts i → v = Serde.toStr (m i)) :
    (signRound p (t + 1) round uuid (m p) : PartyProc (SignNote S) (List β)).Completes (T.Expected uuid) False
      (roundPlan p (t + 1) round uuid) fun vec => vec = (signers t).map m := by
  have hbounds := mem_signers.mp hp
  exact mergeRound_completes (broadcast_expected hp hr hm) (fun i v h => hread i v (expected_broadcast hr h))
    (formatVecFromReads_eq m hbounds.1 (by omega))

omit [DecidableEq G] in
theorem signPhase5_completes (T : SignTranscript S t key msg coins) (hp : p ∈ signers t) (uuid : String)
    (crash : Prop) :
    (signPhase5 S p t (t + 1) uuid (coins p) (T.local_sig p) (T.R p) (L.fromBytes (messageBytes S msg))
      (T.output p).y_sum).Completes (T.Expected uuid) crash
      (exchangePlan p (t + 1) uuid (signRounds.drop 6)) fun _ => True := by
  have hbounds := mem_signers.mp hp
  have hlen : (others p (signers t)).length = t := length_others hbounds.1 hbounds.2
  rw [signPhase5, ← T.phase5a_eq p hp]
  -- phase (5A) broadcast commit
  refine (signRound_completes (m := fun i => (T.phase5a i).1) hp (by decide) (by simp [broadcasts])
    fun i v h => by simpa [broadcasts] using h).bind fun commit5a_vec hcommit => ?_
  subst hcommit
  -- phase (5B) broadcast decommit and (5B) ZK proof
  refine (signRound_completes (m := fun i => (T.phase5a i).2) hp (by decide) (by simp [broadcasts])
    fun i v h => by simpa [broadcasts] using h).bind fun includes_i hincludes => ?_
  subst hincludes
  apply Completes.ofOptionBind (removeAt_signers hp _)
  apply Completes.ofOptionBind (removeAt_signers hp _)
  apply Completes.ofOptionBind (mapM_range_self (by rw [List.length_map, hlen]))
  apply Completes.ofOptionBind (a := T.phase5c p)
  · rw [← T.phase5c_eq p hp]
    simp only [List.map_map, Function.comp_def]
  -- rounds 7 and 8
  refine (signRound_completes (m := fun i => (T.phase5c i).1) hp (by decide) (by simp [broadcasts])
    fun i v h => by simpa [broadcasts] using h).bind fun commit5c_vec hcommit5c => ?_
  subst hcommit5c
  refine (signRound_completes (m := fun i => (T.phase5c i).2) hp (by decide) (by simp [broadcasts])
    fun i v h => by simpa [broadcasts] using h).bind fun decommit5d_vec hdecommit5d => ?_
  subst hdecommit5d
  apply Completes.ofOptionBind (mapM_range_map (by rw [List.length_map, signers, List.length_range']))
  apply Completes.ofOptionBind (a := T.s_i p)
  · rw [← T.s_i_eq p hp, List.map_map]
    rfl
  -- round 9
  refine (signRound_completes (m := T.s_i) hp (by decide) (by simp [broadcasts])
    fun i v h => by simpa [broadcasts] using h).bind fun s_i_vec hs => ?_
  subst hs
  apply Completes.ofOptionBind (removeAt_signers hp _)
  apply Completes.ofOptionBind (T.sig_eq p hp)
  apply Completes.ofOptionBind (T.check_eq p hp)
  exact completes_pure trivial

omit [Serde Nat] [Serde F] in
theorem alphas_eq (T : SignTranscript S t key msg coins) (hp : p ∈ signers t) (hsize : t + 2 < U16.size) :
    formatRound2AlphaAndMiuVec S build t p ((others p (signers t)).map fun i => (T.answer i p).1.1)
      ((others p (signers t)).map fun i => (T.answer i p).2.1) (S.getCommitmentsToXi (T.output p).vss_scheme_vec)
      (T.output p).vss_scheme_vec (T.output p).party_keys (T.sign_keys p)
      ((signers t).map fun i => (T.output i).party_id - 1) =
        some ((others p (signers t)).map fun i => (T.product p i).1,
          (others p (signers t)).map fun i => (T.product p i).2) := by
  have hstop : U16.add build t 2 = some (t + 2) := if_pos hsize
  show (U16.add build t 2).bind _ = _
  rw [hstop, Option.bind_some]
  refine formatRound2AlphaAndMiuLoop_eq (j := 0) rfl rfl (T.alpha_eq p hp) (T.miu_eq p hp) fun i hi => ?_
  have himem : i ∈ signers t := (mem_others.mp hi).1
  refine ⟨(T.output i).party_id - 1, T.xi_com p i, T.vss_scheme p i, ?_, T.xi_com_eq p hp i himem,
    T.vss_scheme_eq p hp i himem, T.pk_eq p hp i hi⟩
  exact getElem?_signers himem fun i => (T.output i).party_id - 1

/-- `hlength` is an assertion of the library. -/
theorem sign_completes (T : SignTranscript S t key msg coins) (hp : p ∈ signers t) (ht : t + 1 < U16.size)
    (hlength : ∀ sign_keys alpha_vec beta_vec delta_i,
      S.phase2DeltaI sign_keys alpha_vec beta_vec = some delta_i → alpha_vec.length = beta_vec.length) :
    ((signerInput build t key msg coins uuid p).process S).Completes (T.Expected uuid) (¬ t + 2 < U16.size)
      (exchangePlan p (t + 1) uuid (signPlan t)) fun _ => True := by
  have hbounds := mem_signers.mp hp
  have hcount : U16.addOne build t = some (t + 1) := U16.addOne_of_lt ht
  have hmem : ∀ i ∈ others p (signers t), i ∈ signers t := fun i hi => (mem_others.mp hi).1
  unfold SignInput.process sign
  dsimp only [signerInput]
  apply Completes.ofOptionBind (T.reads p hp)
  -- round 0
  apply Completes.writeBind (broadcast_expected hp (by decide) (by simp [broadcasts]))
  apply Completes.ofOptionBind hcount
  refine (pollLoop_completes (m := fun i => Serde.toStr (T.output i).party_id) fun i v h => ?_).bind
    fun round0_ans_vec hans0 => ?_
  · simpa [broadcasts] using expected_broadcast (by decide : RoundName "round0") h
  subst hans0
  apply Completes.ofOptionBind (a := (signers t).map fun i => (T.output i).party_id - 1)
  · show (U16.addOne build t).bind _ = _
    rw [hcount, Option.bind_some]
    refine (formatSignersLoop_eq (m := fun i => (T.output i).party_id) rfl).trans (mapM_subOne fun i hi => ?_)
    exact T.party_id_pos i hi
  apply Completes.ofOptionBind (getElem?_signers hp _)
  apply Completes.ofOptionBind (T.vss_scheme_eq p hp p hp)
  rw [← T.sign_keys_eq p hp]
  apply Completes.recordBind
  -- round 1
  apply Completes.writeBind (broadcast_expected hp (by decide) (by simp [broadcasts, com, m_a]))
  refine (pollLoop_completes (m := fun i => Serde.toStr (T.com i, T.m_a i)) fun i v h => ?_).bind
    fun round1_ans_vec hans1 => ?_
  · simpa [broadcasts] using expected_broadcast (by decide : RoundName "round1") h
  subst hans1
  apply Completes.ofOptionBind (a := ((signers t).map T.com, (others p (signers t)).map T.m_a))
  · show (U16.addOne build t).bind _ = _
    rw [hcount, Option.bind_some]
    exact formatBroadcastPhase1AndMessageALoop_eq (m := fun i => (T.com i, T.m_a i)) rfl
  apply Completes.ofOptionBind (if_pos (by simp))
  -- round 2
  apply Completes.ofOptionBind (a := ⟨(others p (signers t)).map fun i => (T.answer p i).1.1,
    (others p (signers t)).map fun i => (T.answer p i).1.2, (others p (signers t)).map fun i => (T.answer p i).2.1,
    (others p (signers t)).map fun i => (T.answer p i).2.2⟩)
  · show (U16.addOne build t).bind _ = _
    rw [hcount, Option.bind_some]
    exact formatMessageBAndNiLoop_eq (m := T.m_a) rfl
      (fun i hi => ⟨_, getElem?_signers (hmem i hi) _, T.ek_eq p hp i (hmem i hi)⟩) (T.gamma_eq p hp) (T.w_eq p hp)
  refine (sendMessageBs_completes hp (j := 0) rfl rfl).bind fun _ _ => ?_
  refine (pollLoop_completes (m := fun i => Serde.toStr ((T.answer i p).1.1, (T.answer i p).2.1))
    fun i v h => expected_send (by decide) h).bind fun round2_ans_vec hans2 => ?_
  subst hans2
  apply Completes.ofOptionBind (a := ((others p (signers t)).map fun i => (T.answer i p).1.1,
    (others p (signers t)).map fun i => (T.answer i p).2.1))
  · show Option.bind ((List.range t).mapM fun i => _) _ = _
    rw [mapM_range_bind (by rw [List.length_map]; exact length_others hbounds.1 hbounds.2),
      mapM_map_eq fun i _ => Serde.round_trip ((T.answer i p).1.1, (T.answer i p).2.1), Option.bind_some,
      List.map_map, List.map_map]
    rfl
  by_cases hsize : t + 2 < U16.size
  · apply Completes.ofOptionBind (alphas_eq T hp hsize)
    apply Completes.ofOptionBind (T.delta_eq p hp)
    apply Completes.ofOptionBind (T.sigma_eq p hp)
    apply Completes.recordBind
    show Completes _ _ _ (exchangePlan p (t + 1) uuid (if t + 2 < U16.size then signRounds.drop 4 else [])) _
    rw [if_pos hsize]
    -- round 3
    refine (signRound_completes (m := T.delta_i) hp (by decide) (by simp [broadcasts])
      fun i v h => by simpa [broadcasts] using h).bind fun delta_vec hdelta => ?_
    subst hdelta
    apply Completes.ofOptionBind T.delta_inv_eq
    -- round 4
    refine (signRound_completes (m := T.decommit) hp (by decide) (by simp [broadcasts])
      fun i v h => by simpa [broadcasts] using h).bind fun decommit_vec hdecommit => ?_
    subst hdecommit
    apply Completes.ofOptionBind (removeAt_signers hp _)
    apply Completes.ofOptionBind (removeAt_signers hp _)
    apply Completes.ofOptionBind (a := T.R_others p)
    · rw [← T.R_eq p hp, List.map_map]
      rfl
    apply Completes.recordBind
    have hphase5 := signPhase5_completes T hp uuid (¬ t + 2 < U16.size)
    rw [T.local_sig_eq p hp, T.R_sum p hp] at hphase5
    exact hphase5
  · cases halphas : formatRound2AlphaAndMiuVec S build t p ((others p (signers t)).map fun i => (T.answer i p).1.1)
      ((others p (signers t)).map fun i => (T.answer i p).2.1) (S.getCommitmentsToXi (T.output p).vss_scheme_vec)
      (T.output p).vss_scheme_vec (T.output p).party_keys (T.sign_keys p)
      ((signers t).map fun i => (T.output i).party_id - 1) with
    | none =>
      show Completes _ _ _ (exchangePlan p (t + 1) uuid (if t + 2 < U16.size then signRounds.drop 4 else [])) _
      rw [if_neg hsize]
      exact Completes.panicBind hsize rfl
    | some alphas =>
      obtain rfl := formatRound2AlphaAndMiuVec_overflow ht hsize halphas
      apply Completes.ofOptionBind rfl
      show Completes _ _ _ (exchangePlan p (t + 1) uuid (if t + 2 < U16.size then signRounds.drop 4 else [])) _
      rw [if_neg hsize]
      refine Completes.panicBind hsize ?_
      -- nobody is alone, so the lengths differ
      rw [Option.eq_none_iff_forall_ne_some]
      intro delta_i hdelta
      have hlen := hlength _ _ _ _ hdelta
      have hothers := length_others hbounds.1 hbounds.2
      simp only [List.length_nil, List.length_map, signers, hothers] at hlen
      have hbig : 2 < U16.size := by decide
      omega

/-- In every state of the signers `1..=t+1` of a session somebody can go on, and nobody has panicked unless
the number of signers plus one overflows. -/
theorem progress (T : SignTranscript S t key msg coins) (ht : t + 1 < U16.size)
    (hlength : ∀ sign_keys alpha_vec beta_vec delta_i,
      S.phase2DeltaI sign_keys alpha_vec beta_vec = some delta_i → alpha_vec.length = beta_vec.length)
    {schedule : List Nat} {net : Net Nat String String (SignNote S) String}
    (hrun : Machine.exec Net.move (startSigners S build t key msg coins uuid) schedule = some net) :
    Progress net ∧ (t + 2 < U16.size → NoPanic net) := by
  have h := session_settled (fun p hp hn => T.sign_completes (List.mem_range'_1.mpr (by omega)) ht hlength) hrun
  exact ⟨h.1.progress h.2 (parties_scheduled (signPlan_supplied t)),
    fun hsize => h.1.noPanic fun hover => hover hsize⟩

end SignTranscript

/-- In every run of the parties of a key generation, and in every run of the signers of a signing, whoever is
unfinished, somebody's next operation is a write or a poll of an entry that is there. -/
theorem exchange_progress (S : SignLibrary L) [Serde AEAD]
    (hlength : ∀ sign_keys alpha_vec beta_vec delta_i,
      S.phase2DeltaI sign_keys alpha_vec beta_vec = some delta_i → alpha_vec.length = beta_vec.length) :
    (∀ (params : Parameters) (coins : Nat → Draw → L.Seed) (uuid : String)
      (_ : KeygenTranscript params coins uuid) (schedule : List Nat)
      (net : Net Nat String String (KeygenNote F) String),
      Machine.exec Net.move (KeygenSession.startKeygens params coins uuid) schedule = some net →
        Progress net ∧ NoPanic net) ∧
    ∀ (build : U16.Build) (t : Nat) (key : Nat → String) (msg : String) (coins : Nat → SignDraw → L.Seed)
      (uuid : String) (_ : SignTranscript S t key msg coins) (schedule : List Nat)
      (net : Net Nat String String (SignNote S) String), t + 1 < U16.size →
      Machine.exec Net.move (startSigners S build t key msg coins uuid) schedule = some net →
        Progress net ∧ (t + 2 < U16.size → NoPanic net) :=
  ⟨fun _ _ _ T _ _ hrun => T.progress hrun,
    fun _ _ _ _ _ _ T _ _ ht hrun => T.progress ht hlength hrun⟩

/-! ### Two signers -/

omit [Serde Nat] in
theorem two_signers {p : Nat} (hp : p ∈ signers 1) : p = 1 ∨ p = 2 := by
  have hbounds := mem_signers.mp hp
  omega

omit [Serde Nat] in
theorem two_signers_other {p i : Nat} (hp : p ∈ signers 1) (hi : i ∈ others p (signers 1)) :
    (p = 1 ∧ i = 2) ∨ (p = 2 ∧ i = 1) := by
  obtain ⟨hmem, hne⟩ := mem_others.mp hi
  have hp := two_signers hp
  have hi := two_signers hmem
  omega

/-- Signer 1 has the keys of party 2, and signer 2 those of party 1. -/
def SignTranscript.small :
    letI := Serde.numeric Nat
    letI := Serde.numeric (ZMod 3)
    SignTranscript SignLibrary.small 1 (fun p => Serde.toStr (smallOutput (3 - p))) "message"
      (fun p _ => (p - 1 : Nat)) :=
  letI := Serde.numeric Nat
  letI := Serde.numeric (ZMod 3)
  { output := fun p => smallOutput (3 - p)
    vss_scheme := fun _ _ => (0 : Nat)
    ek := fun _ i => (7 - i : Nat)
    xi_com := fun _ _ => 0
    sign_keys := fun p => ((p - 1 : Nat), ((3 - p : Nat) : ZMod 3))
    answer := fun p i =>
      (((7 - i, (i - 1 : Nat) * (p + 1) - (p - 1 : Nat)), (p - 1 : Nat)),
        ((7 - i, (i - 1 : Nat) * (3 - p : Nat) - (p - 1 : Nat)), (p - 1 : Nat)))
    product := fun p i =>
      ((p - 1 : Nat) * (i + 1) - (i - 1 : Nat), (p - 1 : Nat) * (3 - i : Nat) - (i - 1 : Nat))
    delta_i := fun p => if p = 1 then (2 : Nat) else 0
    sigma := fun p => if p = 1 then (2 : Nat) else 1
    delta_inv := (2 : Nat)
    R_others := fun p => if p = 1 then 0 else 1
    R := fun _ => 1
    local_sig := fun p => (p - 1 : Nat)
    phase5a := fun p => ((p - 1 : Nat), (p - 1 : Nat), (p - 1 : Nat), (p - 1 : Nat))
    phase5c := fun p => ((p - 1 : Nat), (p - 1 : Nat))
    s_i := fun _ => 0
    sig := fun _ => (1 : Nat)
    reads := fun p _ => Serde.round_trip _
    party_id_pos := fun p hp => by obtain rfl | rfl := two_signers hp <;> decide
    vss_scheme_eq := fun p hp i hi => by obtain rfl | rfl := two_signers hi <;> rfl
    ek_eq := fun p hp i hi => by obtain rfl | rfl := two_signers hi <;> rfl
    xi_com_eq := fun p hp i hi => by obtain rfl | rfl := two_signers hi <;> rfl
    sign_keys_eq := fun p hp => rfl
    gamma_eq := fun p hp i hi => by obtain ⟨rfl, rfl⟩ | ⟨rfl, rfl⟩ := two_signers_other hp hi <;> rfl
    w_eq := fun p hp i hi => by obtain ⟨rfl, rfl⟩ | ⟨rfl, rfl⟩ := two_signers_other hp hi <;> rfl
    alpha_eq := fun p hp i hi => by obtain ⟨rfl, rfl⟩ | ⟨rfl, rfl⟩ := two_signers_other hp hi <;> rfl
    miu_eq := fun p hp i hi => by obtain ⟨rfl, rfl⟩ | ⟨rfl, rfl⟩ := two_signers_other hp hi <;> rfl
    pk_eq := fun p hp i hi => rfl
    delta_eq := fun p hp => by obtain rfl | rfl := two_signers hp <;> rfl
    sigma_eq := fun p hp => by obtain rfl | rfl := two_signers hp <;> rfl
    delta_inv_eq := rfl
    R_eq := fun p hp => by obtain rfl | rfl := two_signers hp <;> rfl
    R_sum := fun p hp => by obtain rfl | rfl := two_signers hp <;> rfl
    local_sig_eq := fun p hp => rfl
    phase5a_eq := fun p hp => rfl
    phase5c_eq := fun p hp => rfl
    s_i_eq := fun p hp => rfl
    sig_eq := fun p hp => by obtain rfl | rfl := two_signers hp <;> rfl
    check_eq := fun p hp => rfl }

omit [Serde Nat] in
/-- Two parties and two signers, each in the middle of a run. -/
theorem two_parties_progress :
    letI := AEAD.plain
    letI := Serde.numeric Nat
    letI := Serde.numeric (ZMod 3)
    (∃ net, Machine.exec Net.move (KeygenSession.startKeygens (L := KeygenLibrary.small) ⟨1, 2⟩ (fun p _ => p)
      "session") [1, 1, 2] = some net ∧ Progress net ∧ NoPanic net) ∧
    ∃ net, Machine.exec Net.move swappedSigners [1, 1, 2] = some net ∧ Progress net ∧ NoPanic net := by
  let _ := AEAD.plain
  let _ := Serde.numeric Nat
  let _ := Serde.numeric (ZMod 3)
  have h := exchange_progress SignLibrary.small fun sign_keys alpha_vec beta_vec delta_i hdelta =>
    (SignLibrary.small_laws.phase2_delta sign_keys alpha_vec beta_vec delta_i hdelta).1
  have hkeygen : (Machine.exec Net.move (KeygenSession.startKeygens (L := KeygenLibrary.small) ⟨1, 2⟩
      (fun p _ => p) "session") [1, 1, 2]).isSome := by
    decide +kernel
  have hsign : (Machine.exec Net.move swappedSigners [1, 1, 2]).isSome := by decide +kernel
  obtain ⟨net, hnet⟩ := Option.isSome_iff_exists.mp hkeygen
  obtain ⟨net', hnet'⟩ := Option.isSome_iff_exists.mp hsign
  obtain ⟨hprogress, hpanic⟩ := h.2 .release 1 _ _ _ _ SignTranscript.small _ net' (by decide) hnet'
  exact ⟨⟨net, hnet, h.1 _ _ _ KeygenTranscript.small _ net hnet⟩, net', hnet', hprogress, hpanic (by decide)⟩

end Gg18
