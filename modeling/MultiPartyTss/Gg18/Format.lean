import MultiPartyTss.Lib.U16
import MultiPartyTss.Gg18.Keygen

/-!
# Vectors of the signing rounds

What `sign` uses of its crates, and the functions that turn the answers of a round into vectors. They keep
two kinds of vectors: of all signers, in the order of their numbers, and of the others, with the own
position left out, which are read with a counter. `signers_vec` has the key generation index of each
signer, counted from 0, and the Paillier keys and sharings of the key generation are looked up through it.
-/

namespace Gg18

open Proc Slots

/-- What `sign` uses of the crates it is built on, besides what `keygen` uses. -/
structure SignLibrary {F G : Type} (L : KeygenLibrary F G) where
  DecryptionKey : Type
  PartyPrivate : Type
  SignKeys : Type
  SignBroadcastPhase1 : Type
  SignDecommitPhase1 : Type
  MessageA : Type
  MessageB : Type
  LocalSignature : Type
  Phase5Com1 : Type
  Phase5ADecom1 : Type
  HomoELGamalProof : Type
  Phase5Com2 : Type
  Phase5DDecom2 : Type
  SignatureRecid : Type
  dk : L.Keys → DecryptionKey
  setPrivate : L.Keys → L.SharedKeys → PartyPrivate
  create : L.Seed → PartyPrivate → L.VerifiableSS → Nat → List Nat → SignKeys
  k_i : SignKeys → F
  gamma_i : SignKeys → F
  w_i : SignKeys → F
  getCommitmentsToXi : List L.VerifiableSS → List G
  updateCommitmentsToXi : G → L.VerifiableSS → Nat → List Nat → G
  phase1Broadcast : L.Seed → SignKeys → SignBroadcastPhase1 × SignDecommitPhase1
  g_gamma_i : SignDecommitPhase1 → G
  messageA : L.Seed → F → L.EncryptionKey → MessageA
  messageB : L.Seed → F → L.EncryptionKey → MessageA → Option (MessageB × F)
  b_proof : MessageB → L.DLogProof
  pk : L.DLogProof → G
  verifyProofsGetAlpha : MessageB → DecryptionKey → F → Option F
  phase2DeltaI : SignKeys → List F → List F → Option F
  phase2SigmaI : SignKeys → List F → List F → Option F
  phase3ReconstructDelta : List F → Option F
  phase4 : F → List L.DLogProof → List SignDecommitPhase1 → List SignBroadcastPhase1 → Option G
  phase5LocalSig : L.Seed → F → Nat → G → F → G → LocalSignature
  phase5aBroadcast5bZkproof :
    L.Seed → LocalSignature → Phase5Com1 × Phase5ADecom1 × HomoELGamalProof × L.DLogProof
  v_i : Phase5ADecom1 → G
  phase5c : L.Seed → LocalSignature → List Phase5ADecom1 → List Phase5Com1 → List HomoELGamalProof →
    List L.DLogProof → G → G → Option (Phase5Com2 × Phase5DDecom2)
  phase5d : LocalSignature → List Phase5DDecom2 → List Phase5Com2 → List Phase5ADecom1 → Option F
  outputSignature : LocalSignature → List F → Option SignatureRecid
  r : SignatureRecid → F
  s : SignatureRecid → F
  recid : SignatureRecid → Nat
  hexDecode : String → Option (List UInt8)
  scalarToBytes : F → List UInt8
  pointToBytes : G → List UInt8
  toStrRadix16 : Nat → String
  /-- `Message`, `Signature` and `PublicKey` from their bytes, and `verify`; `none` if one does not parse. -/
  verify : List UInt8 → List UInt8 → List UInt8 → Option Bool
  serdeRound1 : Serde (SignBroadcastPhase1 × MessageA)
  serdeRound2 : Serde (MessageB × MessageB)
  serdeDecommit : Serde SignDecommitPhase1
  serdeCom1 : Serde Phase5Com1
  serdeRound6 : Serde (Phase5ADecom1 × HomoELGamalProof × L.DLogProof)
  serdeCom2 : Serde Phase5Com2
  serdeDecom2 : Serde Phase5DDecom2

namespace SignLibrary

attribute [instance] serdeRound1 serdeRound2 serdeDecommit serdeCom1 serdeRound6 serdeCom2 serdeDecom2

end SignLibrary

/-- The places where a party of `sign` draws at random. -/
inductive SignDraw where
  | create
  | broadcast
  | messageA
  | messageBGamma (i : Nat)
  | messageBW (i : Nat)
  | localSig
  | phase5a
  | phase5c
  deriving DecidableEq, Repr

/-- The answers of a round with the own value put in its place. -/
def formatVecFromReads {β : Type} [Serde β] (ans_vec : List String) (party_num : Nat) (value_i : β) :
    Option (List β) :=
  weave value_i Serde.fromStr party_num ans_vec (List.range' 1 (ans_vec.length + 1)) 0

section Signers

variable [Serde Nat] (build : U16.Build) (party_num_int party_id : Nat) (round0_ans_vec : List String)

def formatSignersLoop : List Nat → Nat → Option (List Nat)
  | [], _ => some []
  | i :: is, j =>
    if i = party_num_int then do
      let own ← U16.subOne build party_id
      let rest ← formatSignersLoop is j
      some (own :: rest)
    else do
      let signer_j ← round0_ans_vec[j]?.bind Serde.fromStr
      let index ← U16.subOne build signer_j
      let rest ← formatSignersLoop is (j + 1)
      some (index :: rest)

/-- The key generation indices of all signers. -/
def formatSigners (threshold : Nat) : Option (List Nat) := do
  let parties ← U16.addOne build threshold
  formatSignersLoop build party_num_int party_id round0_ans_vec (List.range' 1 parties) 0

end Signers

section Vectors

variable {F G : Type} {L : KeygenLibrary F G} (S : SignLibrary L)

def formatBroadcastPhase1AndMessageALoop (party_num_int : Nat)
    (com : S.SignBroadcastPhase1) (round1_ans_vec : List String) :
    List Nat → Nat → Option (List S.SignBroadcastPhase1 × List S.MessageA)
  | [], _ => some ([], [])
  | i :: is, j =>
    if i = party_num_int then do
      let rest ← formatBroadcastPhase1AndMessageALoop party_num_int com round1_ans_vec is j
      some (com :: rest.1, rest.2)
    else do
      let message : S.SignBroadcastPhase1 × S.MessageA ← round1_ans_vec[j]?.bind Serde.fromStr
      let rest ← formatBroadcastPhase1AndMessageALoop party_num_int com round1_ans_vec is (j + 1)
      some (message.1 :: rest.1, message.2 :: rest.2)

/-- The commitments of all signers and the first messages of the others. -/
def formatBroadcastPhase1AndMessageAVec (build : U16.Build)
    (threshold party_num_int : Nat) (com : S.SignBroadcastPhase1) (round1_ans_vec : List String) :
    Option (List S.SignBroadcastPhase1 × List S.MessageA) := do
  let parties ← U16.addOne build threshold
  formatBroadcastPhase1AndMessageALoop S party_num_int com round1_ans_vec (List.range' 1 parties) 0

/-- The four vectors over the other signers that the answers to their first messages give. -/
structure MessageBVecs where
  m_b_gamma_send_vec : List S.MessageB
  beta_vec : List F
  m_b_w_send_vec : List S.MessageB
  ni_vec : List F

def formatMessageBAndNiLoop (party_num_int : Nat) (coins : SignDraw → L.Seed) (sign_keys : S.SignKeys)
    (paillier_key_vector : List L.EncryptionKey) (m_a_vec : List S.MessageA) (signers_vec : List Nat) :
    List Nat → Nat → Option (MessageBVecs S)
  | [], _ => some ⟨[], [], [], []⟩
  | i :: is, j =>
    if i = party_num_int then
      formatMessageBAndNiLoop party_num_int coins sign_keys paillier_key_vector m_a_vec signers_vec is j
    else do
      let message_a ← m_a_vec[j]?
      let index ← signers_vec[i - 1]?
      let ek ← paillier_key_vector[index]?
      let gamma ← S.messageB (coins (.messageBGamma i)) (S.gamma_i sign_keys) ek message_a
      let w ← S.messageB (coins (.messageBW i)) (S.w_i sign_keys) ek message_a
      let rest ← formatMessageBAndNiLoop party_num_int coins sign_keys paillier_key_vector m_a_vec
        signers_vec is (j + 1)
      some ⟨gamma.1 :: rest.m_b_gamma_send_vec, gamma.2 :: rest.beta_vec, w.1 :: rest.m_b_w_send_vec,
        w.2 :: rest.ni_vec⟩

/-- The answers to the first messages of the others, with the own shares of the products. -/
def formatMessageBAndNiVec (build : U16.Build) (threshold party_num_int : Nat) (coins : SignDraw → L.Seed)
    (sign_keys : S.SignKeys) (paillier_key_vector : List L.EncryptionKey) (m_a_vec : List S.MessageA)
    (signers_vec : List Nat) : Option (MessageBVecs S) := do
  let parties ← U16.addOne build threshold
  formatMessageBAndNiLoop S party_num_int coins sign_keys paillier_key_vector m_a_vec signers_vec
    (List.range' 1 parties) 0

/-- The answers of the others to the own first message. -/
def formatRound2RecGammaAndWVec (threshold : Nat)
    (round2_ans_vec : List String) : Option (List S.MessageB × List S.MessageB) := do
  let received : List (S.MessageB × S.MessageB) ←
    (List.range threshold).mapM fun i => round2_ans_vec[i]?.bind Serde.fromStr
  some (received.map Prod.fst, received.map Prod.snd)

def formatRound2AlphaAndMiuLoop [DecidableEq G] (party_num_int : Nat)
    (m_b_gamma_rec_vec m_b_w_rec_vec : List S.MessageB) (xi_com_vec : List G)
    (vss_scheme_vec : List L.VerifiableSS) (party_keys : L.Keys) (sign_keys : S.SignKeys)
    (signers_vec : List Nat) : List Nat → Nat → Option (List F × List F)
  | [], _ => some ([], [])
  | i :: is, j =>
    if i = party_num_int then
      formatRound2AlphaAndMiuLoop party_num_int m_b_gamma_rec_vec m_b_w_rec_vec xi_com_vec vss_scheme_vec
        party_keys sign_keys signers_vec is j
    else do
      let m_b_gamma ← m_b_gamma_rec_vec[j]?
      let alpha ← S.verifyProofsGetAlpha m_b_gamma (S.dk party_keys) (S.k_i sign_keys)
      let m_b_w ← m_b_w_rec_vec[j]?
      let miu ← S.verifyProofsGetAlpha m_b_w (S.dk party_keys) (S.k_i sign_keys)
      let index ← signers_vec[i - 1]?
      let xi_com ← xi_com_vec[index]?
      let vss_scheme ← vss_scheme_vec[index]?
      if S.pk (S.b_proof m_b_w) = S.updateCommitmentsToXi xi_com vss_scheme index signers_vec then do
        let rest ← formatRound2AlphaAndMiuLoop party_num_int m_b_gamma_rec_vec m_b_w_rec_vec xi_com_vec
          vss_scheme_vec party_keys sign_keys signers_vec is (j + 1)
        some (alpha :: rest.1, miu :: rest.2)
      else none

/-- The own shares of the products with the other signers' secrets. -/
def formatRound2AlphaAndMiuVec [DecidableEq G] (build : U16.Build) (threshold party_num_int : Nat)
    (m_b_gamma_rec_vec m_b_w_rec_vec : List S.MessageB) (xi_com_vec : List G)
    (vss_scheme_vec : List L.VerifiableSS) (party_keys : L.Keys) (sign_keys : S.SignKeys)
    (signers_vec : List Nat) : Option (List F × List F) := do
  let stop ← U16.add build threshold 2
  formatRound2AlphaAndMiuLoop S party_num_int m_b_gamma_rec_vec m_b_w_rec_vec xi_com_vec vss_scheme_vec
    party_keys sign_keys signers_vec (List.range' 1 (stop - 1)) 0

end Vectors

/-! ### What the loops give -/

section Specs

variable {F G : Type} {L : KeygenLibrary F G} {S : SignLibrary L} {Q : Nat → String → Prop} {p : Nat}

theorem formatVecFromReads_spec {β : Type} [Serde β] {R : Nat → β → Prop} {value_i : β} {n : Nat}
    {ans_vec : List String} {new_vec : List β} (hp : 1 ≤ p) (hn : p ≤ n) (hown : R p value_i)
    (hread : ∀ i v b, Q i v → Serde.fromStr v = some b → R i b)
    (hans : List.Forall₂ Q (others p (List.range' 1 n)) ans_vec)
    (h : formatVecFromReads ans_vec p value_i = some new_vec) : List.Forall₂ R (List.range' 1 n) new_vec := by
  have hlen := hans.length_eq
  rw [length_others hp hn] at hlen
  rw [formatVecFromReads, show ans_vec.length + 1 = n by omega] at h
  exact weave_spec (j := 0) hown hread hans h

theorem formatSignersLoop_spec [Serde Nat] {R : Nat → Nat → Prop} {build : U16.Build} {party_id : Nat}
    {round0_ans_vec : List String} (hown : ∀ index, U16.subOne build party_id = some index → R p index)
    (hread : ∀ i v id index, Q i v → Serde.fromStr v = some id → U16.subOne build id = some index →
      R i index)
    {is : List Nat} {j : Nat} {signers_vec : List Nat}
    (hans : List.Forall₂ Q (others p is) (round0_ans_vec.drop j))
    (h : formatSignersLoop build p party_id round0_ans_vec is j = some signers_vec) :
    List.Forall₂ R is signers_vec := by
  induction is generalizing j signers_vec with
  | nil =>
    obtain rfl := Option.some.inj h
    exact List.Forall₂.nil
  | cons i is ih =>
    by_cases hip : i = p
    · subst hip
      rw [formatSignersLoop, if_pos rfl] at h
      obtain ⟨own, hsub, h⟩ := Option.bind_eq_some_iff.mp h
      obtain ⟨rest, hrest, h⟩ := Option.bind_eq_some_iff.mp h
      obtain rfl := Option.some.inj h
      rw [others_self] at hans
      exact List.Forall₂.cons (hown own hsub) (ih hans hrest)
    · rw [formatSignersLoop, if_neg hip] at h
      obtain ⟨signer_j, hsigner, h⟩ := Option.bind_eq_some_iff.mp h
      obtain ⟨index, hsub, h⟩ := Option.bind_eq_some_iff.mp h
      obtain ⟨rest, hrest, h⟩ := Option.bind_eq_some_iff.mp h
      obtain rfl := Option.some.inj h
      rw [others_of_ne is hip] at hans
      obtain ⟨v, hget, hv, hvs⟩ := forall₂_drop hans
      rw [hget, Option.bind_some] at hsigner
      exact List.Forall₂.cons (hread i v signer_j index hv hsigner hsub) (ih hvs hrest)

theorem formatBroadcastPhase1AndMessageALoop_spec {R : Nat → S.SignBroadcastPhase1 → Prop}
    {M : Nat → S.MessageA → Prop} {com : S.SignBroadcastPhase1} {round1_ans_vec : List String}
    (hown : R p com)
    (hread : ∀ i v (m : S.SignBroadcastPhase1 × S.MessageA), Q i v → Serde.fromStr v = some m →
      R i m.1 ∧ M i m.2)
    {is : List Nat} {j : Nat} {out : List S.SignBroadcastPhase1 × List S.MessageA}
    (hans : List.Forall₂ Q (others p is) (round1_ans_vec.drop j))
    (h : formatBroadcastPhase1AndMessageALoop S p com round1_ans_vec is j = some out) :
    List.Forall₂ R is out.1 ∧ List.Forall₂ M (others p is) out.2 := by
  induction is generalizing j out with
  | nil =>
    obtain rfl := Option.some.inj h
    exact ⟨List.Forall₂.nil, List.Forall₂.nil⟩
  | cons i is ih =>
    by_cases hip : i = p
    · subst hip
      rw [formatBroadcastPhase1AndMessageALoop, if_pos rfl] at h
      obtain ⟨rest, hrest, h⟩ := Option.bind_eq_some_iff.mp h
      obtain rfl := Option.some.inj h
      rw [others_self] at hans ⊢
      obtain ⟨hbc, hma⟩ := ih hans hrest
      exact ⟨List.Forall₂.cons hown hbc, hma⟩
    · rw [formatBroadcastPhase1AndMessageALoop, if_neg hip] at h
      obtain ⟨message, hmessage, h⟩ := Option.bind_eq_some_iff.mp h
      obtain ⟨rest, hrest, h⟩ := Option.bind_eq_some_iff.mp h
      obtain rfl := Option.some.inj h
      rw [others_of_ne is hip] at hans ⊢
      obtain ⟨v, hget, hv, hvs⟩ := forall₂_drop hans
      rw [hget, Option.bind_some] at hmessage
      obtain ⟨hr, hm⟩ := hread i v message hv hmessage
      obtain ⟨hbc, hma⟩ := ih hvs hrest
      exact ⟨List.Forall₂.cons hr hbc, List.Forall₂.cons hm hma⟩

/-- The answer for signer `i` is for its first message, under its Paillier key. -/
theorem formatMessageBAndNiLoop_spec {M : Nat → S.MessageA → Prop} {coins : SignDraw → L.Seed}
    {sign_keys : S.SignKeys} {paillier_key_vector : List L.EncryptionKey} {m_a_vec : List S.MessageA}
    {signers_vec is : List Nat} {j : Nat} {vecs : MessageBVecs S}
    (hma : List.Forall₂ M (others p is) (m_a_vec.drop j))
    (h : formatMessageBAndNiLoop S p coins sign_keys paillier_key_vector m_a_vec signers_vec is j =
      some vecs) :
    ∃ answers : List ((S.MessageB × F) × (S.MessageB × F)),
      List.Forall₂ (fun i answer => ∃ message_a index ek, M i message_a ∧ signers_vec[i - 1]? = some index ∧
        paillier_key_vector[index]? = some ek ∧
        S.messageB (coins (.messageBGamma i)) (S.gamma_i sign_keys) ek message_a = some answer.1 ∧
        S.messageB (coins (.messageBW i)) (S.w_i sign_keys) ek message_a = some answer.2)
        (others p is) answers ∧
      vecs = ⟨answers.map fun answer => answer.1.1, answers.map fun answer => answer.1.2,
        answers.map fun answer => answer.2.1, answers.map fun answer => answer.2.2⟩ := by
  induction is generalizing j vecs with
  | nil =>
    obtain rfl := Option.some.inj h
    exact ⟨[], List.Forall₂.nil, rfl⟩
  | cons i is ih =>
    by_cases hip : i = p
    · subst hip
      rw [formatMessageBAndNiLoop, if_pos rfl] at h
      rw [others_self] at hma ⊢
      exact ih hma h
    · rw [formatMessageBAndNiLoop, if_neg hip] at h
      rw [others_of_ne is hip] at hma ⊢
      obtain ⟨message_a, hget, hm, hma⟩ := forall₂_drop hma
      rw [hget, Option.bind_eq_bind, Option.bind_some] at h
      obtain ⟨index, hindex, h⟩ := Option.bind_eq_some_iff.mp h
      obtain ⟨ek, hek, h⟩ := Option.bind_eq_some_iff.mp h
      obtain ⟨gamma, hgamma, h⟩ := Option.bind_eq_some_iff.mp h
      obtain ⟨w, hw, h⟩ := Option.bind_eq_some_iff.mp h
      obtain ⟨rest, hrest, h⟩ := Option.bind_eq_some_iff.mp h
      obtain rfl := Option.some.inj h
      obtain ⟨answers, hanswers, rfl⟩ := ih hma hrest
      exact ⟨(gamma, w) :: answers,
        List.Forall₂.cons ⟨message_a, index, ek, hm, hindex, hek, hgamma, hw⟩ hanswers, rfl⟩

/-- The products with signer `i` come from the answer of signer `i`. -/
theorem formatRound2AlphaAndMiuLoop_spec [DecidableEq G] {M : Nat → S.MessageB × S.MessageB → Prop}
    {received : List (S.MessageB × S.MessageB)} {xi_com_vec : List G}
    {vss_scheme_vec : List L.VerifiableSS} {party_keys : L.Keys} {sign_keys : S.SignKeys}
    {signers_vec is : List Nat} {j : Nat} {out : List F × List F}
    (hreceived : List.Forall₂ M (others p is) (received.drop j))
    (h : formatRound2AlphaAndMiuLoop S p (received.map Prod.fst) (received.map Prod.snd) xi_com_vec
      vss_scheme_vec party_keys sign_keys signers_vec is j = some out) :
    ∃ products : List (F × F),
      List.Forall₂ (fun i product => ∃ m, M i m ∧
        S.verifyProofsGetAlpha m.1 (S.dk party_keys) (S.k_i sign_keys) = some product.1 ∧
        S.verifyProofsGetAlpha m.2 (S.dk party_keys) (S.k_i sign_keys) = some product.2)
        (others p is) products ∧
      out = (products.map Prod.fst, products.map Prod.snd) := by
  induction is generalizing j out with
  | nil =>
    obtain rfl := Option.some.inj h
    exact ⟨[], List.Forall₂.nil, rfl⟩
  | cons i is ih =>
    by_cases hip : i = p
    · subst hip
      rw [formatRound2AlphaAndMiuLoop, if_pos rfl] at h
      rw [others_self] at hreceived ⊢
      exact ih hreceived h
    · rw [formatRound2AlphaAndMiuLoop, if_neg hip] at h
      rw [others_of_ne is hip] at hreceived ⊢
      obtain ⟨m, hget, hm, hrec⟩ := forall₂_drop hreceived
      obtain ⟨m_b_gamma, hgamma, h⟩ := Option.bind_eq_some_iff.mp h
      obtain ⟨alpha, halpha, h⟩ := Option.bind_eq_some_iff.mp h
      obtain ⟨m_b_w, hw, h⟩ := Option.bind_eq_some_iff.mp h
      obtain ⟨miu, hmiu, h⟩ := Option.bind_eq_some_iff.mp h
      obtain ⟨index, -, h⟩ := Option.bind_eq_some_iff.mp h
      obtain ⟨xi_com, -, h⟩ := Option.bind_eq_some_iff.mp h
      obtain ⟨vss_scheme, -, h⟩ := Option.bind_eq_some_iff.mp h
      split_ifs at h
      obtain ⟨rest, hrest, h⟩ := Option.bind_eq_some_iff.mp h
      obtain rfl := Option.some.inj h
      rw [List.getElem?_map, hget, Option.map_some, Option.some.injEq] at hgamma hw
      subst hgamma hw
      obtain ⟨products, hproducts, rfl⟩ := ih hrec hrest
      exact ⟨(alpha, miu) :: products, List.Forall₂.cons ⟨m, hm, halpha, hmiu⟩ hproducts, rfl⟩

/-- The bound of the loop overflows at 65535 signers; then the vectors are empty, which `hlen` excludes
unless there is nobody else. -/
theorem formatRound2AlphaAndMiuVec_spec [DecidableEq G] {M : Nat → S.MessageB × S.MessageB → Prop}
    {received : List (S.MessageB × S.MessageB)} {xi_com_vec : List G}
    {vss_scheme_vec : List L.VerifiableSS} {party_keys : L.Keys} {sign_keys : S.SignKeys}
    {signers_vec : List Nat} {build : U16.Build} {threshold : Nat} {out : List F × List F}
    (hsize : threshold + 1 < U16.size)
    (hreceived : List.Forall₂ M (others p (List.range' 1 (threshold + 1))) received)
    (h : formatRound2AlphaAndMiuVec S build threshold p (received.map Prod.fst) (received.map Prod.snd)
      xi_com_vec vss_scheme_vec party_keys sign_keys signers_vec = some out)
    (hlen : out.1.length = (others p (List.range' 1 (threshold + 1))).length) :
    ∃ products : List (F × F),
      List.Forall₂ (fun i product => ∃ m, M i m ∧
        S.verifyProofsGetAlpha m.1 (S.dk party_keys) (S.k_i sign_keys) = some product.1 ∧
        S.verifyProofsGetAlpha m.2 (S.dk party_keys) (S.k_i sign_keys) = some product.2)
        (others p (List.range' 1 (threshold + 1))) products ∧
      out = (products.map Prod.fst, products.map Prod.snd) := by
  obtain ⟨stop, hstop, h⟩ := Option.bind_eq_some_iff.mp h
  obtain rfl | ⟨rfl, hoverflow⟩ := U16.add_cases hstop
  · exact formatRound2AlphaAndMiuLoop_spec (j := 0) hreceived h
  · have hzero : (threshold + 2) % U16.size - 1 = 0 := by
      rw [show threshold + 2 = U16.size by omega, Nat.mod_self]
    rw [hzero] at h
    obtain rfl := Option.some.inj h
    have hnone := List.eq_nil_of_length_eq_zero hlen.symm
    rw [hnone]
    exact ⟨[], List.Forall₂.nil, rfl⟩

end Specs

end Gg18
