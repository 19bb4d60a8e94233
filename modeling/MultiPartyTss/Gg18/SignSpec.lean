import MultiPartyTss.Gg18.Sign

/-!
# What one signer does

As `KeygenSpec` for `sign`: its plan (`sign_follows`), and what it writes and notes up to round 4 in terms
of what the store has (`sign_holds`). A signer answers the first message of signer `i` under the Paillier
key of signer `i`, and takes its shares of the products from the answers of the same signers.
-/

namespace Gg18

open Proc Slots

variable {F G : Type}

/-- What one signer runs `sign` with. -/
structure SignInput (L : KeygenLibrary F G) where
  build : U16.Build
  threshold : Nat
  key : String
  msg : String
  coins : SignDraw → L.Seed
  signup : PartySignup

variable {L : KeygenLibrary F G}

namespace SignInput

variable (a : SignInput L)

def number : Nat := a.signup.number

def uuid : String := a.signup.uuid

/-- The number of signers. -/
def count : Nat := a.threshold + 1

/-- The output of the key generation that it was given. -/
def output : Option L.Output := Serde.fromStr a.key

def process (S : SignLibrary L) [Serde Nat] [Serde F] [DecidableEq G] [Field F] [AddCommGroup G]
    [Module F G] : PartyProc (SignNote S) String := sign S a.build a.threshold a.key a.msg a.coins a.signup

end SignInput

/-! ### The plan -/

def signRounds : List Round :=
  [.share "round0", .share "round1", .send "round2", .receive "round2", .share "round3", .share "round4",
    .share "round5", .share "round6", .share "round7", .share "round8", .share "round9"]

theorem signRounds_wellNamed : WellNamed signRounds := by decide

theorem signRound_follows {β ω : Type} [Serde β] (p n : Nat) (round uuid : String) (own : β) :
    (signRound p n round uuid own : PartyProc ω (List β)).Follows (roundPlan p n round uuid) :=
  mergeRound_follows p n round uuid _ _

theorem signRound_holds {β ω : Type} [Serde β] {C : Contract String String ω} {p n : Nat}
    {round uuid : String} {own : β} {post : List β → Prop} (hp : 1 ≤ p) (hn : p ≤ n)
    (hwrite : C.writes (broadcastKey p round uuid) (Serde.toStr own))
    (hpost : ∀ vec, Everyone C.store n round uuid vec → post vec) :
    (signRound p n round uuid own).Holds C post :=
  mergeRound_holds hwrite fun _ vec hown hans hvec => hpost vec <|
    formatVecFromReads_spec (R := fun i b => Stored C.store (broadcastKey i round uuid) b)
      hp hn (stored_toStr hown) (fun _ v _ hv hb => ⟨v, hv, hb⟩) hans hvec

variable {S : SignLibrary L}

theorem sendMessageBs_follows (p : Nat) (uuid : String) (vecs : MessageBVecs S) (is : List Nat) (j : Nat) :
    (sendMessageBs S p uuid vecs is j).Follows
      ((others p is).map fun i => .put (p2pKey p i "round2" uuid)) := by
  induction is generalizing j with
  | nil => rfl
  | cons i is ih =>
    by_cases hip : i = p
    · subst hip
      rw [sendMessageBs, if_pos rfl, others_self]
      exact ih j
    · rw [sendMessageBs, if_neg hip, others_of_ne is hip]
      apply Follows.ofOptionBind
      intro m_b_gamma
      apply Follows.ofOptionBind
      intro m_b_w
      exact Follows.writeBind (ih (j + 1))

theorem signPhase5_follows [Serde F] (p t n : Nat) (uuid : String) (coins : SignDraw → L.Seed)
    (local_sig : S.LocalSignature) (R : G) (message_bn : Nat) (y_sum : G) :
    (signPhase5 S p t n uuid coins local_sig R message_bn y_sum).Follows
      (exchangePlan p n uuid
        [.share "round5", .share "round6", .share "round7", .share "round8", .share "round9"]) := by
  refine (signRound_follows p n "round5" uuid _).bind fun commit5a_vec => ?_
  refine (signRound_follows p n "round6" uuid _).bind fun includes_i => ?_
  apply Follows.ofOptionBind
  intro decommit5a
  apply Follows.ofOptionBind
  intro commit5a_others
  apply Follows.ofOptionBind
  intro others5a
  apply Follows.ofOptionBind
  intro phase5c
  refine (signRound_follows p n "round7" uuid _).bind fun commit5c_vec => ?_
  refine (signRound_follows p n "round8" uuid _).bind fun decommit5d_vec => ?_
  apply Follows.ofOptionBind
  intro phase_5a_decomm_vec
  apply Follows.ofOptionBind
  intro s_i
  refine (signRound_follows p n "round9" uuid _).bind fun s_i_vec => ?_
  apply Follows.ofOptionBind
  intro s_i_others
  apply Follows.ofOptionBind
  intro sig
  apply Follows.ofOptionBind
  intro _
  exact pure_follows _

/-- If the number of signers overflows to 0, there is no entry for the own index. -/
theorem formatSigners_overflow [Serde Nat] {build : U16.Build} {p party_id threshold : Nat}
    {ans_vec : List String} {signers_vec : List Nat} (hn : U16.addOne build threshold = some 0)
    (h : formatSigners build p party_id ans_vec threshold = some signers_vec) : signers_vec = [] := by
  rw [formatSigners, hn] at h
  exact (Option.some.inj h).symm

variable [Serde Nat] [Serde F] [Field F] [AddCommGroup G] [Module F G]

theorem sign_follows [DecidableEq G] (a : SignInput L) :
    (a.process S).Follows (exchangePlan a.number a.count a.uuid signRounds) := by
  apply Follows.ofOptionBind
  intro output
  apply Follows.writeBind
  apply Follows.ofOptionBind_of
  intro n hn
  obtain ⟨rfl, -⟩ | ⟨rfl, -⟩ := U16.addOne_cases hn
  · refine (pollLoop_follows _ a.number _).bind fun round0_ans_vec => ?_
    apply Follows.ofOptionBind
    intro signers_vec
    apply Follows.ofOptionBind
    intro index
    apply Follows.ofOptionBind
    intro vss_scheme
    refine (record_follows _).localBind fun _ => ?_
    apply Follows.writeBind
    refine (pollLoop_follows _ a.number _).bind fun round1_ans_vec => ?_
    apply Follows.ofOptionBind
    intro round1
    apply Follows.ofOptionBind
    intro _
    apply Follows.ofOptionBind
    intro vecs
    refine (sendMessageBs_follows a.number a.uuid _ _ 0).bind fun _ => ?_
    refine (pollLoop_follows _ a.number _).bind fun round2_ans_vec => ?_
    apply Follows.ofOptionBind
    intro received
    apply Follows.ofOptionBind
    intro alphas
    apply Follows.ofOptionBind
    intro delta_i
    apply Follows.ofOptionBind
    intro sigma
    refine (record_follows _).localBind fun _ => ?_
    refine (signRound_follows a.number a.count "round3" a.uuid _).bind fun delta_vec => ?_
    apply Follows.ofOptionBind
    intro delta_inv
    refine (signRound_follows a.number a.count "round4" a.uuid _).bind fun decommit_vec => ?_
    apply Follows.ofOptionBind
    intro decommit_others
    apply Follows.ofOptionBind
    intro bc1_others
    apply Follows.ofOptionBind
    intro R
    refine (record_follows _).localBind fun _ => ?_
    exact signPhase5_follows _ _ _ _ _ _ _ _ _
  · apply Follows.localBind (x := pollForBroadcasts a.number 0 "round0" a.uuid) rfl
    intro round0_ans_vec
    apply Follows.ofOptionBind_of
    intro signers_vec hsigners
    rw [formatSigners_overflow hn hsigners, List.getElem?_nil]
    trivial

/-! ### What the store says about a signer -/

namespace SignInput

variable (S) (a : SignInput L) (store : String → Option String)

/-- The key generation indices of all signers. -/
def Signers (signers_vec : List Nat) : Prop :=
  List.Forall₂ (fun i index => ∃ party_id : Nat, Stored store (broadcastKey i "round0" a.uuid) party_id ∧
    U16.subOne a.build party_id = some index) (List.range' 1 a.count) signers_vec

/-- The signing key it creates, with the output it was given and the indices of the signers. -/
structure Created (output : L.Output) (signers_vec : List Nat) (sign_keys : S.SignKeys) : Prop where
  output_eq : a.output = some output
  signers : a.Signers store signers_vec
  create_eq : ∃ index vss_scheme, signers_vec[a.number - 1]? = some index ∧
    output.vss_scheme_vec[index]? = some vss_scheme ∧
    sign_keys = S.create (a.coins .create) (S.setPrivate output.party_keys output.shared_keys) vss_scheme
      index signers_vec

/-- Its answer to the first message of signer `i`, for the secrets `gamma_i` and `w_i`. -/
def Answer (i : Nat) (answer : (S.MessageB × F) × (S.MessageB × F)) : Prop :=
  ∃ output signers_vec sign_keys message index ek, a.Created S store output signers_vec sign_keys ∧
    Stored store (broadcastKey i "round1" a.uuid) (message : S.SignBroadcastPhase1 × S.MessageA) ∧
    signers_vec[i - 1]? = some index ∧ output.paillier_key_vec[index]? = some ek ∧
    S.messageB (a.coins (.messageBGamma i)) (S.gamma_i sign_keys) ek message.2 = some answer.1 ∧
    S.messageB (a.coins (.messageBW i)) (S.w_i sign_keys) ek message.2 = some answer.2

/-- Its shares of the products with the secrets of signer `i`. -/
def Product (i : Nat) (product : F × F) : Prop :=
  ∃ output signers_vec sign_keys message, a.Created S store output signers_vec sign_keys ∧
    Stored store (p2pKey i a.number "round2" a.uuid) (message : S.MessageB × S.MessageB) ∧
    S.verifyProofsGetAlpha message.1 (S.dk output.party_keys) (S.k_i sign_keys) = some product.1 ∧
    S.verifyProofsGetAlpha message.2 (S.dk output.party_keys) (S.k_i sign_keys) = some product.2

def Phase2 (delta_i sigma : F) : Prop :=
  ∃ output signers_vec sign_keys answers products, a.Created S store output signers_vec sign_keys ∧
    List.Forall₂ (a.Answer S store) (others a.number (List.range' 1 a.count)) answers ∧
    List.Forall₂ (a.Product S store) (others a.number (List.range' 1 a.count)) products ∧
    S.phase2DeltaI sign_keys (products.map Prod.fst) (answers.map fun answer => answer.1.2) = some delta_i ∧
    S.phase2SigmaI sign_keys (products.map Prod.snd) (answers.map fun answer => answer.2.2) = some sigma

/-- The decommitment of its `gamma_i`. -/
def Decommit (decommit : S.SignDecommitPhase1) : Prop :=
  ∃ output signers_vec sign_keys, a.Created S store output signers_vec sign_keys ∧
    decommit = (S.phase1Broadcast (a.coins .broadcast) sign_keys).2

def Round4 (delta_inv : F) (R : G) : Prop :=
  ∃ delta_vec decommit_vec decommit_others b_proof_vec bc1_vec R_others,
    Everyone store a.count "round3" a.uuid (delta_vec : List F) ∧
    Everyone store a.count "round4" a.uuid (decommit_vec : List S.SignDecommitPhase1) ∧
    S.phase3ReconstructDelta delta_vec = some delta_inv ∧
    removeAt decommit_vec (a.number - 1) = some decommit_others ∧
    S.phase4 delta_inv b_proof_vec decommit_others.2 bc1_vec = some R_others ∧
    R = R_others + delta_inv • S.g_gamma_i decommit_others.1

/-- What it broadcasts in a round. -/
structure Broadcasts (round v : String) : Prop where
  round0 : round = "round0" → ∃ output, a.output = some output ∧ v = Serde.toStr output.party_id
  round1 : round = "round1" → ∃ output signers_vec sign_keys com,
    a.Created S store output signers_vec sign_keys ∧
    v = Serde.toStr ((com, S.messageA (a.coins .messageA) (S.k_i sign_keys) (L.ek output.party_keys)) :
      S.SignBroadcastPhase1 × S.MessageA)
  round3 : round = "round3" → ∃ delta_i sigma, a.Phase2 S store delta_i sigma ∧ v = Serde.toStr delta_i
  round4 : round = "round4" → ∃ decommit, a.Decommit S store decommit ∧ v = Serde.toStr decommit

/-- What it sends to signer `i`. -/
def Sends (i : Nat) (v : String) : Prop :=
  ∃ answer, a.Answer S store i answer ∧ v = Serde.toStr (answer.1.1, answer.2.1)

def Notes : SignNote S → Prop
  | .created sign_keys => ∃ output signers_vec, a.Created S store output signers_vec sign_keys
  | .phase2 delta_i sigma => a.Phase2 S store delta_i sigma
  | .round4 delta_inv R => a.Round4 S store delta_inv R

/-- What it keeps to, against what it finds in the store. -/
def contract : Proc.Contract String String (SignNote S) where
  store := store
  writes := Written a.number a.uuid (a.Broadcasts S store) (a.Sends S store)
  notes := a.Notes S store

end SignInput

theorem sendMessageBs_holds {a : SignInput L} {store : String → Option String}
    {answers : List ((S.MessageB × F) × (S.MessageB × F))} {is : List Nat} {j : Nat}
    (hanswers : List.Forall₂ (a.Answer S store) (others a.number is) (answers.drop j)) :
    (sendMessageBs S a.number a.uuid ⟨answers.map fun answer => answer.1.1,
      answers.map fun answer => answer.1.2, answers.map fun answer => answer.2.1,
      answers.map fun answer => answer.2.2⟩ is j).Holds (a.contract S store) fun _ => True := by
  induction is generalizing j with
  | nil => trivial
  | cons i is ih =>
    by_cases hip : i = a.number
    · subst hip
      rw [others_self] at hanswers
      rw [sendMessageBs, if_pos rfl]
      exact ih hanswers
    · rw [others_of_ne is hip] at hanswers
      obtain ⟨answer, hget, hanswer, hrest⟩ := forall₂_drop hanswers
      rw [sendMessageBs, if_neg hip, holds_bind, holds_ofOption, List.getElem?_map, hget, Option.map_some]
      intro m_b_gamma hgamma
      obtain rfl := Option.some.inj hgamma
      rw [holds_bind, holds_ofOption, List.getElem?_map, hget, Option.map_some]
      intro m_b_w hw
      obtain rfl := Option.some.inj hw
      rw [holds_bind, sendP2p, holds_write]
      exact ⟨.send (by decide) ⟨answer, hanswer, rfl⟩, fun _ => ih hrest⟩

/-- The later rounds are free in what they write. -/
theorem signPhase5_holds {a : SignInput L} {store : String → Option String} (hp : 1 ≤ a.number) {t n : Nat}
    (hn : a.number ≤ n) (local_sig : S.LocalSignature) (R : G) (message_bn : Nat) (y_sum : G) :
    (signPhase5 S a.number t n a.uuid a.coins local_sig R message_bn y_sum).Holds (a.contract S store)
      fun _ => True := by
  have hwrite : ∀ round v, RoundName round → round ≠ "round0" → round ≠ "round1" →
      round ≠ "round3" → round ≠ "round4" → (a.contract S store).writes (broadcastKey a.number round a.uuid) v :=
    fun round v hname h0 h1 h3 h4 => .broadcast hname
      ⟨fun h => (h0 h).elim, fun h => (h1 h).elim, fun h => (h3 h).elim, fun h => (h4 h).elim⟩
  rw [signPhase5, holds_bind]
  apply signRound_holds hp hn (hwrite _ _ (by decide) (by decide) (by decide) (by decide) (by decide))
  intro commit5a_vec _
  rw [holds_bind]
  apply signRound_holds hp hn (hwrite _ _ (by decide) (by decide) (by decide) (by decide) (by decide))
  intro includes_i _
  rw [holds_bind, holds_ofOption]
  intro decommit5a _
  rw [holds_bind, holds_ofOption]
  intro commit5a_others _
  rw [holds_bind, holds_ofOption]
  intro others5a _
  rw [holds_bind, holds_ofOption]
  intro phase5c _
  rw [holds_bind]
  apply signRound_holds hp hn (hwrite _ _ (by decide) (by decide) (by decide) (by decide) (by decide))
  intro commit5c_vec _
  rw [holds_bind]
  apply signRound_holds hp hn (hwrite _ _ (by decide) (by decide) (by decide) (by decide) (by decide))
  intro decommit5d_vec _
  rw [holds_bind, holds_ofOption]
  intro phase_5a_decomm_vec _
  rw [holds_bind, holds_ofOption]
  intro s_i _
  rw [holds_bind]
  apply signRound_holds hp hn (hwrite _ _ (by decide) (by decide) (by decide) (by decide) (by decide))
  intro s_i_vec _
  rw [holds_bind, holds_ofOption]
  intro s_i_others _
  rw [holds_bind, holds_ofOption]
  intro sig _
  rw [holds_bind, holds_ofOption]
  intro _ _
  trivial

/-- `hlength` is an assertion of the library. -/
theorem sign_holds [DecidableEq G] (a : SignInput L) (store : String → Option String) (hp : 1 ≤ a.number)
    (hn : a.number ≤ a.count)
    (hlength : ∀ sign_keys alpha_vec beta_vec delta_i,
      S.phase2DeltaI sign_keys alpha_vec beta_vec = some delta_i → alpha_vec.length = beta_vec.length) :
    (a.process S).Holds (a.contract S store) fun _ => True := by
  unfold SignInput.process sign
  rw [holds_bind, holds_ofOption]
  intro output houtput
  -- round 0
  rw [holds_bind, broadcast, holds_write]
  refine ⟨.broadcast (by decide) ⟨fun _ => ⟨output, houtput, rfl⟩, by simp, by simp, by simp⟩,
    fun hround0 => ?_⟩
  rw [holds_bind, holds_ofOption]
  intro n hcount
  obtain ⟨rfl, hsize⟩ | ⟨rfl, -⟩ := U16.addOne_cases hcount
  · rw [holds_bind, pollForBroadcasts]
    apply pollLoop_holds
    intro round0_ans_vec hans0
    rw [holds_bind, holds_ofOption]
    intro signers_vec hsigners
    rw [formatSigners, hcount] at hsigners
    have hsigners : a.Signers store signers_vec :=
      formatSignersLoop_spec (j := 0) (fun index hsub => ⟨output.party_id, stored_toStr hround0, hsub⟩)
        (fun i v id index hv hid hsub => ⟨id, ⟨v, hv, hid⟩, hsub⟩) hans0 hsigners
    rw [holds_bind, holds_ofOption]
    intro index hindex
    rw [holds_bind, holds_ofOption]
    intro vss_scheme hvss
    generalize hcreate : S.create (a.coins .create)
      (S.setPrivate output.party_keys output.shared_keys) vss_scheme index signers_vec = sign_keys
    have hcreated : a.Created S store output signers_vec sign_keys :=
      ⟨houtput, hsigners, index, vss_scheme, hindex, hvss, hcreate.symm⟩
    rw [holds_bind, holds_record]
    refine ⟨⟨output, signers_vec, hcreated⟩, ?_⟩
    -- round 1
    rw [holds_bind, broadcast, holds_write]
    refine ⟨.broadcast (by decide) ⟨by simp, fun _ => ⟨output, signers_vec, sign_keys, _, hcreated, rfl⟩,
      by simp, by simp⟩, fun _ => ?_⟩
    rw [holds_bind, pollForBroadcasts]
    apply pollLoop_holds
    intro round1_ans_vec hans1
    rw [holds_bind, holds_ofOption]
    intro round1 hround1
    rw [formatBroadcastPhase1AndMessageAVec, hcount] at hround1
    obtain ⟨-, hma⟩ := formatBroadcastPhase1AndMessageALoop_spec (j := 0) (R := fun _ _ => True)
      (M := fun i m => ∃ message : S.SignBroadcastPhase1 × S.MessageA,
        Stored store (broadcastKey i "round1" a.uuid) message ∧ message.2 = m)
      trivial (fun i v m hv hm => ⟨trivial, m, ⟨v, hv, hm⟩, rfl⟩) hans1 hround1
    rw [holds_bind, holds_ofOption]
    intro _ _
    -- round 2
    rw [holds_bind, holds_ofOption]
    intro vecs hvecs
    rw [formatMessageBAndNiVec, hcount] at hvecs
    obtain ⟨answers, hanswers, rfl⟩ := formatMessageBAndNiLoop_spec (j := 0) hma hvecs
    have hanswers : List.Forall₂ (a.Answer S store) (others a.number (List.range' 1 a.count)) answers := by
      refine hanswers.imp fun i answer hanswer => ?_
      obtain ⟨_, index, ek, ⟨message, hmessage, rfl⟩, hget, hek, hgamma, hw⟩ := hanswer
      exact ⟨output, signers_vec, sign_keys, message, index, ek, hcreated, hmessage, hget, hek, hgamma, hw⟩
    rw [holds_bind]
    refine (sendMessageBs_holds (j := 0) hanswers).mono fun _ _ => ?_
    rw [holds_bind, pollForP2p]
    apply pollLoop_holds
    intro round2_ans_vec hans2
    rw [holds_bind, holds_ofOption]
    intro received hreceived
    obtain ⟨messages, hmessages, hreceived⟩ := Option.bind_eq_some_iff.mp hreceived
    obtain rfl := Option.some.inj hreceived
    have hmessages : List.Forall₂ (fun i m => Stored store (p2pKey i a.number "round2" a.uuid) m)
        (others a.number (List.range' 1 a.count)) messages := by
      have hlen : (others a.number (List.range' 1 a.count)).length = a.threshold := length_others hp hn
      rw [List.range_eq_range', ← hlen] at hmessages
      exact mapM_range'_forall₂ (j := 0) hans2 hmessages
    rw [holds_bind, holds_ofOption]
    intro alphas halphas
    rw [holds_bind, holds_ofOption]
    intro delta_i hdelta
    rw [holds_bind, holds_ofOption]
    intro sigma hsigma
    have hlen : alphas.1.length = (others a.number (List.range' 1 a.count)).length := by
      rw [hanswers.length_eq, hlength _ _ _ _ hdelta, List.length_map]
    obtain ⟨products, hproducts, rfl⟩ := formatRound2AlphaAndMiuVec_spec hsize hmessages halphas hlen
    have hproducts : List.Forall₂ (a.Product S store) (others a.number (List.range' 1 a.count)) products := by
      refine hproducts.imp fun i product hproduct => ?_
      obtain ⟨message, hmessage, halpha, hmiu⟩ := hproduct
      exact ⟨output, signers_vec, sign_keys, message, hcreated, hmessage, halpha, hmiu⟩
    have hphase2 : a.Phase2 S store delta_i sigma :=
      ⟨output, signers_vec, sign_keys, answers, products, hcreated, hanswers, hproducts, hdelta, hsigma⟩
    rw [holds_bind, holds_record]
    refine ⟨hphase2, ?_⟩
    -- round 3
    rw [holds_bind]
    apply signRound_holds hp hn (Written.broadcast (by decide)
      ⟨by simp, by simp, fun _ => ⟨delta_i, sigma, hphase2, rfl⟩, by simp⟩)
    intro delta_vec hdeltas
    rw [holds_bind, holds_ofOption]
    intro delta_inv hinv
    -- round 4
    rw [holds_bind]
    apply signRound_holds hp hn (Written.broadcast (by decide)
      ⟨by simp, by simp, by simp, fun _ => ⟨_, ⟨output, signers_vec, sign_keys, hcreated, rfl⟩, rfl⟩⟩)
    intro decommit_vec hdecommits
    rw [holds_bind, holds_ofOption]
    intro decommit_others hothers
    rw [holds_bind, holds_ofOption]
    intro bc1_others _
    rw [holds_bind, holds_ofOption]
    intro R_others hR
    rw [holds_bind, holds_record]
    refine ⟨⟨delta_vec, decommit_vec, decommit_others, _, _, R_others, hdeltas, hdecommits, hinv, hothers,
      hR, rfl⟩, ?_⟩
    exact signPhase5_holds hp hn _ _ _ _
  · rw [holds_bind]
    apply pollLoop_holds
    intro round0_ans_vec hans0
    rw [holds_bind, holds_ofOption]
    intro signers_vec hsigners
    rw [formatSigners_overflow hcount hsigners, List.getElem?_nil]
    trivial

end Gg18
