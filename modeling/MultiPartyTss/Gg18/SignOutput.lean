import MultiPartyTss.Gg18.SignAlgebra
import MultiPartyTss.Lib.Ecdsa

/-!
# What the signers return

The last rounds of a signing. A signer reveals in round 9 its part `m * k_i + r * sigma_i` of `s`, and puts
the signature together from the parts of all (`sign_reveals`). With the shares of `SignAlgebra` the parts add
up to `k * (m + r * x)` for the sum `k` of the nonces and the sum `x` of the keys, and `R` is the point of
the inverse of `k`. So all signers that return, return one text, and it is an ECDSA signature.
-/

namespace Gg18

open Proc Slots Network

section Output

variable {F G : Type} {L : KeygenLibrary F G} {S : SignLibrary L} [Serde Nat] [Serde F] [Field F]
  [AddCommGroup G] [Module F G]

namespace SignInput

variable (S) (a : SignInput L) (store : String → Option String)

/-- The message as a number. -/
def message : Nat := L.fromBytes (messageBytes S a.msg)

/-- The local signature after round 4, with what it is made from. -/
structure LocalSig (output : L.Output) (sign_keys : S.SignKeys) (sigma : F) (R : G)
    (local_sig : S.LocalSignature) : Prop where
  created : ∃ signers_vec, a.Created S store output signers_vec sign_keys
  phase2 : ∃ delta_i, a.Phase2 S store delta_i sigma
  round4 : ∃ delta_inv, a.Round4 S store delta_inv R
  local_sig_eq : local_sig =
    S.phase5LocalSig (a.coins .localSig) (S.k_i sign_keys) (a.message S) R sigma output.y_sum

/-- What it broadcasts in round 9. -/
def Reveals (s_i : F) : Prop :=
  ∃ output sign_keys sigma R local_sig decommit5d_vec commit5c_vec phase_5a_decomm_vec,
    a.LocalSig S store output sign_keys sigma R local_sig ∧
    S.phase5d local_sig decommit5d_vec commit5c_vec phase_5a_decomm_vec = some s_i

/-- The text of a signature from the parts of all signers. -/
def Signs (text : String) : Prop :=
  ∃ output sign_keys sigma R local_sig s_i_vec s_i_others sig,
    a.LocalSig S store output sign_keys sigma R local_sig ∧
    Everyone store a.count "round9" a.uuid (s_i_vec : List F) ∧
    removeAt s_i_vec (a.number - 1) = some s_i_others ∧
    S.outputSignature local_sig s_i_others.2 = some sig ∧
    checkSig S (S.r sig) (S.s sig) (a.message S) output.y_sum = some () ∧ text = signJson S sig

def RevealsIn (round v : String) : Prop :=
  round = "round9" → ∃ s_i, a.Reveals S store s_i ∧ v = Serde.toStr s_i

end SignInput

/-! ### The last rounds -/

section Last

variable {a : SignInput L} {store : String → Option String}

/-- What a signer keeps to in its last rounds; the rounds before are free. -/
def lastContract (S : SignLibrary L) (a : SignInput L) (store : String → Option String) :
    Proc.Contract String String (SignNote S) :=
  ⟨store, Written a.number a.uuid (a.RevealsIn S store) fun _ _ => True, fun _ => True⟩

theorem lastContract_writes {round v : String} (hname : RoundName round) (hround : round ≠ "round9") :
    (lastContract S a store).writes (broadcastKey a.number round a.uuid) v :=
  .broadcast hname fun h => (hround h).elim

theorem signPhase5_reveals (hp : 1 ≤ a.number) (hn : a.number ≤ a.count) {output : L.Output}
    {sign_keys : S.SignKeys} {sigma : F} {R : G} {local_sig : S.LocalSignature}
    (hlocal : a.LocalSig S store output sign_keys sigma R local_sig) :
    (signPhase5 S a.number a.threshold a.count a.uuid a.coins local_sig R (a.message S) output.y_sum).Holds
      (lastContract S a store) (a.Signs S store) := by
  rw [signPhase5, holds_bind]
  apply signRound_holds hp hn (lastContract_writes (by decide) (by decide))
  intro commit5a_vec _
  rw [holds_bind]
  apply signRound_holds hp hn (lastContract_writes (by decide) (by decide))
  intro includes_i _
  rw [holds_bind, holds_ofOption]
  intro decommit5a _
  rw [holds_bind, holds_ofOption]
  intro commit5a_others _
  rw [holds_bind, holds_ofOption]
  intro others5a _
  rw [holds_bind, holds_ofOption]
  intro phase5c _
  rw [holds_bind]
  apply signRound_holds hp hn (lastContract_writes (by decide) (by decide))
  intro commit5c_vec _
  rw [holds_bind]
  apply signRound_holds hp hn (lastContract_writes (by decide) (by decide))
  intro decommit5d_vec _
  rw [holds_bind, holds_ofOption]
  intro phase_5a_decomm_vec _
  rw [holds_bind, holds_ofOption]
  intro s_i hs_i
  have hreveals : a.Reveals S store s_i := ⟨_, _, _, _, _, _, _, _, hlocal, hs_i⟩
  rw [holds_bind]
  apply signRound_holds hp hn (Written.broadcast (by decide) fun _ => ⟨s_i, hreveals, rfl⟩)
  intro s_i_vec hvec
  rw [holds_bind, holds_ofOption]
  intro s_i_others hothers
  rw [holds_bind, holds_ofOption]
  intro sig hsig
  rw [holds_bind, holds_ofOption]
  intro _ hcheck
  exact ⟨output, sign_keys, sigma, R, local_sig, s_i_vec, s_i_others, sig, hlocal, hvec, hothers, hsig,
    hcheck, rfl⟩

theorem sendMessageBs_free {vecs : MessageBVecs S} {is : List Nat} {j : Nat} :
    (sendMessageBs S a.number a.uuid vecs is j).Holds (lastContract S a store) fun _ => True := by
  induction is generalizing j with
  | nil => trivial
  | cons i is ih =>
    rw [sendMessageBs]
    split_ifs
    · exact ih
    · rw [holds_bind, holds_ofOption]
      intro m_b_gamma _
      rw [holds_bind, holds_ofOption]
      intro m_b_w _
      rw [holds_bind, sendP2p, holds_write]
      exact ⟨.send (by decide) trivial, fun _ => ih⟩

/-- The shares and the point come from what `sign_holds` says of the notes. -/
theorem sign_reveals [DecidableEq G] (a : SignInput L) (store : String → Option String) (hp : 1 ≤ a.number)
    (hn : a.number ≤ a.count)
    (hlength : ∀ sign_keys alpha_vec beta_vec delta_i,
      S.phase2DeltaI sign_keys alpha_vec beta_vec = some delta_i → alpha_vec.length = beta_vec.length) :
    (a.process S).Holds (lastContract S a store) (a.Signs S store) := by
  refine (sign_holds a store hp hn hlength).refine (C := lastContract S a store) ?_
  apply HoldsGiven.bind
  rw [holds_ofOption]
  intro output houtput
  apply HoldsGiven.bind
  rw [broadcast, holds_write]
  refine ⟨lastContract_writes (by decide) (by decide), fun _ => ?_⟩
  apply HoldsGiven.bind
  rw [holds_ofOption]
  intro n hcount
  apply HoldsGiven.bind
  apply pollLoop_holds
  intro round0_ans_vec _
  apply HoldsGiven.bind
  rw [holds_ofOption]
  intro signers_vec hsigners
  obtain ⟨rfl, -⟩ | ⟨rfl, -⟩ := U16.addOne_cases hcount
  · apply HoldsGiven.bind
    rw [holds_ofOption]
    intro index _
    apply HoldsGiven.bind
    rw [holds_ofOption]
    intro vss_scheme _
    apply HoldsGiven.recordBind
    intro hcreated
    refine ⟨trivial, ?_⟩
    apply HoldsGiven.bind
    rw [broadcast, holds_write]
    refine ⟨lastContract_writes (by decide) (by decide), fun _ => ?_⟩
    apply HoldsGiven.bind
    apply pollLoop_holds
    intro round1_ans_vec _
    apply HoldsGiven.bind
    rw [holds_ofOption]
    intro round1 _
    apply HoldsGiven.bind
    rw [holds_ofOption]
    intro _ _
    apply HoldsGiven.bind
    rw [holds_ofOption]
    intro vecs _
    apply HoldsGiven.bind
    refine sendMessageBs_free.mono fun _ _ => ?_
    apply HoldsGiven.bind
    apply pollLoop_holds
    intro round2_ans_vec _
    apply HoldsGiven.bind
    rw [holds_ofOption]
    intro received _
    apply HoldsGiven.bind
    rw [holds_ofOption]
    intro alphas _
    apply HoldsGiven.bind
    rw [holds_ofOption]
    intro delta_i _
    apply HoldsGiven.bind
    rw [holds_ofOption]
    intro sigma _
    apply HoldsGiven.recordBind
    intro hphase2
    refine ⟨trivial, ?_⟩
    apply HoldsGiven.bind
    apply signRound_holds hp hn (lastContract_writes (by decide) (by decide))
    intro delta_vec _
    apply HoldsGiven.bind
    rw [holds_ofOption]
    intro delta_inv _
    apply HoldsGiven.bind
    apply signRound_holds hp hn (lastContract_writes (by decide) (by decide))
    intro decommit_vec _
    apply HoldsGiven.bind
    rw [holds_ofOption]
    intro decommit_others _
    apply HoldsGiven.bind
    rw [holds_ofOption]
    intro bc1_others _
    apply HoldsGiven.bind
    rw [holds_ofOption]
    intro R_others _
    apply HoldsGiven.recordBind
    intro hround4
    refine ⟨trivial, ?_⟩
    apply Holds.toGiven
    obtain ⟨output', signers_vec', hcreated⟩ := hcreated
    obtain rfl := Option.some.inj (houtput.symm.trans hcreated.output_eq)
    exact signPhase5_reveals hp hn ⟨⟨signers_vec', hcreated⟩, ⟨delta_i, hphase2⟩, ⟨delta_inv, hround4⟩, rfl⟩
  · apply HoldsGiven.bind
    rw [formatSigners_overflow hcount hsigners, List.getElem?_nil]
    trivial

end Last

/-! ### The parts of a signature -/

/-- What the last rounds rely on. With `r` the coordinate of the point, a signer reveals `m * k_i + r * sigma_i`;
the signature is a function of the message, the point, the public key and the sum of the parts, and `s` is
that sum or its negative, and not zero. -/
structure OutputLaws (S : SignLibrary L) (xCoord : G → F)
    (signature : Nat → G → G → F → Option S.SignatureRecid) : Prop where
  phase5d : ∀ seed k_i message R sigma y decom_vec2 com_vec2 decom_vec1 s_i,
    S.phase5d (S.phase5LocalSig seed k_i message R sigma y) decom_vec2 com_vec2 decom_vec1 = some s_i →
      s_i = message * k_i + xCoord R * sigma
  outputSignature : ∀ seed k_i message R sigma y s_vec,
    S.outputSignature (S.phase5LocalSig seed k_i message R sigma y) s_vec =
      signature message R y (message * k_i + xCoord R * sigma + s_vec.sum)
  signature : ∀ message R y s sig, signature message R y s = some sig →
    S.r sig = xCoord R ∧ (S.s sig = s ∨ S.s sig = -s) ∧ S.s sig ≠ 0

variable [DecidableEq G]

/-- Signing, with what is said of the last rounds. -/
@[reducible] def lastProtocol (S : SignLibrary L)
    (hlength : ∀ sign_keys alpha_vec beta_vec delta_i,
      S.phase2DeltaI sign_keys alpha_vec beta_vec = some delta_i → alpha_vec.length = beta_vec.length) :
    Protocol (SignInput L) (SignNote S) where
  rounds := signRounds
  number := SignInput.number
  count := SignInput.count
  uuid := SignInput.uuid
  process := fun a => a.process S
  broadcasts := SignInput.RevealsIn S
  sends := fun _ _ _ _ => True
  notes := fun _ _ _ => True
  returns := SignInput.Signs S
  wellNamed := signRounds_wellNamed
  follows := sign_follows
  holds := fun a store hp hn => sign_reveals a store hp hn hlength

namespace Signing

variable {hlength : ∀ sign_keys alpha_vec beta_vec delta_i,
    S.phase2DeltaI sign_keys alpha_vec beta_vec = some delta_i → alpha_vec.length = beta_vec.length}
  {reserved : String → Bool} {build : U16.Build} {t : Nat} {key : Nat → String} {msg : String}
  {coins : Nat → SignDraw → L.Seed} {uuid : String} {output : Nat → L.Output} {g : G}
  {net : Net Nat String String (SignNote S) String}

/-- The same signers, with what is said of their last rounds. -/
theorem last (h : Signing hlength reserved build t key msg coins uuid net) :
    Session (lastProtocol S hlength) reserved (parties (t + 1) (signerInput build t key msg coins uuid)) (t + 1)
      uuid net :=
  ⟨h.count_eq, h.uuid_eq, h.bounds, h.distinct, h.started, h.consistent⟩

/-- What a signer revealed, if the entry of its number is there. -/
theorem revealed (h : Signing hlength reserved build t key msg coins uuid net) {q : Nat} {s_i : F}
    (hs_i : Stored (visible reserved net.store) (broadcastKey q "round9" uuid) s_i) :
    q ∈ Finset.Icc 1 (t + 1) ∧
      (signerInput build t key msg coins uuid q).Reveals S (visible reserved net.store) s_i := by
  obtain ⟨v, hv, hread⟩ := hs_i
  obtain ⟨p, a, -, ha, rfl, -, -, hreveals⟩ := h.last.broadcaster (by decide) hv
  obtain ⟨hp, rfl⟩ := parties_some ha
  obtain ⟨s_i', hs_i', rfl⟩ := hreveals rfl
  rw [Serde.round_trip, Option.some.injEq] at hread
  subst hread
  exact ⟨Finset.mem_Icc.mpr hp, hs_i'⟩

/-- The inverse of the sum of the nonces gives the point. -/
theorem point (h : Signing hlength reserved build t key msg coins uuid net) (laws : SignLaws S g)
    (hkeys : OneKeygen (t + 1) key output) {keys : Nat → S.SignKeys}
    (hall : HasKeys build t key msg coins uuid (visible reserved net.store) output keys) {p : Nat}
    (hp : p ∈ Finset.Icc 1 (t + 1)) {delta_inv : F} {R : G}
    (hround4 : (signerInput build t key msg coins uuid p).Round4 S (visible reserved net.store) delta_inv R) :
    R = (∑ q ∈ Finset.Icc 1 (t + 1), S.k_i (keys q))⁻¹ • g := by
  obtain ⟨hinv, hR⟩ := h.round4_point laws hkeys hall hp hround4
  obtain ⟨_, _, _, _, _, _, -, -, hphase3, -⟩ := hround4
  have hgamma : ∑ q ∈ Finset.Icc 1 (t + 1), S.gamma_i (keys q) ≠ 0 := by
    intro hzero
    have hone := laws.phase3 _ _ hphase3
    rw [hinv, hzero, mul_zero, inv_zero, zero_mul] at hone
    exact zero_ne_one hone
  rw [hR, hinv, smul_smul, mul_inv, mul_assoc, inv_mul_cancel₀ hgamma, mul_one]

section Parts

variable {xCoord : G → F} {signature : Nat → G → G → F → Option S.SignatureRecid}

/-- The part of a signer, for the keys of all. -/
theorem part_eq (h : Signing hlength reserved build t key msg coins uuid net) (laws : SignLaws S g)
    (hkeys : OneKeygen (t + 1) key output) {keys : Nat → S.SignKeys}
    (hall : HasKeys build t key msg coins uuid (visible reserved net.store) output keys) {q : Nat}
    (hq : q ∈ Finset.Icc 1 (t + 1)) {out : L.Output} {sign_keys : S.SignKeys} {sigma : F} {R : G}
    {local_sig : S.LocalSignature}
    (hlocal : (signerInput build t key msg coins uuid q).LocalSig S (visible reserved net.store) out sign_keys
      sigma R local_sig) :
    out = output q ∧ sign_keys = keys q ∧ R = (∑ p ∈ Finset.Icc 1 (t + 1), S.k_i (keys p))⁻¹ • g := by
  obtain ⟨signers_vec, hcreated⟩ := hlocal.created
  obtain ⟨signers_vec', hcreated'⟩ := hall q hq
  obtain ⟨rfl, -, rfl⟩ := hcreated.unique hcreated'
  obtain ⟨delta_inv, hround4⟩ := hlocal.round4
  exact ⟨rfl, rfl, h.point laws hkeys hall hq hround4⟩

/-- Once all have revealed their parts, all have created their keys, and the parts add up to the product of
the nonce with what is signed. -/
theorem parts_sum (h : Signing hlength reserved build t key msg coins uuid net) (laws : SignLaws S g)
    (outputs : OutputLaws S xCoord signature) (hkeys : OneKeygen (t + 1) key output) {s_i_vec : List F}
    (hvec : Everyone (visible reserved net.store) (t + 1) "round9" uuid s_i_vec) :
    ∃ keys : Nat → S.SignKeys, HasKeys build t key msg coins uuid (visible reserved net.store) output keys ∧
      s_i_vec.sum = (∑ q ∈ Finset.Icc 1 (t + 1), S.k_i (keys q)) * (L.fromBytes (messageBytes S msg) +
        xCoord ((∑ q ∈ Finset.Icc 1 (t + 1), S.k_i (keys q))⁻¹ • g) *
          ∑ q ∈ Finset.Icc 1 (t + 1), S.w_i (keys q)) := by
  let _ : Inhabited F := ⟨0⟩
  obtain ⟨part, rfl, hpart⟩ := forall₂_function List.nodup_range' (hvec.imp fun q s_i hs_i => (h.revealed hs_i).2)
  simp only [← List.mem_toFinset, toFinset_range'] at hpart
  have hsome : Nonempty S.SignKeys := by
    obtain ⟨_, sign_keys, -⟩ := hpart 1 (Finset.mem_Icc.mpr ⟨le_refl 1, Nat.le_add_left 1 t⟩)
    exact ⟨sign_keys⟩
  choose! out keys sigma R local_sig decom_vec2 com_vec2 decom_vec1 hlocal hphase5d using hpart
  have hall : HasKeys build t key msg coins uuid (visible reserved net.store) output keys := by
    intro q hq
    obtain ⟨signers_vec, hcreated⟩ := (hlocal q hq).created
    rw [Option.some.inj (hcreated.output_eq.symm.trans (hkeys.reads q hq))] at hcreated
    exact ⟨signers_vec, hcreated⟩
  choose! delta hphase2 using fun q hq => (hlocal q hq).phase2
  have hsum := (h.phase2_sums laws hkeys hall hphase2).2
  refine ⟨keys, hall, ?_⟩
  have hpart : ∀ q ∈ Finset.Icc 1 (t + 1), part q = L.fromBytes (messageBytes S msg) * S.k_i (keys q) +
      xCoord ((∑ p ∈ Finset.Icc 1 (t + 1), S.k_i (keys p))⁻¹ • g) * sigma q := by
    intro q hq
    obtain ⟨-, -, hR⟩ := h.part_eq laws hkeys hall hq (hlocal q hq)
    have heq := hphase5d q hq
    rw [(hlocal q hq).local_sig_eq] at heq
    rw [outputs.phase5d _ _ _ _ _ _ _ _ _ _ heq, hR]
    rfl
  rw [sum_map_range', Finset.sum_congr rfl hpart, Finset.sum_add_distrib, ← Finset.mul_sum, ← Finset.mul_sum,
    hsum]
  ring

/-- What a signer that has returned has put together. -/
theorem signed (h : Signing hlength reserved build t key msg coins uuid net) (laws : SignLaws S g)
    (outputs : OutputLaws S xCoord signature) (hkeys : OneKeygen (t + 1) key output) {p : Nat} {text : String}
    (htext : net.output p = some text) :
    p ∈ Finset.Icc 1 (t + 1) ∧ ∃ keys sig,
      HasKeys build t key msg coins uuid (visible reserved net.store) output keys ∧ text = signJson S sig ∧
      signature (L.fromBytes (messageBytes S msg))
        ((∑ q ∈ Finset.Icc 1 (t + 1), S.k_i (keys q))⁻¹ • g) (output p).y_sum
        ((∑ q ∈ Finset.Icc 1 (t + 1), S.k_i (keys q)) * (L.fromBytes (messageBytes S msg) +
          xCoord ((∑ q ∈ Finset.Icc 1 (t + 1), S.k_i (keys q))⁻¹ • g) *
            ∑ q ∈ Finset.Icc 1 (t + 1), S.w_i (keys q))) = some sig := by
  obtain ⟨a, ha, out, sign_keys, sigma, R, local_sig, s_i_vec, s_i_others, sig, hlocal, hvec, hothers, hsig, -,
    rfl⟩ := h.last.returned htext
  obtain ⟨hp, rfl⟩ := parties_some ha
  have hp' : p ∈ Finset.Icc 1 (t + 1) := Finset.mem_Icc.mpr hp
  obtain ⟨keys, hall, hsum⟩ := h.parts_sum laws outputs hkeys hvec
  obtain ⟨rfl, rfl, rfl⟩ := h.part_eq laws hkeys hall hp' hlocal
  refine ⟨hp', keys, sig, hall, rfl, ?_⟩
  -- the own part is the one it has revealed
  obtain ⟨hown, -⟩ := removeAt_spec hp.1 hp.2 hvec hothers
  obtain ⟨-, out, sign_keys, sigma', R, local_sig', decom_vec2, com_vec2, decom_vec1, hlocal', hphase5d⟩ :=
    h.revealed hown
  obtain ⟨rfl, rfl, rfl⟩ := h.part_eq laws hkeys hall hp' hlocal'
  obtain ⟨_, hphase2⟩ := hlocal.phase2
  obtain ⟨_, hphase2'⟩ := hlocal'.phase2
  obtain ⟨-, rfl⟩ := hphase2.unique hphase2'
  rw [hlocal'.local_sig_eq] at hphase5d
  have hpart := outputs.phase5d _ _ _ _ _ _ _ _ _ _ hphase5d
  rw [hlocal.local_sig_eq, outputs.outputSignature] at hsig
  rw [← hsum, ← sum_removeAt hothers, hpart]
  exact hsig

omit [Serde F] [DecidableEq G] [Field F] [AddCommGroup G] [Module F G] in
theorem HasKeys.unique {store : String → Option String} {keys keys' : Nat → S.SignKeys}
    (h : HasKeys build t key msg coins uuid store output keys)
    (h' : HasKeys build t key msg coins uuid store output keys') :
    ∀ q ∈ Finset.Icc 1 (t + 1), keys q = keys' q := by
  intro q hq
  obtain ⟨signers_vec, hcreated⟩ := h q hq
  obtain ⟨signers_vec', hcreated'⟩ := h' q hq
  exact (hcreated.unique hcreated').2.2

end Parts

end Signing

/-! ### One signature -/

section Main

variable (S) (build : U16.Build) (t : Nat) (key : Nat → String) (msg : String)
  (coins : Nat → SignDraw → L.Seed) (uuid : String)

theorem signing_of_run {hlength : ∀ sign_keys alpha_vec beta_vec delta_i,
      S.phase2DeltaI sign_keys alpha_vec beta_vec = some delta_i → alpha_vec.length = beta_vec.length}
    {schedule : List Nat} {net : Net Nat String String (SignNote S) String}
    (hrun : Machine.exec Net.move (startSigners S build t key msg coins uuid) schedule = some net) :
    Signing hlength (fun _ => false) build t key msg coins uuid net :=
  (signProtocol S hlength).session_of_run (t + 1) (signerInput build t key msg coins uuid) (fun _ => rfl)
    (fun _ => rfl) (fun _ => rfl) hrun

/-- All that have returned, have returned one text: a signature of the message under the point of the sum of
the keys that the signers have created. -/
structure OneSignature (xCoord : G → F) (g : G) (output : Nat → L.Output)
    (net : Net Nat String String (SignNote S) String) : Prop where
  agree : ∀ p q text text', net.output p = some text → net.output q = some text' → text = text'
  valid : ∀ p text, net.output p = some text → ∃ keys sig,
    Signing.HasKeys build t key msg coins uuid (visible (fun _ => false) net.store) output keys ∧
    text = signJson S sig ∧
    Ecdsa.Valid xCoord g ((∑ q ∈ Finset.Icc 1 (t + 1), S.w_i (keys q)) • g)
      (L.fromBytes (messageBytes S msg)) (S.r sig) (S.s sig)

variable {S} {build} {t} {key} {msg} {coins} {uuid}

theorem Signing.oneSignature {hlength : ∀ sign_keys alpha_vec beta_vec delta_i,
      S.phase2DeltaI sign_keys alpha_vec beta_vec = some delta_i → alpha_vec.length = beta_vec.length}
    {output : Nat → L.Output} {g y_sum : G} {xCoord : G → F}
    {signature : Nat → G → G → F → Option S.SignatureRecid}
    {net : Net Nat String String (SignNote S) String}
    (h : Signing hlength (fun _ => false) build t key msg coins uuid net) (laws : SignLaws S g)
    (outputs : OutputLaws S xCoord signature) (hneg : ∀ P, xCoord (-P) = xCoord P)
    (hkeys : OneKeygen (t + 1) key output) (hy : ∀ p ∈ Finset.Icc 1 (t + 1), (output p).y_sum = y_sum) :
    OneSignature S build t key msg coins uuid xCoord g output net := by
  constructor
  · intro p q text text' htext htext'
    obtain ⟨hp, keys, sig, hall, rfl, hsig⟩ := h.signed laws outputs hkeys htext
    obtain ⟨hq, keys', sig', hall', rfl, hsig'⟩ := h.signed laws outputs hkeys htext'
    have hsame : ∀ f : S.SignKeys → F, ∑ q ∈ Finset.Icc 1 (t + 1), f (keys q) =
        ∑ q ∈ Finset.Icc 1 (t + 1), f (keys' q) :=
      fun f => Finset.sum_congr rfl fun q hq => congrArg f (hall.unique hall' q hq)
    rw [hy p hp, hsame S.k_i, hsame S.w_i] at hsig
    rw [hy q hq, hsig, Option.some.injEq] at hsig'
    rw [hsig']
  · intro p text htext
    obtain ⟨hp, keys, sig, hall, rfl, hsig⟩ := h.signed laws outputs hkeys htext
    obtain ⟨hr, hs, hs0⟩ := outputs.signature _ _ _ _ _ hsig
    refine ⟨keys, sig, hall, rfl, ?_⟩
    rcases hs with hs | hs
    · rw [← hr] at hs
      exact Ecdsa.valid_of_nonce rfl hr hs hs0
    · rw [← hr, ← neg_eq_iff_eq_neg] at hs
      rw [← Ecdsa.valid_neg hneg]
      exact Ecdsa.valid_of_nonce rfl hr hs (neg_ne_zero.mpr hs0)

variable (S) (build) (t) (key) (msg) (coins) (uuid)

/-- In every state of the signers `1..=t+1` of a session, under any interleaving. -/
theorem signers_return_one_signature {output : Nat → L.Output} {g y_sum : G} {xCoord : G → F}
    {signature : Nat → G → G → F → Option S.SignatureRecid} (laws : SignLaws S g)
    (outputs : OutputLaws S xCoord signature) (hneg : ∀ P, xCoord (-P) = xCoord P)
    (hkeys : OneKeygen (t + 1) key output) (hy : ∀ p ∈ Finset.Icc 1 (t + 1), (output p).y_sum = y_sum)
    (schedule : List Nat) (net : Net Nat String String (SignNote S) String)
    (hrun : Machine.exec Net.move (startSigners S build t key msg coins uuid) schedule = some net) :
    OneSignature S build t key msg coins uuid xCoord g output net := by
  have h : Signing (fun sign_keys alpha_vec beta_vec delta_i hdelta =>
      (laws.phase2_delta sign_keys alpha_vec beta_vec delta_i hdelta).1) (fun _ => false) build t key msg coins
      uuid net := signing_of_run S build t key msg coins uuid hrun
  exact h.oneSignature laws outputs hneg hkeys hy

end Main

end Output

/-! ### A signature of two -/

/-- The small library with the last rounds: a local signature is the part, the point and the message, and the
coordinate of a point is its square. -/
def SignLibrary.signing : SignLibrary KeygenLibrary.small :=
  { SignLibrary.small with
    LocalSignature := ZMod 3 × ZMod 3
    SignatureRecid := ZMod 3 × ZMod 3
    phase5LocalSig := fun _ k_i message R sigma _ => (message * k_i + R * R * sigma, R)
    phase5aBroadcast5bZkproof := fun seed _ => (seed, seed, seed, seed)
    phase5c := fun seed _ _ _ _ _ _ _ => some (seed, seed)
    phase5d := fun local_sig _ _ _ => some local_sig.1
    outputSignature := fun local_sig s_vec =>
      if local_sig.1 + s_vec.sum = 0 then none else some (local_sig.2 * local_sig.2, local_sig.1 + s_vec.sum)
    r := Prod.fst
    s := Prod.snd
    recid := fun _ => 0 }

theorem SignLibrary.signing_laws : SignLaws SignLibrary.signing (1 : ZMod 3) :=
  ⟨small_laws.mta, small_laws.phase2_delta, small_laws.phase2_sigma, small_laws.phase3, small_laws.phase4,
    small_laws.g_gamma_i_eq⟩

theorem SignLibrary.signing_output : OutputLaws SignLibrary.signing (fun P : ZMod 3 => P * P)
    fun _ R _ s => if s = 0 then none else some (R * R, s) := by
  refine ⟨fun _ _ _ _ _ _ _ _ _ s_i h => (Option.some.inj h).symm, fun _ _ _ _ _ _ _ => rfl,
    fun _ R _ s sig h => ?_⟩
  split_ifs at h with hs
  obtain rfl := Option.some.inj h
  exact ⟨rfl, Or.inl rfl, hs⟩

/-- Signer 1 has the keys of party 2, and signer 2 those of party 1. -/
def swappedSigning : Net Nat String String (SignNote SignLibrary.signing) String :=
  letI := Serde.numeric Nat
  letI := Serde.numeric (ZMod 3)
  startSigners SignLibrary.signing .release 1 (fun p => Serde.toStr (smallOutput (3 - p))) "message"
    (fun p _ => (p - 1 : Nat)) "session"

/-- Two signers that move in turn both return. -/
theorem swapped_signers_sign :
    letI := Serde.numeric Nat
    letI := Serde.numeric (ZMod 3)
    ∃ net : Net Nat String String (SignNote SignLibrary.signing) String,
      Machine.exec Net.move swappedSigning ((List.range 46).map fun i => i % 2 + 1) = some net ∧
      OneSignature SignLibrary.signing .release 1 (fun p => Serde.toStr (smallOutput (3 - p))) "message"
        (fun p _ => (p - 1 : Nat)) "session" (fun P : ZMod 3 => P * P) 1 (fun p => smallOutput (3 - p)) net ∧
      (net.output 1).isSome ∧ (net.output 2).isSome := by
  have hrun : ((Machine.exec Net.move swappedSigning ((List.range 46).map fun i => i % 2 + 1)).map fun net =>
      ((net.output 1).isSome, (net.output 2).isSome)) = some (true, true) := by
    decide +kernel
  let _ := Serde.numeric Nat
  let _ := Serde.numeric (ZMod 3)
  obtain ⟨net, hnet, hfinished⟩ := Option.map_eq_some_iff.mp hrun
  refine ⟨net, hnet, ?_, congrArg Prod.fst hfinished, congrArg Prod.snd hfinished⟩
  exact signers_return_one_signature _ _ _ _ _ _ _ SignLibrary.signing_laws SignLibrary.signing_output
    (fun P => neg_mul_neg P P) smallOutput_oneKeygen (fun p _ => rfl) _ net hnet

end Gg18
