import Mathlib.Algebra.Module.BigOperators
import MultiPartyTss.Gg18.KeygenRun
import MultiPartyTss.Gg18.SignSpec
import MultiPartyTss.Lib.Products

/-!
# The algebra of a signing

Signers `1..=t+1` with keys of one key generation (`OneKeygen.of_keygen`), in any order. Signer `p` answers
the first message of `q` under the Paillier key of `q`, found through the key generation index of `q`, and `q`
takes its share of `k_q * gamma_p` from that answer (`cross`). So the shares add up to the products of the
sums (`phase2_sums`), and all signers come to the same point `R` (`round4_point`).
-/

namespace Gg18

open Proc Slots Network

section Algebra

variable {F G : Type} {L : KeygenLibrary F G} {S : SignLibrary L} [Serde Nat]

namespace SignInput

/-! ### What the store determines -/

variable {a : SignInput L} {store : String → Option String}

theorem Signers.unique {signers_vec signers_vec' : List Nat} (h : a.Signers store signers_vec)
    (h' : a.Signers store signers_vec') : signers_vec = signers_vec' := by
  refine forall₂_unique (fun i _ index index' hindex hindex' => ?_) h h'
  obtain ⟨party_id, hid, hsub⟩ := hindex
  obtain ⟨party_id', hid', hsub'⟩ := hindex'
  obtain rfl := hid.unique hid'
  exact Option.some.inj (hsub.symm.trans hsub')

theorem Created.unique {output output' : L.Output} {signers_vec signers_vec' : List Nat}
    {sign_keys sign_keys' : S.SignKeys} (h : a.Created S store output signers_vec sign_keys)
    (h' : a.Created S store output' signers_vec' sign_keys') :
    output = output' ∧ signers_vec = signers_vec' ∧ sign_keys = sign_keys' := by
  obtain rfl := Option.some.inj (h.output_eq.symm.trans h'.output_eq)
  obtain rfl := h.signers.unique h'.signers
  obtain ⟨index, vss_scheme, hindex, hvss, rfl⟩ := h.create_eq
  obtain ⟨index', vss_scheme', hindex', hvss', rfl⟩ := h'.create_eq
  obtain rfl := Option.some.inj (hindex.symm.trans hindex')
  obtain rfl := Option.some.inj (hvss.symm.trans hvss')
  exact ⟨rfl, rfl, rfl⟩

theorem Answer.unique {i : Nat} {answer answer' : (S.MessageB × F) × (S.MessageB × F)}
    (h : a.Answer S store i answer) (h' : a.Answer S store i answer') : answer = answer' := by
  obtain ⟨output, signers_vec, sign_keys, message, index, ek, hcreated, hmessage, hindex, hek, hgamma, hw⟩ := h
  obtain ⟨output', signers_vec', sign_keys', message', index', ek', hcreated', hmessage', hindex', hek',
    hgamma', hw'⟩ := h'
  obtain ⟨rfl, rfl, rfl⟩ := hcreated.unique hcreated'
  obtain rfl := hmessage.unique hmessage'
  obtain rfl := Option.some.inj (hindex.symm.trans hindex')
  obtain rfl := Option.some.inj (hek.symm.trans hek')
  exact Prod.ext (Option.some.inj (hgamma.symm.trans hgamma')) (Option.some.inj (hw.symm.trans hw'))

theorem Product.unique {i : Nat} {product product' : F × F} (h : a.Product S store i product)
    (h' : a.Product S store i product') : product = product' := by
  obtain ⟨output, signers_vec, sign_keys, message, hcreated, hmessage, halpha, hmiu⟩ := h
  obtain ⟨output', signers_vec', sign_keys', message', hcreated', hmessage', halpha', hmiu'⟩ := h'
  obtain ⟨rfl, rfl, rfl⟩ := hcreated.unique hcreated'
  obtain rfl := hmessage.unique hmessage'
  exact Prod.ext (Option.some.inj (halpha.symm.trans halpha')) (Option.some.inj (hmiu.symm.trans hmiu'))

theorem Phase2.unique {delta_i delta_i' sigma sigma' : F} (h : a.Phase2 S store delta_i sigma)
    (h' : a.Phase2 S store delta_i' sigma') : delta_i = delta_i' ∧ sigma = sigma' := by
  obtain ⟨output, signers_vec, sign_keys, answers, products, hcreated, hanswers, hproducts, hdelta, hsigma⟩ := h
  obtain ⟨output', signers_vec', sign_keys', answers', products', hcreated', hanswers', hproducts', hdelta',
    hsigma'⟩ := h'
  obtain ⟨rfl, rfl, rfl⟩ := hcreated.unique hcreated'
  obtain rfl := forall₂_unique (fun _ _ _ _ hb hc => hb.unique hc) hanswers hanswers'
  obtain rfl := forall₂_unique (fun _ _ _ _ hb hc => hb.unique hc) hproducts hproducts'
  exact ⟨Option.some.inj (hdelta.symm.trans hdelta'), Option.some.inj (hsigma.symm.trans hsigma')⟩

end SignInput

variable [Serde F] [DecidableEq G] [Field F] [AddCommGroup G] [Module F G]

/-! ### The setting -/

/-- What the signing relies on. -/
structure SignLaws (S : SignLibrary L) (g : G) : Prop where
  /-- The answer for a secret `b` to the first message of `k`, under the key that message is made with. -/
  mta : ∀ seed n seed_a seed_b k b m_b beta alpha,
    S.messageB seed_b b (L.ek (L.create seed n)) (S.messageA seed_a k (L.ek (L.create seed n))) =
      some (m_b, beta) →
    S.verifyProofsGetAlpha m_b (S.dk (L.create seed n)) k = some alpha → alpha + beta = k * b
  phase2_delta : ∀ sign_keys alpha_vec beta_vec delta_i,
    S.phase2DeltaI sign_keys alpha_vec beta_vec = some delta_i → alpha_vec.length = beta_vec.length ∧
      delta_i = S.k_i sign_keys * S.gamma_i sign_keys + alpha_vec.sum + beta_vec.sum
  phase2_sigma : ∀ sign_keys miu_vec ni_vec sigma,
    S.phase2SigmaI sign_keys miu_vec ni_vec = some sigma →
      sigma = S.k_i sign_keys * S.w_i sign_keys + miu_vec.sum + ni_vec.sum
  phase3 : ∀ delta_vec delta_inv, S.phase3ReconstructDelta delta_vec = some delta_inv →
    delta_inv * delta_vec.sum = 1
  phase4 : ∀ delta_inv b_proof_vec decommit_vec bc1_vec R,
    S.phase4 delta_inv b_proof_vec decommit_vec bc1_vec = some R →
      R = delta_inv • (decommit_vec.map S.g_gamma_i).sum
  g_gamma_i_eq : ∀ seed private_x vss_scheme index signers_vec seed',
    S.g_gamma_i (S.phase1Broadcast seed' (S.create seed private_x vss_scheme index signers_vec)).2 =
      S.gamma_i (S.create seed private_x vss_scheme index signers_vec) • g

/-- Signing, as a protocol. -/
@[reducible] def signProtocol (S : SignLibrary L)
    (hlength : ∀ sign_keys alpha_vec beta_vec delta_i,
      S.phase2DeltaI sign_keys alpha_vec beta_vec = some delta_i → alpha_vec.length = beta_vec.length) :
    Protocol (SignInput L) (SignNote S) where
  rounds := signRounds
  number := SignInput.number
  count := SignInput.count
  uuid := SignInput.uuid
  process := fun a => a.process S
  broadcasts := SignInput.Broadcasts S
  sends := SignInput.Sends S
  notes := SignInput.Notes S
  returns := fun _ _ _ => True
  wellNamed := signRounds_wellNamed
  follows := sign_follows
  holds := fun a store hp hn => sign_holds a store hp hn hlength

/-- The keys of the signers are outputs of one key generation: a signer has the private keys of its index,
and entry `s` of everyone's Paillier vector is the key of the one with index `s + 1`. -/
structure OneKeygen (n : Nat) (key : Nat → String) (output : Nat → L.Output) : Prop where
  reads : ∀ p ∈ Finset.Icc 1 n, Serde.fromStr (key p) = some (output p)
  created : ∀ p ∈ Finset.Icc 1 n, ∃ seed, (output p).party_keys = L.create seed (output p).party_id
  paillier : ∀ p ∈ Finset.Icc 1 n, ∀ q ∈ Finset.Icc 1 n, 1 ≤ (output q).party_id ∧
    (output p).paillier_key_vec[(output q).party_id - 1]? = some (L.ek (output q).party_keys)

omit [Serde Nat] [Serde F] [DecidableEq G] in
/-- What parties of a key generation return are keys of one key generation. -/
theorem OneKeygen.of_keygen [Serde AEAD] {P : Type} {reserved : String → Bool}
    {input : P → Option (KeygenInput L)} {count : Nat} {uuid : String}
    {net : Net P String String (KeygenNote F) String} (h : KeygenSession reserved input count uuid net)
    (hek : ∀ seed seed' n, L.e (L.phase1BroadcastPhase3ProofOfCorrectKey seed' (L.create seed n)).1 =
      L.ek (L.create seed n))
    {n : Nat} {party : Nat → P} {key : Nat → String} {output : Nat → L.Output}
    (hkey : ∀ p ∈ Finset.Icc 1 n, net.output (party p) = some (key p))
    (hread : ∀ p ∈ Finset.Icc 1 n, Serde.fromStr (key p) = some (output p)) : OneKeygen n key output := by
  obtain ⟨cs, hcs, houtputs⟩ := h.agreement
  have hone : ∀ p ∈ Finset.Icc 1 n, ∃ a : KeygenInput L,
      (output p).party_keys = a.keys ∧ (output p).party_id = a.number ∧ 1 ≤ a.number ∧
      (output p).paillier_key_vec = cs.map (fun c => L.e c.commitment) ∧
      cs[a.number - 1]?.map (fun c => L.e c.commitment) = some (L.ek a.keys) := by
    intro p hp
    obtain ⟨a, ha, -⟩ := h.returned (hkey p hp)
    obtain ⟨hpos, hle⟩ : 1 ≤ a.number ∧ a.number ≤ count := h.bounds _ a ha
    obtain ⟨hlen, shared_keys, hout⟩ := houtputs _ a _ ha (hkey p hp)
    rw [hread p hp, Option.some.injEq] at hout
    obtain ⟨c, hc⟩ : ∃ c, cs[a.number - 1]? = some c :=
      ⟨_, List.getElem?_eq_getElem (show a.number - 1 < cs.length by omega)⟩
    obtain ⟨⟨q, b, -, hb, hnumber, -, hcommitment, -⟩, -⟩ := hcs _ c hc
    rw [Nat.sub_add_cancel hpos] at hnumber
    obtain ⟨-, rfl⟩ := h.same hb ha hnumber
    refine ⟨b, ?_, ?_, hpos, ?_, ?_⟩
    · rw [hout]
      rfl
    · rw [hout]
      rfl
    · rw [hout]
      rfl
    · rw [hc, Option.map_some, hcommitment]
      exact congrArg some (hek _ _ _)
  refine ⟨hread, fun p hp => ?_, fun p hp q hq => ?_⟩
  · obtain ⟨a, hkeys, hid, -⟩ := hone p hp
    rw [hkeys, hid]
    exact ⟨a.coins .create, rfl⟩
  · obtain ⟨-, -, -, -, hvec, -⟩ := hone p hp
    obtain ⟨b, hkeys, hid, hpos, -, hentry⟩ := hone q hq
    rw [hkeys, hid, hvec, List.getElem?_map]
    exact ⟨hpos, hentry⟩

section Signers

variable (build : U16.Build) (t : Nat) (key : Nat → String) (msg : String) (coins : Nat → SignDraw → L.Seed)
  (uuid : String)

/-- What signer `p` of session `uuid` runs with. -/
def signerInput (p : Nat) : SignInput L := ⟨build, t, key p, msg, coins p, ⟨p, uuid⟩⟩

end Signers

section Run

variable {hlength : ∀ sign_keys alpha_vec beta_vec delta_i,
    S.phase2DeltaI sign_keys alpha_vec beta_vec = some delta_i → alpha_vec.length = beta_vec.length}
  {reserved : String → Bool} {build : U16.Build} {t : Nat} {key : Nat → String} {msg : String}
  {coins : Nat → SignDraw → L.Seed} {uuid : String} {output : Nat → L.Output} {g : G}
  {net : Net Nat String String (SignNote S) String}

/-- The signers in the middle of a run. -/
abbrev Signing (hlength : ∀ sign_keys alpha_vec beta_vec delta_i,
      S.phase2DeltaI sign_keys alpha_vec beta_vec = some delta_i → alpha_vec.length = beta_vec.length)
    (reserved : String → Bool) (build : U16.Build) (t : Nat) (key : Nat → String) (msg : String)
    (coins : Nat → SignDraw → L.Seed) (uuid : String) (net : Net Nat String String (SignNote S) String) :
    Prop :=
  Session (signProtocol S hlength) reserved (parties (t + 1) (signerInput build t key msg coins uuid)) (t + 1)
    uuid net

namespace Signing

/-- A broadcast of number `i` is one of signer `i`. -/
theorem broadcasts (h : Signing hlength reserved build t key msg coins uuid net) {β : Type} [Serde β]
    {i : Nat} {round : String} {b : β} (hr : RoundName round)
    (hb : Stored (visible reserved net.store) (broadcastKey i round uuid) b) :
    i ∈ Finset.Icc 1 (t + 1) ∧ ∃ v, Serde.fromStr v = some b ∧
      (signerInput build t key msg coins uuid i).Broadcasts S (visible reserved net.store) round v := by
  obtain ⟨v, hv, hread⟩ := hb
  obtain ⟨p, a, -, ha, rfl, -, -, hbroadcasts⟩ := h.broadcaster hr hv
  obtain ⟨hp, rfl⟩ := parties_some ha
  exact ⟨Finset.mem_Icc.mpr hp, v, hread, hbroadcasts⟩

/-- A message of number `i` is one of signer `i`. -/
theorem sends (h : Signing hlength reserved build t key msg coins uuid net) {β : Type} [Serde β]
    {i k : Nat} {round : String} {b : β} (hr : RoundName round)
    (hb : Stored (visible reserved net.store) (p2pKey i k round uuid) b) :
    i ∈ Finset.Icc 1 (t + 1) ∧ ∃ v, Serde.fromStr v = some b ∧
      (signerInput build t key msg coins uuid i).Sends S (visible reserved net.store) k v := by
  obtain ⟨v, hv, hread⟩ := hb
  obtain ⟨p, a, -, ha, rfl, -, -, hsends⟩ := h.sender hr hv
  obtain ⟨hp, rfl⟩ := parties_some ha
  exact ⟨Finset.mem_Icc.mpr hp, v, hread, hsends⟩

/-- The entry of signer `i` in `signers_vec` is its key generation index, counted from 0. -/
theorem signers_get (h : Signing hlength reserved build t key msg coins uuid net)
    (hkeys : OneKeygen (t + 1) key output) {p i : Nat} {signers_vec : List Nat}
    (hsigners : (signerInput build t key msg coins uuid p).Signers (visible reserved net.store) signers_vec)
    (hi : i ∈ Finset.Icc 1 (t + 1)) : signers_vec[i - 1]? = some ((output i).party_id - 1) := by
  obtain ⟨hpos, hle⟩ := Finset.mem_Icc.mp hi
  obtain ⟨index, hget, party_id, hid, hsub⟩ := forall₂_range'_at hsigners hpos hle
  obtain ⟨-, v, hread, hbroadcasts⟩ := h.broadcasts (by decide) hid
  obtain ⟨out, hout, rfl⟩ := hbroadcasts.round0 rfl
  obtain rfl := Option.some.inj (hout.symm.trans (hkeys.reads i hi))
  rw [Serde.round_trip, Option.some.injEq] at hread
  rw [← hread, U16.subOne_of_pos (hkeys.paillier i hi i hi).1, Option.some.injEq] at hsub
  rw [hget, hsub]

/-- Every signer has its signing key. -/
def HasKeys (build : U16.Build) (t : Nat) (key : Nat → String) (msg : String)
    (coins : Nat → SignDraw → L.Seed) (uuid : String) (store : String → Option String)
    (output : Nat → L.Output) (keys : Nat → S.SignKeys) : Prop :=
  ∀ p ∈ Finset.Icc 1 (t + 1), ∃ signers_vec,
    (signerInput build t key msg coins uuid p).Created S store (output p) signers_vec (keys p)

variable {keys : Nat → S.SignKeys}

/-- What `q` takes from the answer of `p`, and what `p` keeps of it, add up to the product. -/
theorem cross (h : Signing hlength reserved build t key msg coins uuid net) (laws : SignLaws S g)
    (hkeys : OneKeygen (t + 1) key output)
    (hall : HasKeys build t key msg coins uuid (visible reserved net.store) output keys) {p q : Nat}
    (hp : p ∈ Finset.Icc 1 (t + 1)) (hq : q ∈ Finset.Icc 1 (t + 1))
    {answer : (S.MessageB × F) × (S.MessageB × F)} {product : F × F}
    (hanswer : (signerInput build t key msg coins uuid p).Answer S (visible reserved net.store) q answer)
    (hproduct : (signerInput build t key msg coins uuid q).Product S (visible reserved net.store) p product) :
    product.1 + answer.1.2 = S.k_i (keys q) * S.gamma_i (keys p) ∧
      product.2 + answer.2.2 = S.k_i (keys q) * S.w_i (keys p) := by
  obtain ⟨signers_p, hcreated_p⟩ := hall p hp
  obtain ⟨signers_q, hcreated_q⟩ := hall q hq
  -- the message that `q` reads is the answer of `p`
  obtain ⟨_, _, _, message, hcreated, hmessage, halpha, hmiu⟩ := hproduct
  obtain ⟨rfl, -, rfl⟩ := hcreated_q.unique hcreated
  obtain ⟨-, v, hread, answer', hanswer', rfl⟩ := h.sends (by decide) hmessage
  obtain rfl := hanswer.unique hanswer'
  rw [Serde.round_trip, Option.some.injEq] at hread
  subst hread
  -- it answers the first message of `q`
  obtain ⟨_, _, _, first, index, ek, hcreated, hfirst, hindex, hek, hgamma, hw⟩ := hanswer
  obtain ⟨rfl, rfl, rfl⟩ := hcreated_p.unique hcreated
  obtain ⟨-, v, hread, hbroadcasts⟩ := h.broadcasts (by decide) hfirst
  obtain ⟨_, _, _, com, hcreated, rfl⟩ := hbroadcasts.round1 rfl
  obtain ⟨rfl, -, rfl⟩ := hcreated_q.unique hcreated
  rw [Serde.round_trip, Option.some.injEq] at hread
  subst hread
  -- under the Paillier key of `q`
  rw [h.signers_get hkeys hcreated_p.signers hq, Option.some.injEq] at hindex
  subst hindex
  rw [(hkeys.paillier p hp q hq).2, Option.some.injEq] at hek
  subst hek
  obtain ⟨seed, hseed⟩ := hkeys.created q hq
  rw [hseed] at hgamma hw halpha hmiu
  exact ⟨laws.mta _ _ _ _ _ _ _ _ _ hgamma halpha, laws.mta _ _ _ _ _ _ _ _ _ hw hmiu⟩

omit [Serde F] [DecidableEq G] in
/-- The shares of signer `p`, by the number of the other signer: `products` are taken from the answers of
the others, `kept` from the own answers. -/
theorem phase2_shares (laws : SignLaws S g)
    (hall : HasKeys build t key msg coins uuid (visible reserved net.store) output keys) {p : Nat}
    (hp : p ∈ Finset.Icc 1 (t + 1)) {delta_i sigma : F}
    (hphase2 : (signerInput build t key msg coins uuid p).Phase2 S (visible reserved net.store) delta_i sigma) :
    ∃ products kept : Nat → F × F,
      (∀ q ∈ (Finset.Icc 1 (t + 1)).erase p,
        (signerInput build t key msg coins uuid p).Product S (visible reserved net.store) q (products q) ∧
        ∃ answer, (signerInput build t key msg coins uuid p).Answer S (visible reserved net.store) q answer ∧
          kept q = (answer.1.2, answer.2.2)) ∧
      delta_i = S.k_i (keys p) * S.gamma_i (keys p) + ∑ q ∈ (Finset.Icc 1 (t + 1)).erase p, (products q).1 +
        ∑ q ∈ (Finset.Icc 1 (t + 1)).erase p, (kept q).1 ∧
      sigma = S.k_i (keys p) * S.w_i (keys p) + ∑ q ∈ (Finset.Icc 1 (t + 1)).erase p, (products q).2 +
        ∑ q ∈ (Finset.Icc 1 (t + 1)).erase p, (kept q).2 := by
  let _ : Inhabited (F × F) := ⟨(0, 0)⟩
  obtain ⟨_, _, sign_keys, answers, products, hcreated, hanswers, hproducts, hdelta, hsigma⟩ := hphase2
  obtain ⟨signers_vec, hcreated'⟩ := hall p hp
  obtain ⟨-, -, rfl⟩ := hcreated'.unique hcreated
  have hnodup := nodup_others p (t + 1)
  obtain ⟨products, rfl, htaken⟩ := forall₂_function hnodup hproducts
  have hkept : List.Forall₂ (fun q kept => ∃ answer,
      (signerInput build t key msg coins uuid p).Answer S (visible reserved net.store) q answer ∧
        kept = (answer.1.2, answer.2.2)) (others p (List.range' 1 (t + 1)))
      (answers.map fun answer => (answer.1.2, answer.2.2)) :=
    List.forall₂_map_right_iff.mpr (hanswers.imp fun q answer hanswer => ⟨answer, hanswer, rfl⟩)
  obtain ⟨kept, hmap, hkept⟩ := forall₂_function hnodup hkept
  have hbeta := congrArg (List.map Prod.fst) hmap
  have hni := congrArg (List.map Prod.snd) hmap
  simp only [List.map_map, Function.comp_def] at hbeta hni hdelta hsigma
  refine ⟨products, kept, fun q hq => ?_, ?_, ?_⟩
  · rw [← toFinset_others, List.mem_toFinset] at hq
    exact ⟨htaken q hq, hkept q hq⟩
  · rw [(laws.phase2_delta _ _ _ _ hdelta).2, hbeta]
    exact congrArg₂ (fun x y => _ + x + y) (sum_map_others p (t + 1) _) (sum_map_others p (t + 1) _)
  · rw [laws.phase2_sigma _ _ _ _ hsigma, hni]
    exact congrArg₂ (fun x y => _ + x + y) (sum_map_others p (t + 1) _) (sum_map_others p (t + 1) _)

/-- The shares of all signers add up to the products of the sums. -/
theorem phase2_sums (h : Signing hlength reserved build t key msg coins uuid net) (laws : SignLaws S g)
    (hkeys : OneKeygen (t + 1) key output)
    (hall : HasKeys build t key msg coins uuid (visible reserved net.store) output keys)
    {delta sigma : Nat → F}
    (hphase2 : ∀ p ∈ Finset.Icc 1 (t + 1), (signerInput build t key msg coins uuid p).Phase2 S
      (visible reserved net.store) (delta p) (sigma p)) :
    ∑ p ∈ Finset.Icc 1 (t + 1), delta p = (∑ p ∈ Finset.Icc 1 (t + 1), S.k_i (keys p)) *
        ∑ p ∈ Finset.Icc 1 (t + 1), S.gamma_i (keys p) ∧
      ∑ p ∈ Finset.Icc 1 (t + 1), sigma p = (∑ p ∈ Finset.Icc 1 (t + 1), S.k_i (keys p)) *
        ∑ p ∈ Finset.Icc 1 (t + 1), S.w_i (keys p) := by
  choose! products kept hshares hdelta hsigma using fun p hp => phase2_shares laws hall hp (hphase2 p hp)
  have hcross : ∀ p ∈ Finset.Icc 1 (t + 1), ∀ q ∈ (Finset.Icc 1 (t + 1)).erase p,
      (products p q).1 + (kept q p).1 = S.k_i (keys p) * S.gamma_i (keys q) ∧
        (products p q).2 + (kept q p).2 = S.k_i (keys p) * S.w_i (keys q) := by
    intro p hp q hq
    obtain ⟨hne, hq'⟩ := Finset.mem_erase.mp hq
    have hp' : p ∈ (Finset.Icc 1 (t + 1)).erase q := Finset.mem_erase.mpr ⟨hne.symm, hp⟩
    obtain ⟨answer, hanswer, hkept⟩ := (hshares q hq' p hp').2
    rw [hkept]
    exact h.cross laws hkeys hall hq' hp hanswer (hshares p hp q hq).1
  constructor
  · rw [Finset.sum_congr rfl hdelta, ← Products.sum_localShare fun p hp q hq => (hcross p hp q hq).1]
    rfl
  · rw [Finset.sum_congr rfl hsigma, ← Products.sum_localShare fun p hp q hq => (hcross p hp q hq).2]
    rfl

/-- What a signer holds after round 4. -/
theorem round4_point (h : Signing hlength reserved build t key msg coins uuid net) (laws : SignLaws S g)
    (hkeys : OneKeygen (t + 1) key output)
    (hall : HasKeys build t key msg coins uuid (visible reserved net.store) output keys) {p : Nat}
    (hp : p ∈ Finset.Icc 1 (t + 1)) {delta_inv : F} {R : G}
    (hround4 : (signerInput build t key msg coins uuid p).Round4 S (visible reserved net.store) delta_inv R) :
    delta_inv = ((∑ q ∈ Finset.Icc 1 (t + 1), S.k_i (keys q)) *
        ∑ q ∈ Finset.Icc 1 (t + 1), S.gamma_i (keys q))⁻¹ ∧
      R = delta_inv • (∑ q ∈ Finset.Icc 1 (t + 1), S.gamma_i (keys q)) • g := by
  obtain ⟨delta_vec, decommit_vec, decommit_others, _, _, R_others, hdeltas, hdecommits, hinv, hothers, hR,
    rfl⟩ := hround4
  obtain ⟨hpos, hle⟩ := Finset.mem_Icc.mp hp
  constructor
  · have hphase2 : List.Forall₂ (fun q delta_i => ∃ sigma, (signerInput build t key msg coins uuid q).Phase2 S
        (visible reserved net.store) delta_i sigma) (List.range' 1 (t + 1)) delta_vec := by
      refine hdeltas.imp fun q delta_i hdelta => ?_
      obtain ⟨-, v, hread, hbroadcasts⟩ := h.broadcasts (by decide) hdelta
      obtain ⟨delta_i', sigma, hphase2, rfl⟩ := hbroadcasts.round3 rfl
      rw [Serde.round_trip, Option.some.injEq] at hread
      subst hread
      exact ⟨sigma, hphase2⟩
    let _ : Inhabited F := ⟨0⟩
    obtain ⟨delta, rfl, hdelta⟩ := forall₂_function List.nodup_range' hphase2
    simp only [← List.mem_toFinset, toFinset_range'] at hdelta
    choose! sigma hdelta using hdelta
    have hsum := (h.phase2_sums laws hkeys hall hdelta).1
    have hone := laws.phase3 _ _ hinv
    rw [sum_map_range', hsum] at hone
    exact eq_inv_of_mul_eq_one_left hone
  · have hpoints : List.Forall₂ (fun q decommit => S.g_gamma_i decommit = S.gamma_i (keys q) • g)
        (List.range' 1 (t + 1)) decommit_vec := by
      refine hdecommits.imp fun q decommit hdecommit => ?_
      obtain ⟨hq, v, hread, hbroadcasts⟩ := h.broadcasts (by decide) hdecommit
      obtain ⟨_, ⟨_, _, _, hcreated, rfl⟩, rfl⟩ := hbroadcasts.round4 rfl
      rw [Serde.round_trip, Option.some.injEq] at hread
      obtain ⟨signers_vec, hcreated'⟩ := hall q hq
      obtain ⟨-, -, rfl⟩ := hcreated'.unique hcreated
      obtain ⟨index, vss_scheme, -, -, hcreate⟩ := hcreated.create_eq
      rw [← hread, hcreate]
      exact laws.g_gamma_i_eq _ _ _ _ _ _
    obtain ⟨hown, hrest⟩ := removeAt_spec hpos hle hpoints hothers
    have hsum := forall₂_eq_map (List.forall₂_map_right_iff.mpr hrest)
    rw [laws.phase4 _ _ _ _ _ hR, hsum, sum_map_others, show S.g_gamma_i decommit_others.1 = _ from hown,
      ← smul_add, Finset.sum_smul, Finset.sum_erase_add _ _ hp]

end Signing

end Run

/-! ### The algebra of a run -/

section Main

variable (S) (build : U16.Build) (t : Nat) (key : Nat → String) (msg : String)
  (coins : Nat → SignDraw → L.Seed) (uuid : String)

/-- Signers `1..=t+1` before their first step. -/
def startSigners : Net Nat String String (SignNote S) String :=
  Net.start fun p => (parties (t + 1) (signerInput build t key msg coins uuid) p).map fun a => a.process S

/-- Party `p` has noted `o`. -/
def Noted (net : Net Nat String String (SignNote S) String) (p : Nat) (o : SignNote S) : Prop :=
  ∃ party, net.party p = some party ∧ o ∈ party.log

/-- The sums of the shares are the products of the sums, and every signer that has finished round 4 holds
the inverse of the sum of the `delta_i`, and the point that the inverse gives with the sum of the `gamma_i`. -/
structure SharedProducts (g : G) (net : Net Nat String String (SignNote S) String) (keys : Nat → S.SignKeys) :
    Prop where
  delta : ∀ delta sigma : Nat → F,
    (∀ p ∈ Finset.Icc 1 (t + 1), Noted S net p (.phase2 (delta p) (sigma p))) →
    ∑ p ∈ Finset.Icc 1 (t + 1), delta p = (∑ p ∈ Finset.Icc 1 (t + 1), S.k_i (keys p)) *
      ∑ p ∈ Finset.Icc 1 (t + 1), S.gamma_i (keys p)
  sigma : ∀ delta sigma : Nat → F,
    (∀ p ∈ Finset.Icc 1 (t + 1), Noted S net p (.phase2 (delta p) (sigma p))) →
    ∑ p ∈ Finset.Icc 1 (t + 1), sigma p = (∑ p ∈ Finset.Icc 1 (t + 1), S.k_i (keys p)) *
      ∑ p ∈ Finset.Icc 1 (t + 1), S.w_i (keys p)
  round4 : ∀ p delta_inv R, Noted S net p (.round4 delta_inv R) →
    delta_inv = ((∑ q ∈ Finset.Icc 1 (t + 1), S.k_i (keys q)) *
        ∑ q ∈ Finset.Icc 1 (t + 1), S.gamma_i (keys q))⁻¹ ∧
      R = delta_inv • (∑ q ∈ Finset.Icc 1 (t + 1), S.gamma_i (keys q)) • g

/-- In every state of the signers `1..=t+1` of a session in which each has created its signing key, under any
interleaving and in any order of their key generation indices. -/
theorem signing_algebra {output : Nat → L.Output} {g : G} (laws : SignLaws S g)
    (hkeys : OneKeygen (t + 1) key output) (schedule : List Nat)
    (net : Net Nat String String (SignNote S) String)
    (hrun : Machine.exec Net.move (startSigners S build t key msg coins uuid) schedule = some net)
    (keys : Nat → S.SignKeys) (hcreated : ∀ p ∈ Finset.Icc 1 (t + 1), Noted S net p (.created (keys p))) :
    SharedProducts S t g net keys := by
  have h : Signing (fun sign_keys alpha_vec beta_vec delta_i hdelta =>
      (laws.phase2_delta sign_keys alpha_vec beta_vec delta_i hdelta).1) (fun _ => false) build t key msg coins
      uuid net :=
    (signProtocol S _).session_of_run (t + 1) (signerInput build t key msg coins uuid) (fun _ => rfl)
      (fun _ => rfl) (fun _ => rfl) hrun
  have hnotes : ∀ p o, Noted S net p o → p ∈ Finset.Icc 1 (t + 1) ∧
      (signerInput build t key msg coins uuid p).Notes S (visible (fun _ => false) net.store) o := by
    intro p o ho
    obtain ⟨party, hparty, hmem⟩ := ho
    obtain ⟨a, ha, -⟩ := h.started p party hparty
    have hnotes := (h.kept ha hparty).2.1 o hmem
    obtain ⟨hp, rfl⟩ := parties_some ha
    exact ⟨Finset.mem_Icc.mpr hp, hnotes⟩
  have hall : Signing.HasKeys build t key msg coins uuid (visible (fun _ => false) net.store) output keys := by
    intro p hp
    obtain ⟨out, signers_vec, hcreated⟩ := (hnotes p _ (hcreated p hp)).2
    obtain rfl := Option.some.inj (hcreated.output_eq.symm.trans (hkeys.reads p hp))
    exact ⟨signers_vec, hcreated⟩
  refine ⟨fun delta sigma hphase2 => ?_, fun delta sigma hphase2 => ?_, fun p delta_inv R hround4 => ?_⟩
  · exact (h.phase2_sums laws hkeys hall fun p hp => (hnotes p _ (hphase2 p hp)).2).1
  · exact (h.phase2_sums laws hkeys hall fun p hp => (hnotes p _ (hphase2 p hp)).2).2
  · obtain ⟨hp, hnote⟩ := hnotes p _ hround4
    exact h.round4_point laws hkeys hall hp hnote

end Main

end Algebra

/-! ### A signing of two -/

theorem SignLibrary.small_laws : SignLaws SignLibrary.small (1 : ZMod 3) := by
  have hunit : ∀ x : ZMod 3, x ≠ 0 → x * x = 1 := by decide
  refine ⟨fun (seed : Nat) n seed_a (seed_b : Nat) k b m_b beta alpha hb halpha => ?_,
    fun sign_keys alpha_vec beta_vec delta_i h => ?_, fun sign_keys miu_vec ni_vec sigma h => ?_,
    fun delta_vec delta_inv h => ?_,
    fun delta_inv b_proof_vec (decommit_vec : List (ZMod 3)) bc1_vec R h => ?_, fun _ _ _ _ _ _ => ?_⟩
  · obtain ⟨rfl, rfl⟩ := Prod.ext_iff.mp (Option.some.inj hb)
    obtain rfl := Option.some.inj halpha
    show (if seed = seed then if seed = seed then k * b - seed_b else 0 else 0) + (seed_b : ZMod 3) = k * b
    rw [if_pos rfl, if_pos rfl, sub_add_cancel]
  · simp only [SignLibrary.small] at h
    split_ifs at h with hlen
    exact ⟨hlen, (Option.some.inj h).symm⟩
  · exact (Option.some.inj h).symm
  · simp only [SignLibrary.small] at h
    split_ifs at h with hsum
    obtain rfl := Option.some.inj h
    exact hunit _ hsum
  · obtain rfl := Option.some.inj h
    show delta_inv * decommit_vec.sum = delta_inv * (decommit_vec.map id).sum
    rw [List.map_id]
  · exact (mul_one _).symm

/-- The output of party `id` of a key generation of two. -/
def smallOutput (id : Nat) : KeygenLibrary.small.Output :=
  ((id + 4 : Nat), (id : ZMod 3), id, ([0, 0] : List Nat), ([5, 6] : List Nat), (0 : ZMod 3))

/-- Signer 1 has the keys of party 2, and signer 2 those of party 1. -/
def swappedSigners : Net Nat String String (SignNote SignLibrary.small) String :=
  letI := Serde.numeric Nat
  letI := Serde.numeric (ZMod 3)
  startSigners SignLibrary.small .release 1 (fun p => Serde.toStr (smallOutput (3 - p))) "message"
    (fun p _ => (p - 1 : Nat)) "session"

theorem smallOutput_oneKeygen :
    OneKeygen 2 (fun p => Serde.toStr (smallOutput (3 - p))) fun p => smallOutput (3 - p) := by
  refine ⟨fun p hp => Serde.round_trip _, fun p hp => ⟨_, rfl⟩, fun p hp q hq => ?_⟩
  obtain ⟨hpos, hle⟩ := Finset.mem_Icc.mp hq
  obtain rfl | rfl : q = 1 ∨ q = 2 := by omega
  · exact ⟨by decide, rfl⟩
  · exact ⟨by decide, rfl⟩

/-- Two signers that move in turn, against the order of their key generation, both finish round 4. -/
theorem swapped_signers_share : ∃ (net : Net Nat String String (SignNote SignLibrary.small) String)
    (keys : Nat → Nat × ZMod 3),
    Machine.exec Net.move swappedSigners ((List.range 26).map fun i => i % 2 + 1) = some net ∧
      SharedProducts SignLibrary.small 1 1 net keys ∧
      Noted SignLibrary.small net 1 (.round4 2 1) ∧ Noted SignLibrary.small net 2 (.round4 2 1) := by
  have hrun : ((Machine.exec Net.move swappedSigners ((List.range 26).map fun i => i % 2 + 1)).map fun net =>
      ((net.party 1).map Party.log, (net.party 2).map Party.log)) =
      some (some [.created (0, 2), .phase2 2 2, .round4 2 1],
        some [.created (1, 1), .phase2 0 1, .round4 2 1]) := by
    decide +kernel
  let _ := Serde.numeric Nat
  let _ := Serde.numeric (ZMod 3)
  obtain ⟨net, hnet, hlogs⟩ := Option.map_eq_some_iff.mp hrun
  obtain ⟨hlog_1, hlog_2⟩ := Prod.ext_iff.mp hlogs
  obtain ⟨party_1, hparty_1, hlog_1⟩ := Option.map_eq_some_iff.mp hlog_1
  obtain ⟨party_2, hparty_2, hlog_2⟩ := Option.map_eq_some_iff.mp hlog_2
  refine ⟨net, fun p => if p = 1 then (0, 2) else (1, 1), hnet,
    signing_algebra _ _ _ _ _ _ _ SignLibrary.small_laws smallOutput_oneKeygen _ net hnet _ fun p hp => ?_,
    ⟨party_1, hparty_1, by simp [hlog_1]⟩, ⟨party_2, hparty_2, by simp [hlog_2]⟩⟩
  obtain ⟨hpos, hle⟩ := Finset.mem_Icc.mp hp
  obtain rfl | rfl : p = 1 ∨ p = 2 := by omega
  · exact ⟨party_1, hparty_1, by simp [hlog_1]⟩
  · exact ⟨party_2, hparty_2, by simp [hlog_2]⟩

end Gg18
