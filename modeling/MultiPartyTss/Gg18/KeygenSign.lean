import MultiPartyTss.Gg18.KeygenShares
import MultiPartyTss.Gg18.SignOutput

/-!
# From a key generation to a signature

Signers `1..=t+1` run `sign` with what parties of one key generation have returned, each with the text of a
different party. A signer weights its private key for the set of the signers, so the weighted keys add up to
the discrete logarithm of the public key (`weighted_keys`), and what the signers return is a signature under
the public key that every party of the key generation has returned (`signatures_verify`).
-/

namespace Gg18

open Proc Slots Network KeygenSession

section KeygenSign

variable {F G : Type} {L : KeygenLibrary F G} {S : SignLibrary L} [Field F]

/-- The weight of the key with `index` among those of `signers_vec`; both count from 0. -/
def keyWeight (F : Type) [Field F] (index : Nat) (signers_vec : List Nat) : F :=
  ((signers_vec.filter fun j => j != index).map fun j =>
    ((j + 1 : Nat) : F) * (((j + 1 : Nat) : F) - ((index + 1 : Nat) : F))⁻¹).prod

/-- What signing with the keys of a key generation relies on. -/
structure KeyLaws (S : SignLibrary L) : Prop where
  /-- The Paillier key that a party commits to is its own. -/
  e_eq : ∀ seed seed' n,
    L.e (L.phase1BroadcastPhase3ProofOfCorrectKey seed' (L.create seed n)).1 = L.ek (L.create seed n)
  w_i_eq : ∀ seed keys shared_keys vss_scheme index signers_vec, index ∈ signers_vec →
    S.w_i (S.create seed (S.setPrivate keys shared_keys) vss_scheme index signers_vec) =
      keyWeight F index signers_vec * L.x_i shared_keys

/-- With the numbers of different parties, the weights are those of the sharing. -/
theorem keyWeight_eq {n p : Nat} {party : Nat → Nat} (hp : p ∈ Finset.Icc 1 n)
    (hpos : ∀ q ∈ Finset.Icc 1 n, 1 ≤ party q) (hinj : Set.InjOn party (Finset.Icc 1 n)) :
    keyWeight F (party p - 1) ((List.range' 1 n).map fun q => party q - 1) =
      Sharing.coefficient (Finset.Icc 1 n) (fun q => (party q : F)) p := by
  have hfilter : ((List.range' 1 n).map fun q => party q - 1).filter (fun j => j != party p - 1) =
      (others p (List.range' 1 n)).map fun q => party q - 1 := by
    rw [List.filter_map, others]
    refine congrArg _ (List.filter_congr fun q hq => ?_)
    have hq' : q ∈ Finset.Icc 1 n := by rwa [← toFinset_range', List.mem_toFinset]
    have hiff : party q - 1 = party p - 1 ↔ q = p := by
      constructor
      · intro heq
        have hqpos := hpos q hq'
        have hppos := hpos p hp
        exact hinj hq' hp (by omega)
      · rintro rfl
        rfl
    simp only [Function.comp_apply, bne, beq_eq_decide, hiff]
  rw [keyWeight, hfilter, List.map_map, prod_map_others, Sharing.coefficient]
  refine Finset.prod_congr rfl fun q hq => ?_
  have hqpos := hpos q (Finset.mem_of_mem_erase hq)
  simp only [Function.comp_apply, Nat.sub_add_cancel hqpos, Nat.sub_add_cancel (hpos p hp)]

variable [Serde AEAD] [Serde Nat] [Serde F] [DecidableEq G] [AddCommGroup G] [Module F G]
  {params : Parameters} {keygen_coins : Nat → Draw → L.Seed} {keygen_uuid : String}
  {keygen_net : Net Nat String String (KeygenNote F) String} {g : G} {party : Nat → Nat} {key : Nat → String}
  {output : Nat → L.Output}

omit [Serde Nat] [Serde F] [DecidableEq G] in
theorem keygen_of_run {keygen_schedule : List Nat}
    (hkeygen : Machine.exec Net.move (startKeygens params keygen_coins keygen_uuid) keygen_schedule =
      some keygen_net) :
    KeygenSession (fun _ => false) (keygenParties params keygen_coins keygen_uuid) params.share_count keygen_uuid
      keygen_net :=
  (keygenProtocol L).session_of_run params.share_count (partyInput params keygen_coins keygen_uuid)
    (fun _ => rfl) (fun _ => rfl) (fun _ => rfl) hkeygen

/-- What the signers hold: the texts that different parties have returned, and what they read as. -/
structure KeysOf (n : Nat) (keygen_net : Net Nat String String (KeygenNote F) String) (party : Nat → Nat)
    (key : Nat → String) (output : Nat → L.Output) : Prop where
  distinct : Set.InjOn party (Finset.Icc 1 n)
  returned : ∀ p ∈ Finset.Icc 1 n, keygen_net.output (party p) = some (key p)
  reads : ∀ p ∈ Finset.Icc 1 n, Serde.fromStr (key p) = some (output p)

namespace KeysOf

variable {n : Nat} {reserved : String → Bool}

omit [Serde Nat] [Serde F] [DecidableEq G] in
theorem party_bounds
    (hkeygen : KeygenSession reserved (keygenParties params keygen_coins keygen_uuid) params.share_count
      keygen_uuid keygen_net)
    (h : KeysOf n keygen_net party key output) {p : Nat} (hp : p ∈ Finset.Icc 1 n) :
    (1 ≤ party p ∧ party p ≤ params.share_count) ∧ (output p).party_id = party p := by
  obtain ⟨b, hb, _, _, _, _, _, _, -, -, -, -, -, htext⟩ := hkeygen.returned (h.returned p hp)
  obtain ⟨hbounds, rfl⟩ := parties_some hb
  have hread := h.reads p hp
  rw [htext, Serde.round_trip, Option.some.injEq] at hread
  rw [← hread]
  exact ⟨hbounds, rfl⟩

omit [Serde Nat] [Serde F] [DecidableEq G] in
/-- They are keys of one key generation. -/
theorem oneKeygen
    (hkeygen : KeygenSession reserved (keygenParties params keygen_coins keygen_uuid) params.share_count
      keygen_uuid keygen_net)
    (laws : KeyLaws S) (h : KeysOf n keygen_net party key output) : OneKeygen n key output :=
  .of_keygen hkeygen laws.e_eq h.returned h.reads

section Weighted

variable {hlength : ∀ sign_keys alpha_vec beta_vec delta_i,
    S.phase2DeltaI sign_keys alpha_vec beta_vec = some delta_i → alpha_vec.length = beta_vec.length}
  {build : U16.Build} {t : Nat} {msg : String} {coins : Nat → SignDraw → L.Seed} {uuid : String}
  {net : Net Nat String String (SignNote S) String} {keys : Nat → S.SignKeys}

/-- The key of signer `p`, weighted for the signers. -/
theorem weighted_key
    (hkeygen : KeygenSession reserved (keygenParties params keygen_coins keygen_uuid) params.share_count
      keygen_uuid keygen_net)
    (laws : KeyLaws S) (h : KeysOf (t + 1) keygen_net party key output)
    (hsigning : Signing hlength reserved build t key msg coins uuid net)
    (hall : Signing.HasKeys build t key msg coins uuid (visible reserved net.store) output keys) {p : Nat}
    (hp : p ∈ Finset.Icc 1 (t + 1)) :
    S.w_i (keys p) = Sharing.coefficient (Finset.Icc 1 (t + 1)) (fun q => (party q : F)) p *
      L.x_i (output p).shared_keys := by
  obtain ⟨signers_vec, hcreated⟩ := hall p hp
  have hget : ∀ i ∈ Finset.Icc 1 (t + 1), signers_vec[i - 1]? = some (party i - 1) := by
    intro i hi
    rw [hsigning.signers_get (h.oneKeygen hkeygen laws) hcreated.signers hi, (h.party_bounds hkeygen hi).2]
  have hvec : signers_vec = (List.range' 1 (t + 1)).map fun q => party q - 1 := by
    have hlen : signers_vec.length = t + 1 := (forall₂_range'_iff.mp hcreated.signers).1
    refine forall₂_eq_map (forall₂_range'_iff.mpr ⟨hlen, fun k index hk => ?_⟩)
    have hlt : k < signers_vec.length := (List.getElem?_eq_some_iff.mp hk).1
    have hentry := hget (1 + k) (Finset.mem_Icc.mpr (by omega))
    rw [Nat.add_sub_cancel_left, hk] at hentry
    exact Option.some.inj hentry
  obtain ⟨index, vss_scheme, hindex, -, hcreate⟩ := hcreated.create_eq
  obtain rfl : party p - 1 = index := Option.some.inj ((hget p hp).symm.trans hindex)
  rw [hcreate, laws.w_i_eq _ _ _ _ _ _ (List.mem_of_getElem? hindex), hvec,
    keyWeight_eq hp (fun q hq => (h.party_bounds hkeygen hq).1.1) h.distinct]

/-- The weighted keys add up to the sum of the secrets. -/
theorem weighted_keys
    (hkeygen : KeygenSession reserved (keygenParties params keygen_coins keygen_uuid) params.share_count
      keygen_uuid keygen_net)
    (keygen_laws : KeygenLaws L g) (sharing : SharingLaws L params) (laws : KeyLaws S)
    (h : KeysOf (params.threshold + 1) keygen_net party key output)
    (hsigning : Signing hlength reserved build params.threshold key msg coins uuid net)
    (hall : Signing.HasKeys build params.threshold key msg coins uuid (visible reserved net.store) output keys) :
    ∑ p ∈ Finset.Icc 1 (params.threshold + 1), S.w_i (keys p) =
      ∑ k ∈ Finset.Icc 1 params.share_count, secret keygen_coins k := by
  have hone : 1 ∈ Finset.Icc 1 (params.threshold + 1) := Finset.mem_Icc.mpr (by omega)
  obtain ⟨b, hb, -, -, -, party_shares, -, -, -, -, -, hshares, -⟩ := hkeygen.returned (h.returned 1 hone)
  obtain ⟨f, hf⟩ := hkeygen.collected keygen_laws sharing hb hshares
  have hsharing := Sharing.sum fun k hk => (hf k hk).1
  have hpoints : Set.InjOn (fun p => (party p : F)) (Finset.Icc 1 (params.threshold + 1)) := by
    intro p hp q hq heq
    refine h.distinct hp hq (sharing.cast_injective _ _ ?_ ?_ heq)
    · exact (h.party_bounds hkeygen hp).1.2
    · exact (h.party_bounds hkeygen hq).1.2
  rw [← hsharing.sum_weighted hpoints (by simp)]
  refine Finset.sum_congr rfl fun p hp => ?_
  rw [h.weighted_key hkeygen laws hsigning hall hp,
    hkeygen.private_key sharing (fun k hk => (hf k hk).2) (h.returned p hp) (h.reads p hp)]

end Weighted

end KeysOf

/-! ### Signatures under the public key -/

section Main

variable (S) (build : U16.Build) (msg : String) (coins : Nat → SignDraw → L.Seed) (uuid : String)

/-- What signers have returned is a signature of `msg` under what parties of the key generation have returned
as the public key. -/
def Verifies (xCoord : G → F) (g : G) (keygen_net : Net Nat String String (KeygenNote F) String) (text : String) :
    Prop :=
  ∃ sig, text = signJson S sig ∧ ∀ b key_text (out : L.Output), keygen_net.output b = some key_text →
    Serde.fromStr key_text = some out →
    Ecdsa.Valid xCoord g out.y_sum (L.fromBytes (messageBytes S msg)) (S.r sig) (S.s sig)

variable {S} {build} {msg} {coins} {uuid} in
/-- Whatever a session of signers has come to, with the keys of a session of the key generation. -/
theorem verifies_of_sessions {xCoord : G → F} {signature : Nat → G → G → F → Option S.SignatureRecid}
    {hlength : ∀ sign_keys alpha_vec beta_vec delta_i,
      S.phase2DeltaI sign_keys alpha_vec beta_vec = some delta_i → alpha_vec.length = beta_vec.length}
    (keygen_laws : KeygenLaws L g) (sharing : SharingLaws L params) (key_laws : KeyLaws S)
    (sign_laws : SignLaws S g) (outputs : OutputLaws S xCoord signature) (hneg : ∀ P, xCoord (-P) = xCoord P)
    (hk : KeygenSession (fun _ => false) (keygenParties params keygen_coins keygen_uuid) params.share_count
      keygen_uuid keygen_net)
    (hparty : Set.InjOn party (Finset.Icc 1 (params.threshold + 1)))
    (hkey : ∀ p ∈ Finset.Icc 1 (params.threshold + 1), keygen_net.output (party p) = some (key p))
    {net : Net Nat String String (SignNote S) String}
    (hsigning : Signing hlength (fun _ => false) build params.threshold key msg coins uuid net) :
    (∀ p q text text', net.output p = some text → net.output q = some text' → text = text') ∧
      ∀ p text, net.output p = some text → Verifies S msg xCoord g keygen_net text := by
  have hread : ∀ p ∈ Finset.Icc 1 (params.threshold + 1), ∃ out : L.Output, Serde.fromStr (key p) = some out := by
    intro p hp
    obtain ⟨_, _, _, _, _, _, _, _, -, -, -, -, -, htext⟩ := hk.returned (hkey p hp)
    rw [htext]
    exact ⟨_, Serde.round_trip _⟩
  have hsome : Nonempty L.Output := by
    obtain ⟨out, -⟩ := hread 1 (Finset.mem_Icc.mpr (by omega))
    exact ⟨out⟩
  choose! output hread using hread
  have h : KeysOf (params.threshold + 1) keygen_net party key output := ⟨hparty, hkey, hread⟩
  have hone := hsigning.oneSignature sign_laws outputs hneg (h.oneKeygen hk key_laws)
    fun p hp => hk.public_key keygen_laws (hkey p hp) (hread p hp)
  refine ⟨hone.agree, fun p text htext => ?_⟩
  obtain ⟨keys, sig, hall, htext, hvalid⟩ := hone.valid p text htext
  refine ⟨sig, htext, fun b key_text out hb hout => ?_⟩
  rw [h.weighted_keys hk keygen_laws sharing key_laws hsigning hall] at hvalid
  rw [hk.public_key keygen_laws hb hout]
  exact hvalid

/-- A key generation under any interleaving, and signers with the texts of `threshold + 1` of its parties, in any
order and under any interleaving: all that have returned, have returned one text, which verifies. -/
theorem signatures_verify {xCoord : G → F} {signature : Nat → G → G → F → Option S.SignatureRecid}
    (keygen_laws : KeygenLaws L g) (sharing : SharingLaws L params) (key_laws : KeyLaws S)
    (sign_laws : SignLaws S g) (outputs : OutputLaws S xCoord signature) (hneg : ∀ P, xCoord (-P) = xCoord P)
    (keygen_schedule : List Nat)
    (hkeygen : Machine.exec Net.move (startKeygens params keygen_coins keygen_uuid) keygen_schedule =
      some keygen_net)
    (hparty : Set.InjOn party (Finset.Icc 1 (params.threshold + 1)))
    (hkey : ∀ p ∈ Finset.Icc 1 (params.threshold + 1), keygen_net.output (party p) = some (key p))
    (schedule : List Nat) (net : Net Nat String String (SignNote S) String)
    (hrun : Machine.exec Net.move (startSigners S build params.threshold key msg coins uuid) schedule =
      some net) :
    (∀ p q text text', net.output p = some text → net.output q = some text' → text = text') ∧
      ∀ p text, net.output p = some text → Verifies S msg xCoord g keygen_net text := by
  have hsigning : Signing (fun sign_keys alpha_vec beta_vec delta_i hdelta =>
      (sign_laws.phase2_delta sign_keys alpha_vec beta_vec delta_i hdelta).1) (fun _ => false) build
      params.threshold key msg coins uuid net := signing_of_run S build _ key msg coins uuid hrun
  exact verifies_of_sessions keygen_laws sharing key_laws sign_laws outputs hneg (keygen_of_run hkeygen) hparty hkey
    hsigning

end Main

end KeygenSign

/-! ### Two parties, from the key generation on -/

/-- The small library with the weights of the keys. -/
def SignLibrary.weighted : SignLibrary KeygenLibrary.small :=
  { SignLibrary.signing with
    create := fun seed (private_x : ZMod 3) _ index signers_vec =>
      (seed, keyWeight (ZMod 3) index signers_vec * private_x) }

theorem SignLibrary.weighted_laws : SignLaws SignLibrary.weighted (1 : ZMod 3) :=
  ⟨small_laws.mta, small_laws.phase2_delta, small_laws.phase2_sigma, small_laws.phase3, small_laws.phase4,
    fun _ _ _ _ _ _ => (mul_one _).symm⟩

theorem SignLibrary.weighted_output : OutputLaws SignLibrary.weighted (fun P : ZMod 3 => P * P)
    fun _ R _ s => if s = 0 then none else some (R * R, s) :=
  ⟨signing_output.phase5d, signing_output.outputSignature, signing_output.signature⟩

theorem SignLibrary.weighted_keyLaws : KeyLaws SignLibrary.weighted :=
  ⟨fun _ _ _ => rfl, fun _ _ _ _ _ _ _ => rfl⟩

/-- Two parties of a key generation that move in turn. -/
def keygenOfTwo : Option (Net Nat String String (KeygenNote (ZMod 3)) String) :=
  letI := AEAD.plain
  Machine.exec Net.move (startKeygens (L := KeygenLibrary.small) ⟨1, 2⟩ (fun _ _ => (1 : Nat)) "keygen")
    ((List.range 28).map fun i => i % 2 + 1)

/-- Signer 1 has what party 2 has returned, and signer 2 what party 1 has. -/
def keyOfTwo (p : Nat) : String := (keygenOfTwo.bind fun net => net.output (3 - p)).getD ""

/-- The two signers move in turn as well. -/
def signingOfTwo : Option (Net Nat String String (SignNote SignLibrary.weighted) String) :=
  letI := Serde.numeric Nat
  letI := Serde.numeric (ZMod 3)
  Machine.exec Net.move (startSigners SignLibrary.weighted .release 1 keyOfTwo "messages" (fun p _ => (p - 1 : Nat))
    "session") ((List.range 46).map fun i => i % 2 + 1)

/-- Both parties have returned. -/
theorem keygenOfTwo_returns :
    letI := AEAD.plain
    ∃ keygen_net, keygenOfTwo = some keygen_net ∧
      ∀ p ∈ Finset.Icc 1 2, keygen_net.output (3 - p) = some (keyOfTwo p) := by
  have hrun : (keygenOfTwo.map fun net => ((net.output 2).isSome, (net.output 1).isSome)) = some (true, true) := by
    decide +kernel
  obtain ⟨keygen_net, hkeygen, hkeys⟩ := Option.map_eq_some_iff.mp hrun
  obtain ⟨hkey_1, hkey_2⟩ := Prod.ext_iff.mp hkeys
  refine ⟨keygen_net, hkeygen, fun p hp => ?_⟩
  have hsome : (keygen_net.output (3 - p)).isSome := by
    obtain ⟨hpos, hle⟩ := Finset.mem_Icc.mp hp
    obtain rfl | rfl : p = 1 ∨ p = 2 := by omega
    · exact hkey_1
    · exact hkey_2
  obtain ⟨key_text, hkey_text⟩ := Option.isSome_iff_exists.mp hsome
  rw [keyOfTwo, hkeygen, Option.bind_some, hkey_text]
  rfl

/-- Both signers have returned. -/
theorem signingOfTwo_returns :
    letI := Serde.numeric Nat
    letI := Serde.numeric (ZMod 3)
    ∃ net text text', signingOfTwo = some net ∧ net.output 1 = some text ∧ net.output 2 = some text' := by
  have hrun : (signingOfTwo.map fun net => ((net.output 1).isSome, (net.output 2).isSome)) = some (true, true) := by
    decide +kernel
  obtain ⟨net, hnet, hfinished⟩ := Option.map_eq_some_iff.mp hrun
  obtain ⟨hfinished_1, hfinished_2⟩ := Prod.ext_iff.mp hfinished
  obtain ⟨text, htext⟩ := Option.isSome_iff_exists.mp hfinished_1
  obtain ⟨text', htext'⟩ := Option.isSome_iff_exists.mp hfinished_2
  exact ⟨net, text, text', hnet, htext, htext'⟩

theorem other_party_inj : Set.InjOn (fun p => 3 - p) (Finset.Icc 1 2 : Set Nat) := by
  intro p hp q hq heq
  have hp := Finset.mem_Icc.mp hp
  have hq := Finset.mem_Icc.mp hq
  dsimp only at heq
  omega

/-- Both return a signature under the public key of the key generation. -/
theorem two_parties_sign :
    letI := AEAD.plain
    letI := Serde.numeric Nat
    letI := Serde.numeric (ZMod 3)
    ∃ (keygen_net : Net Nat String String (KeygenNote (ZMod 3)) String)
      (net : Net Nat String String (SignNote SignLibrary.weighted) String) (text : String),
      keygenOfTwo = some keygen_net ∧ signingOfTwo = some net ∧
        net.output 1 = some text ∧ net.output 2 = some text ∧
        Verifies SignLibrary.weighted "messages" (fun P : ZMod 3 => P * P) 1 keygen_net text := by
  let _ := AEAD.plain
  let _ := Serde.numeric Nat
  let _ := Serde.numeric (ZMod 3)
  obtain ⟨keygen_net, hkeygen, hkey⟩ := keygenOfTwo_returns
  obtain ⟨net, text, text', hnet, htext, htext'⟩ := signingOfTwo_returns
  obtain ⟨hagree, hverifies⟩ := signatures_verify SignLibrary.weighted .release "messages" (fun p _ => (p - 1 : Nat))
    "session" small_laws small_sharing SignLibrary.weighted_keyLaws SignLibrary.weighted_laws
    SignLibrary.weighted_output (fun P => neg_mul_neg P P) _ hkeygen other_party_inj hkey _ net hnet
  obtain rfl := hagree 1 2 text text' htext htext'
  exact ⟨keygen_net, net, text, hkeygen, hnet, htext, htext', hverifies 1 text htext⟩

end Gg18
