import MultiPartyTss.Gg18.KeygenShares
import MultiPartyTss.Gg18.Progress

/-!
# Key generation does not deadlock

If the checks of the library pass, the values of a key generation are known before it runs
(`KeygenTranscript`), and `keygen_completes` goes through the process of a party against them: no read
fails, no index is out of bounds, and the party comes to the end of its plan.
-/

namespace Gg18

open Proc Slots Network KeygenSession

theorem keygenRounds_supplied : Supplied [] keygenRounds := by
  simp [keygenRounds, Supplied]

variable {F G : Type} {L : KeygenLibrary F G} [Serde AEAD] [Field F] [AddCommGroup G] [Module F G]

/-- What the library returns to parties `1..=n` of a key generation in which all its checks pass. -/
structure KeygenTranscript (params : Parameters) (coins : Nat → Draw → L.Seed) (uuid : String) where
  enc_key : Nat → Nat → List UInt8
  vss_scheme : Nat → L.VerifiableSS
  /-- `share p i` is dealt by `p` for `i`. -/
  share : Nat → Nat → F
  index : Nat → Nat
  aead_pack : Nat → Nat → AEAD
  /-- What `p` decrypts from `i`, and its own share. -/
  party_share : Nat → Nat → F
  shared_keys : Nat → L.SharedKeys
  dlog_proof : Nat → L.DLogProof
  encKey_eq : ∀ p i, 1 ≤ p → p ≤ params.share_count → 1 ≤ i → i ≤ params.share_count → i ≠ p →
    L.encKey (L.u_i (partyInput params coins uuid p).keys) (L.y_i (partyInput params coins uuid i).decommitment) =
      some (enc_key p i)
  distribute_eq : ∀ p, 1 ≤ p → p ≤ params.share_count →
    L.phase1VerifyComPhase3VerifyCorrectKeyPhase2Distribute (coins p .distribute)
      (partyInput params coins uuid p).keys params
      (everyone params.share_count fun i => (partyInput params coins uuid i).decommitment)
      (everyone params.share_count fun i => (partyInput params coins uuid i).commitment) =
        some (vss_scheme p, everyone params.share_count (share p), index p)
  encrypt_eq : ∀ p i, 1 ≤ p → p ≤ params.share_count → 1 ≤ i → i ≤ params.share_count → i ≠ p →
    L.aesEncrypt (coins p (.nonce i)) (enc_key p i) (L.toBytes (L.toBigint (share p i))) = some (aead_pack p i)
  decrypt_eq : ∀ p i, 1 ≤ p → p ≤ params.share_count → 1 ≤ i → i ≤ params.share_count → i ≠ p →
    openShare L (enc_key p i) (aead_pack i p) = some (party_share p i)
  own_eq : ∀ p, party_share p p = share p p
  construct_eq : ∀ p, 1 ≤ p → p ≤ params.share_count →
    L.phase2VerifyVssConstructKeypairPhase3PokDlog (coins p .proof) (partyInput params coins uuid p).keys params
      (everyone params.share_count fun i => L.y_i (partyInput params coins uuid i).decommitment)
      (everyone params.share_count (party_share p)) (everyone params.share_count vss_scheme) p =
        some (shared_keys p, dlog_proof p)
  verify_eq : L.verifyDlogProofs params (everyone params.share_count dlog_proof)
    (everyone params.share_count fun i => L.y_i (partyInput params coins uuid i).decommitment) = some ()

namespace KeygenTranscript

variable {params : Parameters} {coins : Nat → Draw → L.Seed} {uuid : String}
  (T : KeygenTranscript params coins uuid)

/-- What party `p` broadcasts. -/
structure Broadcasts (p : Nat) (round v : String) : Prop where
  round1 : round = "round1" → v = Serde.toStr (partyInput params coins uuid p).commitment
  round2 : round = "round2" → v = Serde.toStr (partyInput params coins uuid p).decommitment
  round4 : round = "round4" → v = Serde.toStr (T.vss_scheme p)
  round5 : round = "round5" → v = Serde.toStr (T.dlog_proof p)

def Expected : String → String → Prop :=
  Gg18.Expected params.share_count uuid T.Broadcasts fun p i v => v = Serde.toStr (T.aead_pack p i)

variable {T}

theorem broadcast_expected {p : Nat} {round v : String} (hp : 1 ≤ p) (hn : p ≤ params.share_count)
    (hr : RoundName round) (hv : T.Broadcasts p round v) : T.Expected (broadcastKey p round uuid) v :=
  ⟨p, ⟨hp, hn⟩, .broadcast hr hv⟩

/-! ### One party -/

variable {p : Nat}

/-- The shares for the others, under their keys. -/
theorem sendShares_completes (hp : 1 ≤ p) (hn : p ≤ params.share_count) {m k j : Nat}
    {enc_keys : List (List UInt8)} (hm : k + m ≤ params.share_count)
    (hkeys : enc_keys.drop j = (others p (List.range' (k + 1) m)).map (T.enc_key p)) :
    (sendShares L p uuid (coins p) enc_keys (everyone params.share_count (T.share p))
      (List.range' (k + 1) m) k j).Completes T.Expected False
      ((others p (List.range' (k + 1) m)).map fun i => .put (p2pKey p i "round3" uuid)) fun _ => True := by
  induction m generalizing k j with
  | zero => exact completes_pure trivial
  | succ m ih =>
    rw [List.range'_succ] at hkeys ⊢
    by_cases hip : k + 1 = p
    · have hskip : others p ((k + 1) :: List.range' (k + 1 + 1) m) = others p (List.range' (k + 1 + 1) m) := by
        rw [hip, others_self]
      rw [hskip] at hkeys ⊢
      rw [sendShares, if_pos hip]
      exact ih (by omega) hkeys
    · rw [others_of_ne _ hip] at hkeys ⊢
      obtain ⟨hget, hrest⟩ := drop_eq_cons hkeys
      have hshare : (everyone params.share_count (T.share p))[k]? = some (T.share p (k + 1)) :=
        getElem?_map_range' (T.share p) (Nat.succ_pos k) (show k + 1 ≤ params.share_count by omega)
      rw [sendShares, if_neg hip]
      apply Completes.ofOptionBind hget
      apply Completes.ofOptionBind hshare
      apply Completes.recordBind
      apply Completes.ofOptionBind (T.encrypt_eq p (k + 1) hp hn (Nat.succ_pos k) (by omega) hip)
      exact Completes.writeBind ⟨p, ⟨hp, hn⟩, .send (by decide) rfl⟩ (ih (by omega) hrest)

/-- The shares of the others are decrypted. -/
theorem readShares_completes (hp : 1 ≤ p) (hn : p ≤ params.share_count) {is : List Nat} {j : Nat}
    {enc_keys : List (List UInt8)} {ans : List String} (his : ∀ i ∈ is, 1 ≤ i ∧ i ≤ params.share_count)
    (hans : ans.drop j = (others p is).map fun i => Serde.toStr (T.aead_pack i p))
    (hkeys : enc_keys.drop j = (others p is).map (T.enc_key p)) :
    (readShares L p enc_keys (everyone params.share_count (T.share p)) ans is j).Completes T.Expected False []
      fun party_shares => party_shares = is.map (T.party_share p) := by
  induction is generalizing j with
  | nil => exact completes_pure rfl
  | cons i is ih =>
    have hrest : ∀ i ∈ is, 1 ≤ i ∧ i ≤ params.share_count := fun i hi => his i (List.mem_cons_of_mem _ hi)
    by_cases hip : i = p
    · subst hip
      rw [others_self] at hans hkeys
      rw [readShares, if_pos rfl]
      apply Completes.ofOptionBind (getElem?_map_range' (T.share i) hp hn)
      refine (ih hrest hans hkeys).localBind fun rest heq => completes_pure ?_
      rw [heq, List.map_cons, T.own_eq]
    · rw [others_of_ne is hip, List.map_cons] at hans hkeys
      obtain ⟨hget, hans⟩ := drop_eq_cons hans
      obtain ⟨hkey, hkeys⟩ := drop_eq_cons hkeys
      obtain ⟨hi, hin⟩ := his i List.mem_cons_self
      obtain ⟨out, hout, hshare⟩ := Option.map_eq_some_iff.mp (T.decrypt_eq p i hp hn hi hin hip)
      rw [readShares, if_neg hip, hget, Option.bind_some]
      apply Completes.ofOptionBind (Serde.round_trip _)
      apply Completes.ofOptionBind hkey
      apply Completes.recordBind
      apply Completes.ofOptionBind hout
      refine (ih hrest hans hkeys).localBind fun rest heq => completes_pure ?_
      rw [heq, hshare, List.map_cons]

omit [Serde AEAD] in
theorem decommitLoop_passes (T : KeygenTranscript params coins uuid) (hp : 1 ≤ p) (hn : p ≤ params.share_count) :
    decommitLoop L p (partyInput params coins uuid p).decommitment (L.u_i (partyInput params coins uuid p).keys)
      ((others p (List.range' 1 params.share_count)).map fun i =>
        Serde.toStr (partyInput params coins uuid i).decommitment) (List.range' 1 params.share_count) 0 =
      some ⟨everyone params.share_count fun i => L.y_i (partyInput params coins uuid i).decommitment,
        everyone params.share_count fun i => (partyInput params coins uuid i).decommitment,
        (others p (List.range' 1 params.share_count)).map (T.enc_key p)⟩ := by
  rw [decommitLoop_eq (m := fun i => (partyInput params coins uuid i).decommitment) rfl, mapM_eq]
  · rfl
  · intro i hi
    rw [mem_others, List.mem_range'_1] at hi
    exact T.encKey_eq p i hp hn hi.1.1 (by omega) hi.2

omit [Serde AEAD] [Field F] [Module F G] in
theorem sumPoints_isSome {n : Nat} (hn : 1 ≤ n) (y : Nat → G) : ∃ y_sum, sumPoints (everyone n y) = some y_sum := by
  obtain ⟨n, rfl⟩ := Nat.exists_eq_add_of_le' hn
  rw [everyone, List.range'_succ]
  exact ⟨_, rfl⟩

theorem keygen_completes (T : KeygenTranscript params coins uuid) (hp : 1 ≤ p) (hn : p ≤ params.share_count) :
    (partyInput params coins uuid p).process.Completes T.Expected False
      (exchangePlan p params.share_count uuid keygenRounds) fun _ => True := by
  have hread : ∀ round i v, RoundName round → T.Expected (broadcastKey i round uuid) v → T.Broadcasts i round v :=
    fun round i v hr h => expected_broadcast hr h
  unfold KeygenInput.process keygen
  -- round 1
  apply Completes.writeBind (broadcast_expected hp hn (by decide) ⟨fun _ => rfl, by simp, by simp, by simp⟩)
  refine (pollLoop_completes fun i v h => (hread "round1" i v (by decide) h).round1 rfl).bind
    fun round1_ans_vec hans1 => ?_
  subst hans1
  apply Completes.ofOptionBind (mapM_map_eq fun i _ => Serde.round_trip _)
  apply Completes.ofOptionBind (insertAt_map (fun i => (partyInput params coins uuid i).commitment) hp hn)
  -- round 2
  apply Completes.writeBind (broadcast_expected hp hn (by decide) ⟨by simp, fun _ => rfl, by simp, by simp⟩)
  refine (pollLoop_completes fun i v h => (hread "round2" i v (by decide) h).round2 rfl).bind
    fun round2_ans_vec hans2 => ?_
  subst hans2
  apply Completes.ofOptionBind (T.decommitLoop_passes hp hn)
  obtain ⟨y_sum, hsum⟩ := sumPoints_isSome (n := params.share_count) (by omega)
    fun i => L.y_i (partyInput params coins uuid i).decommitment
  apply Completes.ofOptionBind hsum
  apply Completes.ofOptionBind (T.distribute_eq p hp hn)
  apply Completes.recordBind
  -- round 3
  refine (T.sendShares_completes hp hn (k := 0) (j := 0) (by omega) rfl).bind fun _ _ => ?_
  refine (pollLoop_completes fun i v h => expected_send (by decide) h).bind fun round3_ans_vec hans3 => ?_
  subst hans3
  refine (T.readShares_completes hp hn (j := 0) (fun i hi => ?_) rfl rfl).localBind fun party_shares hshares => ?_
  · rw [List.mem_range'_1] at hi
    omega
  subst hshares
  apply Completes.recordBind
  -- round 4
  refine (shareRound_completes (m := T.vss_scheme) ?_ fun i v h => (hread "round4" i v (by decide) h).round4 rfl).bind
    fun vss_scheme_vec hvss => ?_
  · exact broadcast_expected hp hn (by decide) ⟨by simp, by simp, fun _ => rfl, by simp⟩
  subst hvss
  apply Completes.ofOptionBind (T.construct_eq p hp hn)
  -- round 5
  refine (shareRound_completes (m := T.dlog_proof) ?_ fun i v h => (hread "round5" i v (by decide) h).round5 rfl).bind
    fun dlog_proof_vec hproofs => ?_
  · exact broadcast_expected hp hn (by decide) ⟨by simp, by simp, by simp, fun _ => rfl⟩
  subst hproofs
  apply Completes.ofOptionBind T.verify_eq
  refine Completes.ofOptionBind (mapM_eq (m := fun i => L.e (partyInput params coins uuid (i + 1)).commitment)
    fun i hi => ?_) (completes_pure trivial)
  have hlt : i < params.share_count := List.mem_range.mp hi
  exact congrArg _ (getElem?_map_range' (fun i => (partyInput params coins uuid i).commitment)
    (Nat.succ_pos i) hlt)

/-- In every state of the parties `1..=n` of a key generation somebody can go on, and nobody has panicked. -/
theorem progress (T : KeygenTranscript params coins uuid) {schedule : List Nat}
    {net : Net Nat String String (KeygenNote F) String}
    (hrun : Machine.exec Net.move (startKeygens params coins uuid) schedule = some net) :
    Progress net ∧ NoPanic net := by
  have h := session_settled (fun p hp hn => T.keygen_completes hp hn) hrun
  exact ⟨h.1.progress h.2 (parties_scheduled keygenRounds_supplied), h.1.noPanic id⟩

end KeygenTranscript

/-! ### Two parties -/

/-- The key generation of two parties. -/
def KeygenTranscript.small : KeygenTranscript (L := KeygenLibrary.small) ⟨1, 2⟩ (fun p _ => p) "session" where
  enc_key p i := (KeygenLibrary.small.encKey (p : ZMod 3) (i : ZMod 3)).getD []
  vss_scheme p := p
  share p i := (p : ZMod 3) * i + p
  index _ := 0
  aead_pack p i := (KeygenLibrary.small.aesEncrypt p
    ((KeygenLibrary.small.encKey (p : ZMod 3) (i : ZMod 3)).getD [])
    (KeygenLibrary.small.toBytes ((p : ZMod 3) * i + p).val)).getD ⟨[], []⟩
  party_share p i := (i : ZMod 3) * p + i
  shared_keys p := (everyone 2 fun i => (i : ZMod 3) * p + i).sum
  dlog_proof p := p
  encKey_eq p i hp hpn hi hin _ := by
    obtain rfl | rfl : p = 1 ∨ p = 2 := by dsimp only at hpn; omega
    all_goals obtain rfl | rfl : i = 1 ∨ i = 2 := by dsimp only at hin; omega
    all_goals rfl
  distribute_eq p hp hpn := by
    obtain rfl | rfl : p = 1 ∨ p = 2 := by dsimp only at hpn; omega
    all_goals rfl
  encrypt_eq p i hp hpn hi hin _ := by
    obtain rfl | rfl : p = 1 ∨ p = 2 := by dsimp only at hpn; omega
    all_goals obtain rfl | rfl : i = 1 ∨ i = 2 := by dsimp only at hin; omega
    all_goals rfl
  decrypt_eq p i hp hpn hi hin _ := by
    obtain rfl | rfl : p = 1 ∨ p = 2 := by dsimp only at hpn; omega
    all_goals obtain rfl | rfl : i = 1 ∨ i = 2 := by dsimp only at hin; omega
    all_goals rfl
  own_eq p := rfl
  construct_eq p hp hpn := by
    obtain rfl | rfl : p = 1 ∨ p = 2 := by dsimp only at hpn; omega
    all_goals rfl
  verify_eq := rfl

end Gg18
