import Mathlib.Algebra.BigOperators.Group.List.Basic
import MultiPartyTss.Gg18.Keygen
import MultiPartyTss.Gg18.Session

/-!
# What one party of a key generation does

The two facts about the process `keygen` that the results about runs rest on, both about one party alone.

* `keygen_follows`: its plan of writes and polls, in which no key occurs twice.
* `keygen_holds`: what it writes, notes and returns, in terms of what the store has. The vectors it builds
  have at position `k - 1` the value that party `k` has stored, and each key it uses for another party
  comes from the point that party has stored.
-/

namespace Gg18

open Proc Slots

variable {F G : Type} (L : KeygenLibrary F G)

/-- What one party runs `keygen` with. -/
structure KeygenInput where
  params : Parameters
  coins : Draw → L.Seed
  signup : PartySignup

namespace KeygenInput

variable {L}

def number (a : KeygenInput L) : Nat := a.signup.number

def uuid (a : KeygenInput L) : String := a.signup.uuid

def count (a : KeygenInput L) : Nat := a.params.share_count

def keys (a : KeygenInput L) : L.Keys := L.create (a.coins .create) a.number

/-- The commitment it broadcasts in round 1. -/
def commitment (a : KeygenInput L) : L.KeyGenBroadcastMessage1 :=
  (L.phase1BroadcastPhase3ProofOfCorrectKey (a.coins .broadcast) a.keys).1

/-- The decommitment it broadcasts in round 2. -/
def decommitment (a : KeygenInput L) : L.KeyGenDecommitMessage1 :=
  (L.phase1BroadcastPhase3ProofOfCorrectKey (a.coins .broadcast) a.keys).2

/-- The process of this party. -/
def process [Field F] [AddCommGroup G] [Module F G] [Serde AEAD] (a : KeygenInput L) :
    PartyProc (KeygenNote F) String := keygen L a.params a.coins a.signup

end KeygenInput

/-! ### The plan -/

def keygenRounds : List Round :=
  [.share "round1", .share "round2", .send "round3", .receive "round3", .share "round4", .share "round5"]

theorem keygenRounds_wellNamed : WellNamed keygenRounds := by decide

variable [Serde AEAD]

theorem sendShares_follows (p : Nat) (uuid : String) (coins : Draw → L.Seed)
    (enc_keys : List (List UInt8)) (secret_shares : List F) (is : List Nat) (k j : Nat) :
    (sendShares L p uuid coins enc_keys secret_shares is k j).Follows
      ((others p is).map fun i => .put (p2pKey p i "round3" uuid)) := by
  induction is generalizing k j with
  | nil => rfl
  | cons i is ih =>
    by_cases hip : i = p
    · subst hip
      rw [sendShares, if_pos rfl, others_self]
      exact ih (k + 1) j
    · rw [sendShares, if_neg hip, others_of_ne is hip]
      apply Follows.ofOptionBind
      intro key_i
      apply Follows.ofOptionBind
      intro share
      refine (record_follows _).localBind fun _ => ?_
      apply Follows.ofOptionBind
      intro aead_pack_i
      exact Follows.writeBind (ih (k + 1) (j + 1))

theorem readShares_follows (p : Nat) (enc_keys : List (List UInt8)) (secret_shares : List F)
    (round3_ans_vec : List String) (is : List Nat) (j : Nat) :
    (readShares L p enc_keys secret_shares round3_ans_vec is j).Follows [] := by
  induction is generalizing j with
  | nil => rfl
  | cons i is ih =>
    rw [readShares]
    split_ifs with hip
    · apply Follows.ofOptionBind
      intro own
      exact (ih j).localBind fun rest => pure_follows _
    · apply Follows.ofOptionBind
      intro aead_pack
      apply Follows.ofOptionBind
      intro key_i
      refine (record_follows _).localBind fun _ => ?_
      apply Follows.ofOptionBind
      intro out
      exact (ih (j + 1)).localBind fun rest => pure_follows _

variable [Field F] [AddCommGroup G] [Module F G]

theorem keygen_follows (a : KeygenInput L) :
    a.process.Follows (exchangePlan a.number a.count a.uuid keygenRounds) := by
  apply Follows.writeBind
  refine (pollLoop_follows _ a.number _).bind fun round1_ans_vec => ?_
  apply Follows.ofOptionBind
  intro bc1_others
  apply Follows.ofOptionBind
  intro bc1_vec
  apply Follows.writeBind
  refine (pollLoop_follows _ a.number _).bind fun round2_ans_vec => ?_
  apply Follows.ofOptionBind
  intro decommitted
  apply Follows.ofOptionBind
  intro y_sum
  apply Follows.ofOptionBind
  intro distributed
  refine (record_follows _).localBind fun _ => ?_
  refine (sendShares_follows L a.number a.uuid a.coins _ _ _ 0 0).bind fun _ => ?_
  refine (pollLoop_follows _ a.number _).bind fun round3_ans_vec => ?_
  refine (readShares_follows L a.number _ _ _ _ 0).localBind fun party_shares => ?_
  refine (record_follows _).localBind fun _ => ?_
  refine (shareRound_follows a.number a.count "round4" a.uuid _).bind fun vss_scheme_vec => ?_
  apply Follows.ofOptionBind
  intro constructed
  refine (shareRound_follows a.number a.count "round5" a.uuid _).bind fun dlog_proof_vec => ?_
  apply Follows.ofOptionBind
  intro _
  apply Follows.ofOptionBind
  intro paillier_key_vec
  exact pure_follows _

/-! ### What the store says about a party -/

namespace KeygenInput

variable {L}
variable (a : KeygenInput L) (store : String → Option String)

/-- The key it shares with party `i`, by the point that party `i` has stored. -/
def KeyFor (i : Nat) (key : List UInt8) : Prop :=
  ∃ decom : L.KeyGenDecommitMessage1, Stored store (broadcastKey i "round2" a.uuid) decom ∧
    L.encKey (L.u_i a.keys) (L.y_i decom) = some key

/-- The sharing it deals, by the commitments and decommitments in the store. -/
def Dealt (vss_scheme : L.VerifiableSS) (secret_shares : List F) : Prop :=
  ∃ decom_vec bc1_vec index, Everyone store a.count "round2" a.uuid decom_vec ∧
    Everyone store a.count "round1" a.uuid bc1_vec ∧
    L.phase1VerifyComPhase3VerifyCorrectKeyPhase2Distribute (a.coins .distribute) a.keys a.params
      decom_vec bc1_vec = some (vss_scheme, secret_shares, index)

/-- The share it holds of party `i`. -/
def ShareFrom (secret_shares : List F) (i : Nat) (share : F) : Prop :=
  if i = a.number then secret_shares[i - 1]? = some share
  else ∃ aead_pack key out, Stored store (p2pKey i a.number "round3" a.uuid) aead_pack ∧
    a.KeyFor store i key ∧ L.aesDecrypt key aead_pack = some out ∧
    share = L.ofBigint (L.fromBytes out)

def PartyShares (party_shares : List F) : Prop :=
  ∃ vss_scheme secret_shares, a.Dealt store vss_scheme secret_shares ∧
    List.Forall₂ (a.ShareFrom store secret_shares) (List.range' 1 a.count) party_shares

/-- What it broadcasts in a round. -/
structure Broadcasts (round v : String) : Prop where
  round1 : round = "round1" → v = Serde.toStr a.commitment
  round2 : round = "round2" → v = Serde.toStr a.decommitment
  round4 : round = "round4" → ∃ vss_scheme secret_shares, a.Dealt store vss_scheme secret_shares ∧
    v = Serde.toStr vss_scheme

/-- What it sends to party `i`. -/
def Sends (i : Nat) (v : String) : Prop :=
  ∃ vss_scheme secret_shares share key aead_pack, a.Dealt store vss_scheme secret_shares ∧
    secret_shares[i - 1]? = some share ∧ a.KeyFor store i key ∧
    L.aesEncrypt (a.coins (.nonce i)) key (L.toBytes (L.toBigint share)) = some aead_pack ∧
    v = Serde.toStr aead_pack

def Notes : KeygenNote F → Prop
  | .secretShares secret_shares => ∃ vss_scheme, a.Dealt store vss_scheme secret_shares
  | .encrypt i key => i ≠ a.number ∧ a.KeyFor store i key
  | .decrypt i key => i ≠ a.number ∧ a.KeyFor store i key
  | .partyShares party_shares => a.PartyShares store party_shares

def Returns (text : String) : Prop :=
  ∃ bc1_vec decom_vec vss_scheme_vec party_shares shared_keys dlog_proof,
    Everyone store a.count "round1" a.uuid bc1_vec ∧ Everyone store a.count "round2" a.uuid decom_vec ∧
    Everyone store a.count "round4" a.uuid vss_scheme_vec ∧ a.PartyShares store party_shares ∧
    L.phase2VerifyVssConstructKeypairPhase3PokDlog (a.coins .proof) a.keys a.params
      (decom_vec.map L.y_i) party_shares vss_scheme_vec a.number = some (shared_keys, dlog_proof) ∧
    text = Serde.toStr ((a.keys, shared_keys, a.number, vss_scheme_vec, bc1_vec.map L.e,
      (decom_vec.map L.y_i).sum) : L.Output)

/-- What it keeps to, against what it finds in the store. -/
def contract : Proc.Contract String String (KeygenNote F) where
  store := store
  writes := Written a.number a.uuid (a.Broadcasts store) (a.Sends store)
  notes := a.Notes store

variable {a store}

omit [Serde AEAD] in
theorem KeyFor.unique {i : Nat} {key key' : List UInt8} (h : a.KeyFor store i key)
    (h' : a.KeyFor store i key') : key = key' := by
  obtain ⟨decom, hdecom, hkey⟩ := h
  obtain ⟨decom', hdecom', hkey'⟩ := h'
  obtain rfl := hdecom.unique hdecom'
  exact Option.some.inj (hkey.symm.trans hkey')

omit [Serde AEAD] [Field F] [AddCommGroup G] [Module F G] in
theorem Dealt.unique {vss_scheme vss_scheme' : L.VerifiableSS} {secret_shares secret_shares' : List F}
    (h : a.Dealt store vss_scheme secret_shares) (h' : a.Dealt store vss_scheme' secret_shares') :
    vss_scheme = vss_scheme' ∧ secret_shares = secret_shares' := by
  obtain ⟨decom_vec, bc1_vec, index, hdecom, hbc1, hdistribute⟩ := h
  obtain ⟨decom_vec', bc1_vec', index', hdecom', hbc1', hdistribute'⟩ := h'
  obtain rfl := hdecom.unique hdecom'
  obtain rfl := hbc1.unique hbc1'
  have hsame := Option.some.inj (hdistribute.symm.trans hdistribute')
  exact ⟨congrArg Prod.fst hsame, congrArg (fun d => d.2.1) hsame⟩

end KeygenInput

/-! ### The loops -/

variable {L}

omit [Serde AEAD] in
theorem sumPoints_eq_some {point_vec : List G} {y_sum : G} (h : sumPoints point_vec = some y_sum) :
    y_sum = point_vec.sum := by
  cases point_vec with
  | nil => exact (Option.some_ne_none y_sum h.symm).elim
  | cons head tail =>
    obtain rfl := Option.some.inj h
    clear h
    rw [List.sum_cons]
    induction tail generalizing head with
    | nil => rw [List.foldl_nil, List.sum_nil, add_zero]
    | cons x tail ih => rw [List.foldl_cons, ih, List.sum_cons, add_assoc]

omit [Serde AEAD] in
/-- The points and decommitments of all parties, and the keys for the others, in order. -/
theorem decommitLoop_spec {a : KeygenInput L} {store : String → Option String}
    {round2_ans_vec : List String} {decommitted : Decommitted L} {is : List Nat} {j : Nat}
    (hown : store (broadcastKey a.number "round2" a.uuid) = some (Serde.toStr a.decommitment))
    (hans : List.Forall₂ (fun i v => store (broadcastKey i "round2" a.uuid) = some v)
      (others a.number is) (round2_ans_vec.drop j))
    (hloop : decommitLoop L a.number a.decommitment (L.u_i a.keys) round2_ans_vec is j =
      some decommitted) :
    decommitted.point_vec = decommitted.decom_vec.map L.y_i ∧
      List.Forall₂ (fun i decom => Stored store (broadcastKey i "round2" a.uuid) decom) is
        decommitted.decom_vec ∧
      List.Forall₂ (a.KeyFor store) (others a.number is) decommitted.enc_keys := by
  induction is generalizing j decommitted with
  | nil =>
    obtain rfl := Option.some.inj hloop
    exact ⟨rfl, List.Forall₂.nil, List.Forall₂.nil⟩
  | cons i is ih =>
    by_cases hip : i = a.number
    · subst hip
      rw [decommitLoop, if_pos rfl] at hloop
      obtain ⟨rest, hrest, hloop⟩ := Option.bind_eq_some_iff.mp hloop
      obtain rfl := Option.some.inj hloop
      rw [others_self] at hans ⊢
      obtain ⟨hpoints, hdecoms, hkeys⟩ := ih hans hrest
      exact ⟨by rw [hpoints, List.map_cons], List.Forall₂.cons (stored_toStr hown) hdecoms, hkeys⟩
    · rw [decommitLoop, if_neg hip] at hloop
      obtain ⟨decom_j, hdecom, hloop⟩ := Option.bind_eq_some_iff.mp hloop
      obtain ⟨key, hkey, hloop⟩ := Option.bind_eq_some_iff.mp hloop
      obtain ⟨rest, hrest, hloop⟩ := Option.bind_eq_some_iff.mp hloop
      obtain rfl := Option.some.inj hloop
      rw [others_of_ne is hip] at hans ⊢
      obtain ⟨v, hget, hv, hvs⟩ := forall₂_drop hans
      rw [hget, Option.bind_some] at hdecom
      obtain ⟨hpoints, hdecoms, hkeys⟩ := ih hvs hrest
      have hstored : Stored store (broadcastKey i "round2" a.uuid) decom_j := ⟨v, hv, hdecom⟩
      exact ⟨by rw [hpoints, List.map_cons], List.Forall₂.cons hstored hdecoms,
        List.Forall₂.cons ⟨decom_j, hstored, hkey⟩ hkeys⟩

/-- The share for party `i` is the one at position `i - 1`, under the key for party `i`. -/
theorem sendShares_holds {a : KeygenInput L} {store : String → Option String}
    {vss_scheme : L.VerifiableSS} {secret_shares : List F} {enc_keys : List (List UInt8)}
    (hdealt : a.Dealt store vss_scheme secret_shares) {m k j : Nat}
    (hkeys : List.Forall₂ (a.KeyFor store) (others a.number (List.range' (k + 1) m))
      (enc_keys.drop j)) :
    (sendShares L a.number a.uuid a.coins enc_keys secret_shares (List.range' (k + 1) m) k j).Holds
      (a.contract store) fun _ => True := by
  induction m generalizing k j with
  | zero => trivial
  | succ m ih =>
    rw [List.range'_succ] at hkeys ⊢
    by_cases hip : k + 1 = a.number
    · rw [sendShares, if_pos hip]
      have hskip : others a.number ((k + 1) :: List.range' (k + 1 + 1) m) =
          others a.number (List.range' (k + 1 + 1) m) := by
        rw [hip, others_self]
      rw [hskip] at hkeys
      exact ih hkeys
    · rw [sendShares, if_neg hip]
      rw [others_of_ne _ hip] at hkeys
      obtain ⟨key_i, hget, hkey, hkeys⟩ := forall₂_drop hkeys
      rw [holds_bind, holds_ofOption, hget]
      intro key' hsame
      obtain rfl := Option.some.inj hsame
      rw [holds_bind, holds_ofOption]
      intro share hshare
      rw [holds_bind, holds_record]
      refine ⟨⟨hip, hkey⟩, ?_⟩
      rw [holds_bind, holds_ofOption]
      intro aead_pack_i haead
      rw [holds_bind, sendP2p, holds_write]
      exact ⟨.send (by decide) ⟨vss_scheme, secret_shares, share, key_i, aead_pack_i, hdealt, hshare, hkey,
        haead, rfl⟩, fun _ => ih hkeys⟩

/-- The shares it collects are those of parties `1, 2, …` in order. -/
theorem readShares_holds {a : KeygenInput L} {store : String → Option String} {secret_shares : List F}
    {enc_keys : List (List UInt8)} {round3_ans_vec : List String} {is : List Nat} {j : Nat}
    (hans : List.Forall₂ (fun i v => store (p2pKey i a.number "round3" a.uuid) = some v)
      (others a.number is) (round3_ans_vec.drop j))
    (hkeys : List.Forall₂ (a.KeyFor store) (others a.number is) (enc_keys.drop j)) :
    (readShares L a.number enc_keys secret_shares round3_ans_vec is j).Holds (a.contract store)
      fun party_shares => List.Forall₂ (a.ShareFrom store secret_shares) is party_shares := by
  induction is generalizing j with
  | nil => exact List.Forall₂.nil
  | cons i is ih =>
    by_cases hip : i = a.number
    · subst hip
      rw [others_self] at hans hkeys
      rw [readShares, if_pos rfl, holds_bind, holds_ofOption]
      intro own hown
      rw [holds_bind]
      refine (ih hans hkeys).mono fun rest hrest => ?_
      refine List.Forall₂.cons ?_ hrest
      rw [KeygenInput.ShareFrom, if_pos rfl]
      exact hown
    · rw [others_of_ne is hip] at hans hkeys
      obtain ⟨v, hget, hv, hvs⟩ := forall₂_drop hans
      obtain ⟨key, hkget, hkey, hkeys⟩ := forall₂_drop hkeys
      rw [readShares, if_neg hip, holds_bind, holds_ofOption, hget, Option.bind_some]
      intro aead_pack haead
      rw [holds_bind, holds_ofOption, hkget]
      intro key' hsame
      obtain rfl := Option.some.inj hsame
      rw [holds_bind, holds_record]
      refine ⟨⟨hip, hkey⟩, ?_⟩
      rw [holds_bind, holds_ofOption]
      intro out hout
      rw [holds_bind]
      refine (ih hvs hkeys).mono fun rest hrest => ?_
      refine List.Forall₂.cons ?_ hrest
      rw [KeygenInput.ShareFrom, if_neg hip]
      exact ⟨aead_pack, key, out, ⟨v, hv, haead⟩, hkey, hout, rfl⟩

/-! ### The whole process -/

theorem keygen_holds (a : KeygenInput L) (store : String → Option String) (hp : 1 ≤ a.number)
    (hn : a.number ≤ a.count) : a.process.Holds (a.contract store) (a.Returns store) := by
  unfold KeygenInput.process keygen
  -- round 1
  rw [holds_bind, broadcast, holds_write]
  refine ⟨.broadcast (by decide) ⟨fun _ => rfl, by simp, by simp⟩, fun hround1 => ?_⟩
  rw [holds_bind, pollForBroadcasts]
  apply pollLoop_holds
  intro round1_ans_vec hans1
  rw [holds_bind, holds_ofOption]
  intro bc1_others hothers
  rw [holds_bind, holds_ofOption]
  intro bc1_vec hinsert
  have hbc1 : Everyone store a.count "round1" a.uuid bc1_vec :=
    insertAt_spec hp hn (stored_toStr hround1) (mapM_forall₂ hans1 hothers) hinsert
  -- round 2
  rw [holds_bind, broadcast, holds_write]
  refine ⟨.broadcast (by decide) ⟨by simp, fun _ => rfl, by simp⟩, fun hround2 => ?_⟩
  rw [holds_bind, pollForBroadcasts]
  apply pollLoop_holds
  intro round2_ans_vec hans2
  rw [holds_bind, holds_ofOption]
  intro decommitted hloop
  obtain ⟨hpoints, hdecoms, hkeys⟩ := decommitLoop_spec (j := 0) hround2 hans2 hloop
  rw [holds_bind, holds_ofOption]
  intro y_sum hsum
  rw [holds_bind, holds_ofOption]
  rintro ⟨vss_scheme, secret_shares, index⟩ hdistribute
  have hdealt : a.Dealt store vss_scheme secret_shares :=
    ⟨decommitted.decom_vec, bc1_vec, index, hdecoms, hbc1, hdistribute⟩
  rw [holds_bind, holds_record]
  refine ⟨⟨vss_scheme, hdealt⟩, ?_⟩
  -- round 3
  rw [holds_bind]
  refine (sendShares_holds hdealt (k := 0) (j := 0) hkeys).mono fun _ _ => ?_
  rw [holds_bind, pollForP2p]
  apply pollLoop_holds
  intro round3_ans_vec hans3
  rw [holds_bind]
  refine (readShares_holds (j := 0) hans3 hkeys).mono fun party_shares hshares => ?_
  have hpartyShares : a.PartyShares store party_shares := ⟨vss_scheme, secret_shares, hdealt, hshares⟩
  rw [holds_bind, holds_record]
  refine ⟨hpartyShares, ?_⟩
  -- rounds 4 and 5
  rw [holds_bind]
  apply shareRound_holds
    (Written.broadcast (by decide) ⟨by simp, by simp, fun _ => ⟨vss_scheme, secret_shares, hdealt, rfl⟩⟩)
  intro vss_scheme_vec hvss
  rw [holds_bind, holds_ofOption]
  rintro ⟨shared_keys, dlog_proof⟩ hconstruct
  rw [holds_bind]
  apply shareRound_holds (Written.broadcast (by decide) ⟨by simp, by simp, by simp⟩)
  intro dlog_proof_vec _
  rw [holds_bind, holds_ofOption]
  intro _ _
  rw [holds_bind, holds_ofOption]
  intro paillier_key_vec hpaillier
  rw [holds_pure]
  have hpaillier := mapM_range_get hbc1.length hpaillier
  have hsum := sumPoints_eq_some hsum
  rw [hpoints] at hsum hconstruct
  refine ⟨bc1_vec, decommitted.decom_vec, vss_scheme_vec, party_shares, shared_keys, dlog_proof,
    hbc1, hdecoms, hvss, hpartyShares, hconstruct, ?_⟩
  rw [hsum, hpaillier]
  rfl

/-- Key generation, as a protocol. -/
@[reducible] def keygenProtocol (L : KeygenLibrary F G) : Protocol (KeygenInput L) (KeygenNote F) where
  rounds := keygenRounds
  number := KeygenInput.number
  count := KeygenInput.count
  uuid := KeygenInput.uuid
  process := KeygenInput.process
  broadcasts := KeygenInput.Broadcasts
  sends := KeygenInput.Sends
  notes := KeygenInput.Notes
  returns := KeygenInput.Returns
  wellNamed := keygenRounds_wellNamed
  follows := keygen_follows L
  holds := keygen_holds

end Gg18
