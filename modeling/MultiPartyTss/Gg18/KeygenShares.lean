import MultiPartyTss.Gg18.KeygenRun
import MultiPartyTss.Lib.Sharing

/-!
# The secret shares of a key generation

Party `a` sends to party `b` the entry `b - 1` of its secret shares, under a key that both compute from
the other's point. `enc_keys` and the answers leave out the own party and are read with a counter, the
secret shares are a full vector and are read at the number minus one.

`KeygenSession.shares_distributed`: in every run both ends use the same key, and entry `a - 1` of what `b`
collects is entry `b - 1` of what `a` has dealt. So the private keys of `t + 1` parties interpolate to the
sum of the secrets, which is the discrete logarithm of the public key.
-/

namespace Gg18

open Proc Slots Network

variable {P F G : Type} {L : KeygenLibrary F G} [Serde AEAD] [Field F] [AddCommGroup G] [Module F G]

/-- What the exchange of shares relies on. -/
structure KeygenLaws (L : KeygenLibrary F G) (g : G) : Prop where
  y_i_eq : ∀ seed seed' n,
    L.y_i (L.phase1BroadcastPhase3ProofOfCorrectKey seed' (L.create seed n)).2 = L.u_i (L.create seed n) • g
  fromBytes_toBytes : ∀ n, L.fromBytes (L.toBytes n) = n
  ofBigint_toBigint : ∀ x, L.ofBigint (L.toBigint x) = x
  gcmDecrypt_gcmEncrypt : ∀ key nonce plaintext ciphertext,
    L.gcmEncrypt key nonce plaintext = some ciphertext → L.gcmDecrypt key nonce ciphertext = some plaintext

/-- The dealt shares are values of a polynomial through the secret at the numbers of the parties, and a
private key is the sum of the shares collected. -/
structure SharingLaws (L : KeygenLibrary F G) (params : Parameters) : Prop where
  distribute : ∀ seed keys decom_vec bc1_vec vss_scheme secret_shares index,
    L.phase1VerifyComPhase3VerifyCorrectKeyPhase2Distribute seed keys params decom_vec bc1_vec =
      some (vss_scheme, secret_shares, index) →
    ∃ f, Sharing params.threshold (L.u_i keys) f ∧
      ∀ k < params.share_count, secret_shares[k]? = some (f.eval ((k + 1 : Nat) : F))
  construct : ∀ seed keys y_vec party_shares vss_scheme_vec n shared_keys dlog_proof,
    L.phase2VerifyVssConstructKeypairPhase3PokDlog seed keys params y_vec party_shares vss_scheme_vec n =
      some (shared_keys, dlog_proof) → L.x_i shared_keys = party_shares.sum
  /-- The numbers of the parties are different scalars. -/
  cast_injective : ∀ i j : Nat, i ≤ params.share_count → j ≤ params.share_count → (i : F) = (j : F) → i = j

namespace KeygenSession

variable {reserved : String → Bool} {input : P → Option (KeygenInput L)} {n : Nat} {params : Parameters}
  {uuid : String} {net : Net P String String (KeygenNote F) String} {g : G} {p q : P} {a b : KeygenInput L}

/-! ### Keys -/

/-- The key `a` has for `b` comes from the point of `b`. -/
theorem keyFor_eq (h : KeygenSession reserved input n uuid net) (ha : input p = some a)
    (hb : input q = some b) {key : List UInt8}
    (hkey : a.KeyFor (visible reserved net.store) b.number key) :
    L.encKey (L.u_i a.keys) (L.y_i b.decommitment) = some key := by
  obtain ⟨decom, ⟨v, hv, hread⟩, henc⟩ := hkey
  rw [h.session ha] at hv
  obtain ⟨q', b', party, hb', hnumber, -, -, hbroadcasts⟩ := h.broadcaster (by decide) hv
  obtain ⟨-, rfl⟩ := h.same hb' hb hnumber
  rw [hbroadcasts.round2 rfl, Serde.round_trip, Option.some.injEq] at hread
  rw [hread]
  exact henc

omit [Serde AEAD] in
theorem encKey_symm (laws : KeygenLaws L g) (a b : KeygenInput L) :
    L.encKey (L.u_i a.keys) (L.y_i b.decommitment) = L.encKey (L.u_i b.keys) (L.y_i a.decommitment) := by
  have hpoint : L.u_i a.keys • L.y_i b.decommitment = L.u_i b.keys • L.y_i a.decommitment := by
    rw [KeygenInput.decommitment, KeygenInput.decommitment, KeygenInput.keys, KeygenInput.keys,
      laws.y_i_eq, laws.y_i_eq, smul_comm]
  rw [KeygenLibrary.encKey, hpoint, KeygenLibrary.encKey]

/-- Both ends have the same key. -/
theorem keyFor_symm (h : KeygenSession reserved input n uuid net) (laws : KeygenLaws L g)
    (ha : input p = some a) (hb : input q = some b) {key key' : List UInt8}
    (hkey : a.KeyFor (visible reserved net.store) b.number key)
    (hkey' : b.KeyFor (visible reserved net.store) a.number key') : key' = key := by
  have heq := h.keyFor_eq ha hb hkey
  have heq' := h.keyFor_eq hb ha hkey'
  rw [encKey_symm laws, heq, Option.some.injEq] at heq'
  exact heq'.symm

/-! ### Shares -/

/-- The share that `b` holds of `a` is the one `a` has dealt for `b`. -/
theorem share_dealt (h : KeygenSession reserved input n uuid net) (laws : KeygenLaws L g)
    (ha : input p = some a) (hb : input q = some b) {vss_scheme : L.VerifiableSS} {secret_shares : List F}
    (hdealt : b.Dealt (visible reserved net.store) vss_scheme secret_shares) {share : F}
    (hshare : b.ShareFrom (visible reserved net.store) secret_shares a.number share) :
    ∃ vss_scheme secret_shares, a.Dealt (visible reserved net.store) vss_scheme secret_shares ∧
      secret_shares[b.number - 1]? = some share := by
  unfold KeygenInput.ShareFrom at hshare
  split_ifs at hshare with hnumber
  · obtain ⟨-, rfl⟩ := h.same ha hb hnumber
    exact ⟨vss_scheme, secret_shares, hdealt, hshare⟩
  · obtain ⟨aead_pack, key', out, ⟨v, hv, hread⟩, hkey', hdec, rfl⟩ := hshare
    rw [h.session hb] at hv
    obtain ⟨p', a', party, ha', hsame, -, -, hsends⟩ := h.sender (by decide) hv
    obtain ⟨-, rfl⟩ := h.same ha' ha hsame
    obtain ⟨vss_scheme_a, secret_shares_a, share, key, aead_pack_a, hdealt_a, hget, hkey, henc, rfl⟩ := hsends
    rw [Serde.round_trip, Option.some.injEq] at hread
    subst hread
    rw [h.keyFor_symm laws ha hb hkey hkey'] at hdec
    have hout := KeygenLibrary.aesDecrypt_aesEncrypt laws.gcmDecrypt_gcmEncrypt henc hdec
    refine ⟨vss_scheme_a, secret_shares_a, hdealt_a, ?_⟩
    rw [hget, hout, laws.fromBytes_toBytes, laws.ofBigint_toBigint]

/-- The shares that `b` has collected are those that the parties have dealt for it. -/
theorem partyShares_get (h : KeygenSession reserved input n uuid net) (laws : KeygenLaws L g)
    (ha : input p = some a) (hb : input q = some b) {party_shares : List F}
    (hshares : b.PartyShares (visible reserved net.store) party_shares) :
    ∃ vss_scheme secret_shares share, a.Dealt (visible reserved net.store) vss_scheme secret_shares ∧
      party_shares[a.number - 1]? = some share ∧ secret_shares[b.number - 1]? = some share := by
  obtain ⟨vss_scheme, secret_shares, hdealt, hall⟩ := hshares
  obtain ⟨hpos, hle⟩ : 1 ≤ a.number ∧ a.number ≤ n := h.bounds p a ha
  rw [h.count hb] at hall
  obtain ⟨share, hshare, hfrom⟩ := forall₂_range'_at hall hpos hle
  obtain ⟨vss_scheme_a, secret_shares_a, hdealt_a, hentry⟩ := h.share_dealt laws ha hb hdealt hfrom
  exact ⟨vss_scheme_a, secret_shares_a, share, hdealt_a, hshare, hentry⟩

/-! ### Private keys -/

section Parties

/-- What party `p` of session `uuid` runs with. -/
def partyInput (params : Parameters) (coins : Nat → Draw → L.Seed) (uuid : String) (p : Nat) :
    KeygenInput L :=
  ⟨params, coins p, ⟨p, uuid⟩⟩

/-- Parties `1..=n` of session `uuid`. -/
abbrev keygenParties (params : Parameters) (coins : Nat → Draw → L.Seed) (uuid : String) :
    Nat → Option (KeygenInput L) :=
  parties params.share_count (partyInput params coins uuid)

/-- The parties before their first step. -/
def startKeygens (params : Parameters) (coins : Nat → Draw → L.Seed) (uuid : String) :
    Net Nat String String (KeygenNote F) String :=
  (keygenProtocol L).start params.share_count (partyInput params coins uuid)

variable {coins : Nat → Draw → L.Seed} {net : Net Nat String String (KeygenNote F) String}

/-- The secret scalar of party `k`. -/
def secret (coins : Nat → Draw → L.Seed) (k : Nat) : F := L.u_i (L.create (coins k .create) k)

/-- Once one party has collected its shares, all parties have dealt, each a sharing of its secret, and
what a party collects is the value at its number. -/
theorem collected (h : KeygenSession reserved (keygenParties params coins uuid) params.share_count uuid net)
    (laws : KeygenLaws L g) (sharing : SharingLaws L params) {q : Nat} {b : KeygenInput L}
    (hb : keygenParties params coins uuid q = some b) {party_shares : List F}
    (hshares : b.PartyShares (visible reserved net.store) party_shares) :
    ∃ f : Nat → Polynomial F, ∀ k ∈ Finset.Icc 1 params.share_count,
      Sharing params.threshold (secret coins k) (f k) ∧
      ∀ q b party_shares, keygenParties params coins uuid q = some b →
        b.PartyShares (visible reserved net.store) party_shares →
          party_shares[k - 1]? = some ((f k).eval (q : F)) := by
  have hone : ∀ k ∈ Finset.Icc 1 params.share_count, ∃ f : Polynomial F,
      Sharing params.threshold (secret coins k) f ∧
      ∀ q b party_shares, keygenParties params coins uuid q = some b →
        b.PartyShares (visible reserved net.store) party_shares →
          party_shares[k - 1]? = some (f.eval (q : F)) := by
    intro k hk
    have ha : keygenParties params coins uuid k = some (partyInput params coins uuid k) :=
      parties_of_bounds (Finset.mem_Icc.mp hk)
    obtain ⟨vss_scheme, secret_shares, -, hdealt, -, -⟩ := h.partyShares_get laws ha hb hshares
    obtain ⟨decom_vec, bc1_vec, index, -, -, hdistribute⟩ := id hdealt
    obtain ⟨f, hsharing, hvalues⟩ := sharing.distribute _ _ _ _ _ _ _ hdistribute
    refine ⟨f, hsharing, fun q' b' party_shares' hb' hshares' => ?_⟩
    obtain ⟨vss_scheme', secret_shares', share, hdealt', hshare, hentry⟩ :=
      h.partyShares_get laws ha hb' hshares'
    obtain ⟨-, rfl⟩ := hdealt.unique hdealt'
    obtain ⟨⟨hpos, hle⟩, rfl⟩ := parties_some hb'
    have hvalue := hvalues (q' - 1) (by omega)
    rw [Nat.sub_add_cancel hpos] at hvalue
    exact hshare.trans (hentry.symm.trans hvalue)
  choose! f hf using hone
  exact ⟨f, hf⟩

/-- The private key of a party is the value at its number of the sum of all sharings. -/
theorem private_key (h : KeygenSession reserved (keygenParties params coins uuid) params.share_count uuid net)
    (sharing : SharingLaws L params) {f : Nat → Polynomial F}
    (hf : ∀ k ∈ Finset.Icc 1 params.share_count, ∀ q b party_shares,
      keygenParties params coins uuid q = some b → b.PartyShares (visible reserved net.store) party_shares →
        party_shares[k - 1]? = some ((f k).eval (q : F)))
    {q : Nat} {text : String} {out : L.Output} (htext : net.output q = some text)
    (hout : Serde.fromStr text = some out) :
    L.x_i out.shared_keys = (∑ k ∈ Finset.Icc 1 params.share_count, f k).eval (q : F) := by
  obtain ⟨b, hb, _, _, _, party_shares, shared_keys, _, -, -, -, hshares, hconstruct, htuple⟩ :=
    h.returned htext
  rw [htuple, Serde.round_trip, Option.some.injEq] at hout
  subst hout
  have hentries : List.Forall₂ (fun k x => x = (f k).eval (q : F)) (List.range' 1 params.share_count)
      party_shares := by
    obtain ⟨_, _, -, hall⟩ := id hshares
    have hlen := (forall₂_range'_iff.mp hall).1
    rw [h.count hb] at hlen
    refine forall₂_range'_iff.mpr ⟨hlen, fun k x hx => ?_⟩
    have hlt : k < party_shares.length := (List.getElem?_eq_some_iff.mp hx).1
    have hvalue := hf (1 + k) (Finset.mem_Icc.mpr (by omega)) q b party_shares hb hshares
    rw [Nat.add_sub_cancel_left, hx] at hvalue
    exact Option.some.inj hvalue
  have hparams : b.params = params := by
    obtain ⟨-, rfl⟩ := parties_some hb
    rfl
  rw [hparams] at hconstruct
  calc L.x_i shared_keys = party_shares.sum := sharing.construct _ _ _ _ _ _ _ _ hconstruct
    _ = ∑ k ∈ Finset.Icc 1 params.share_count, (f k).eval (q : F) := by
      rw [forall₂_eq_map hentries, sum_map_range']
    _ = (∑ k ∈ Finset.Icc 1 params.share_count, f k).eval (q : F) := (Polynomial.eval_finsetSum _ _ _).symm

/-- The public key is the point of the sum of the secrets. -/
theorem public_key (h : KeygenSession reserved (keygenParties params coins uuid) params.share_count uuid net)
    (laws : KeygenLaws L g) {q : Nat} {text : String} {out : L.Output} (htext : net.output q = some text)
    (hout : Serde.fromStr text = some out) :
    out.y_sum = (∑ k ∈ Finset.Icc 1 params.share_count, secret coins k : F) • g := by
  obtain ⟨b, hb, _, decom_vec, _, _, _, _, -, hdecom, -, -, -, htuple⟩ :=
    h.returned htext
  rw [htuple, Serde.round_trip, Option.some.injEq] at hout
  subst hout
  rw [h.count hb, h.session hb] at hdecom
  have hpoints : List.Forall₂ (fun k y => y = (secret coins k : F) • g)
      (List.range' 1 params.share_count) (decom_vec.map L.y_i) := by
    refine List.forall₂_map_right_iff.mpr (hdecom.imp fun k decom hstored => ?_)
    obtain ⟨v, hv, hread⟩ := hstored
    obtain ⟨p, a, -, ha, rfl, -, -, hbroadcasts⟩ := h.broadcaster (by decide) hv
    rw [hbroadcasts.round2 rfl, Serde.round_trip, Option.some.injEq] at hread
    obtain ⟨-, rfl⟩ := parties_some ha
    rw [← hread]
    exact laws.y_i_eq _ _ _
  rw [Finset.sum_smul, ← sum_map_range', ← forall₂_eq_map hpoints]
  rfl

/-- The private keys of any `t + 1` parties interpolate to the discrete logarithm of the public key. -/
theorem private_keys_interpolate
    (h : KeygenSession reserved (keygenParties params coins uuid) params.share_count uuid net)
    (laws : KeygenLaws L g) (sharing : SharingLaws L params) {S : Finset Nat} {out : Nat → L.Output}
    (hcard : S.card = params.threshold + 1)
    (hout : ∀ b ∈ S, ∃ text, net.output b = some text ∧ Serde.fromStr text = some (out b)) :
    (Lagrange.interpolate S (fun b => (b : F)) fun b => L.x_i (out b).shared_keys).eval 0 =
      ∑ k ∈ Finset.Icc 1 params.share_count, secret coins k := by
  obtain ⟨q, hq⟩ := Finset.card_pos.mp (show 0 < S.card by omega)
  obtain ⟨text, htext, -⟩ := hout q hq
  obtain ⟨b, hb, -, -, -, party_shares, -, -, -, -, -, hshares, -⟩ := h.returned htext
  obtain ⟨f, hf⟩ := h.collected laws sharing hb hshares
  have hsharing := Sharing.sum fun k hk => (hf k hk).1
  apply hsharing.reconstruct
  · intro i hi j hj heq
    obtain ⟨text_i, htext_i, -⟩ := hout i hi
    obtain ⟨text_j, htext_j, -⟩ := hout j hj
    obtain ⟨a, ha, -⟩ := h.returned htext_i
    obtain ⟨c, hc, -⟩ := h.returned htext_j
    exact sharing.cast_injective i j (parties_some ha).1.2 (parties_some hc).1.2 heq
  · omega
  · intro i hi
    obtain ⟨text_i, htext_i, hout_i⟩ := hout i hi
    exact (h.private_key sharing (fun k hk => (hf k hk).2) htext_i hout_i).symm

/-! ### The distribution of shares -/

/-- What `a` has stored for `b` is encrypted under one key of 32 bytes, and `a` and `b` use no other. -/
def SameKey (coins : Nat → Draw → L.Seed) (uuid : String)
    (net : Net Nat String String (KeygenNote F) String) : Prop :=
  ∀ a b pa pb v, a ≠ b → net.party a = some pa → net.party b = some pb →
    (p2pKey a b "round3" uuid, v) ∈ pa.wrote →
    ∃ key aead_pack plaintext, v = Serde.toStr aead_pack ∧
      L.aesEncrypt (coins a (.nonce b)) key plaintext = some aead_pack ∧
      key.length = KeygenLibrary.aesKeyBytesLen ∧ (∀ key', .encrypt b key' ∈ pa.log → key' = key) ∧
      ∀ key', .decrypt a key' ∈ pb.log → key' = key

/-- What `b` has collected at `a - 1` is what `a` has dealt at `b - 1`. -/
def Transposed (net : Net Nat String String (KeygenNote F) String) : Prop :=
  ∀ a b pa pb secret_shares party_shares, net.party a = some pa → net.party b = some pb →
    .secretShares secret_shares ∈ pa.log → .partyShares party_shares ∈ pb.log →
    ∃ share, party_shares[a - 1]? = some share ∧ secret_shares[b - 1]? = some share

/-- The private keys of any `t + 1` parties interpolate at `0` to the sum of the secrets of all, which is
the discrete logarithm of the public key that each of them returns. -/
def Interpolates (params : Parameters) (coins : Nat → Draw → L.Seed) (g : G)
    (net : Net Nat String String (KeygenNote F) String) : Prop :=
  ∀ (S : Finset Nat) (out : Nat → L.Output), S.card = params.threshold + 1 →
    (∀ b ∈ S, ∃ text, net.output b = some text ∧ Serde.fromStr text = some (out b)) →
    (Lagrange.interpolate S (fun b => (b : F)) fun b => L.x_i (out b).shared_keys).eval 0 =
        ∑ k ∈ Finset.Icc 1 params.share_count, secret coins k ∧
      ∀ b ∈ S, (out b).y_sum = (∑ k ∈ Finset.Icc 1 params.share_count, secret coins k : F) • g

theorem same_key (h : KeygenSession reserved (keygenParties params coins uuid) params.share_count uuid net)
    (laws : KeygenLaws L g) : SameKey coins uuid net := by
  intro a b pa pb v hne ha hb hmem
  obtain ⟨x, hx, -⟩ := h.started a pa ha
  obtain ⟨y, hy, -⟩ := h.started b pb hb
  obtain ⟨hwrote, hlog, -⟩ := h.kept hx ha
  obtain ⟨-, hlog', -⟩ := h.kept hy hb
  obtain ⟨-, rfl⟩ := parties_some hx
  obtain ⟨-, rfl⟩ := parties_some hy
  obtain ⟨-, hsends⟩ := Written.of_send (by decide) (hwrote _ hmem) rfl
  obtain ⟨_, _, share, key, aead_pack, -, -, hkey, henc, hv⟩ := hsends
  have hlen := KeygenLibrary.encKey_length (h.keyFor_eq hx hy hkey)
  refine ⟨key, aead_pack, _, hv, henc, hlen, fun key' hkey' => ?_, fun key' hkey' => ?_⟩
  · exact (hlog _ hkey').2.unique hkey
  · exact h.keyFor_symm laws hx hy hkey (hlog' _ hkey').2

theorem transposed (h : KeygenSession reserved (keygenParties params coins uuid) params.share_count uuid net)
    (laws : KeygenLaws L g) : Transposed net := by
  intro a b pa pb secret_shares party_shares ha hb hsecret hshares
  obtain ⟨x, hx, -⟩ := h.started a pa ha
  obtain ⟨y, hy, -⟩ := h.started b pb hb
  obtain ⟨vss_scheme, hdealt⟩ := (h.kept hx ha).2.1 _ hsecret
  obtain ⟨vss_scheme', secret_shares', share, hdealt', hshare, hentry⟩ :=
    h.partyShares_get laws hx hy ((h.kept hy hb).2.1 _ hshares)
  obtain ⟨-, rfl⟩ := hdealt.unique hdealt'
  obtain ⟨-, rfl⟩ := parties_some hx
  obtain ⟨-, rfl⟩ := parties_some hy
  exact ⟨share, hshare, hentry⟩

end Parties

/-- In every state of the parties `1..=n` of a session, under any interleaving: both ends of a message use
the same key, the shares collected are the transpose of the shares dealt, and the private keys are shares
of the discrete logarithm of the public key. -/
theorem shares_distributed (params : Parameters) (coins : Nat → Draw → L.Seed) (uuid : String) (g : G)
    (laws : KeygenLaws L g) (schedule : List Nat) (net : Net Nat String String (KeygenNote F) String)
    (hrun : Machine.exec Net.move (startKeygens params coins uuid) schedule = some net) :
    SameKey coins uuid net ∧ Transposed net ∧
      (SharingLaws L params → Interpolates params coins g net) := by
  have h : KeygenSession (fun _ => false) (keygenParties params coins uuid) params.share_count uuid net :=
    (keygenProtocol L).session_of_run params.share_count (partyInput params coins uuid) (fun _ => rfl)
      (fun _ => rfl) (fun _ => rfl) hrun
  refine ⟨h.same_key laws, h.transposed laws, fun sharing S out hcard hout => ?_⟩
  refine ⟨h.private_keys_interpolate laws sharing hcard hout, fun b hb => ?_⟩
  obtain ⟨text, htext, hread⟩ := hout b hb
  exact h.public_key laws htext hread

omit [Serde AEAD] in
theorem small_laws : KeygenLaws KeygenLibrary.small (1 : ZMod 3) := by
  refine ⟨fun seed seed' n => ?_, fun n => ?_, fun x => ?_, fun key nonce plaintext ciphertext h => ?_⟩
  · rw [smul_eq_mul, mul_one]
    rfl
  · exact List.length_replicate
  · exact ZMod.natCast_zmod_val x
  · obtain rfl := Option.some.inj h
    show (if key <+: key ++ plaintext then some ((key ++ plaintext).drop key.length) else none) = some plaintext
    rw [if_pos (List.prefix_append key plaintext), List.drop_left]

omit [Serde AEAD] in
theorem smallShares_line (n seed keys : Nat) :
    ∃ f, Sharing 1 (keys : ZMod 3) f ∧
      ∀ k < n, (smallShares ⟨1, n⟩ seed keys)[k]? = some (f.eval ((k + 1 : Nat) : ZMod 3)) := by
  obtain ⟨f, hsharing, hvalues⟩ := Sharing.line (seed : ZMod 3) (keys : ZMod 3)
  refine ⟨f, hsharing, fun k hk => ?_⟩
  rw [smallShares, List.getElem?_map, List.getElem?_range hk, hvalues, Option.map_some]
  rfl

omit [Serde AEAD] in
theorem small_sharing : SharingLaws KeygenLibrary.small ⟨1, 2⟩ := by
  constructor
  · intro seed keys decom_vec bc1_vec vss_scheme secret_shares index h
    obtain ⟨f, hsharing, hvalues⟩ := smallShares_line 2 seed keys
    have hshares : smallShares ⟨1, 2⟩ seed keys = secret_shares :=
      congrArg (fun d => d.2.1) (Option.some.inj h)
    rw [hshares] at hvalues
    exact ⟨f, hsharing, hvalues⟩
  · intro seed keys y_vec party_shares vss_scheme_vec n shared_keys dlog_proof h
    exact (congrArg Prod.fst (Option.some.inj h)).symm
  · intro i j hi hj heq
    rw [ZMod.natCast_eq_natCast_iff'] at heq
    dsimp only at hi hj
    omega

omit [Serde AEAD] in
/-- Two parties that move in turn both finish, with shares as stated. -/
theorem two_parties_distributed :
    letI := AEAD.plain
    ∃ net : Net Nat String String (KeygenNote (ZMod 3)) String,
      Machine.exec Net.move (startKeygens (L := KeygenLibrary.small) ⟨1, 2⟩ (fun p _ => p) "session")
        ((List.range 28).map fun i => i % 2 + 1) = some net ∧
      (net.output 1).isSome ∧ (net.output 2).isSome ∧
      SameKey (L := KeygenLibrary.small) (fun p _ => p) "session" net ∧ Transposed net ∧
      Interpolates (L := KeygenLibrary.small) ⟨1, 2⟩ (fun p _ => p) (1 : ZMod 3) net := by
  let _ := AEAD.plain
  have hrun : ((Machine.exec Net.move
      (startKeygens (L := KeygenLibrary.small) ⟨1, 2⟩ (fun p _ => p) "session")
      ((List.range 28).map fun i => i % 2 + 1)).map fun net =>
        ((net.output 1).isSome, (net.output 2).isSome)) = some (true, true) := by
    decide +kernel
  obtain ⟨net, hnet, hfinished⟩ := Option.map_eq_some_iff.mp hrun
  obtain ⟨hkey, htransposed, hinterpolates⟩ := shares_distributed _ _ _ 1 small_laws _ net hnet
  exact ⟨net, hnet, congrArg Prod.fst hfinished, congrArg Prod.snd hfinished, hkey, htransposed,
    hinterpolates small_sharing⟩

end KeygenSession

end Gg18
