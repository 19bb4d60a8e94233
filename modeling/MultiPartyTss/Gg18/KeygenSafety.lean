import MultiPartyTss.Gg18.KeygenSpec
import MultiPartyTss.Lib.Feldman
import MultiPartyTss.Lib.Tampering

/-!
# Key generation on a map that anybody may write

A party cannot know who has written what it reads, but it checks every share against the commitments of its
dealer, and the first commitments against the points that it adds up. So whatever is written on the map, a
key that a party returns belongs to the public key in it (`keys_survive_tampering`): if parties have returned
the same commitments, of at most `threshold + 1` entries each, then any `threshold + 1` of their private keys
interpolate to a discrete logarithm of the public key that they have returned. How many entries there are is
not checked.
-/

namespace Gg18

open Proc Network

variable {F G : Type} {L : KeygenLibrary F G} [Field F] [AddCommGroup G] [Module F G]

/-- What `phase2_verify_vss_construct_keypair_phase3_pok_dlog` checks. -/
structure VssLaws (L : KeygenLibrary F G) (commitments : L.VerifiableSS → List G) (g : G) : Prop where
  verify : ∀ seed keys params y_vec party_shares vss_scheme_vec index shared_keys dlog_proof,
    L.phase2VerifyVssConstructKeypairPhase3PokDlog seed keys params y_vec party_shares vss_scheme_vec index =
      some (shared_keys, dlog_proof) →
    L.x_i shared_keys = party_shares.sum ∧
      List.Forall₂ (fun share vss_scheme => share • g = commitmentAt (index : F) (commitments vss_scheme))
        party_shares vss_scheme_vec ∧
      List.Forall₂ (fun y vss_scheme => (commitments vss_scheme).head? = some y) y_vec vss_scheme_vec

section Safety

variable {commitments : L.VerifiableSS → List G} {g : G}

/-- The private key of the output is that of the party for the commitments in it, and the public key is that
of the commitments. -/
structure KeygenInput.Owns (a : KeygenInput L) (commitments : L.VerifiableSS → List G) (g : G) (out : L.Output) :
    Prop where
  party_keys : out.party_keys = a.keys
  party_id : out.party_id = a.number
  private_key : L.x_i out.shared_keys • g =
    ((out.vss_scheme_vec.map commitments).map (commitmentAt (a.number : F))).sum
  public_key : out.y_sum = ((out.vss_scheme_vec.map commitments).map fun cs => cs.headD 0).sum

theorem sum_smul_eq {shares : List F} {vss_scheme_vec : List L.VerifiableSS} {x : F}
    (h : List.Forall₂ (fun share vss_scheme => share • g = commitmentAt x (commitments vss_scheme))
      shares vss_scheme_vec) :
    shares.sum • g = ((vss_scheme_vec.map commitments).map (commitmentAt x)).sum := by
  induction h with
  | nil => simp
  | cons hshare _ ih => simp only [List.sum_cons, List.map_cons, add_smul, hshare, ih]

omit [Field F] [Module F G] in
theorem sum_points_eq {y_vec : List G} {vss_scheme_vec : List L.VerifiableSS}
    (h : List.Forall₂ (fun y vss_scheme => (commitments vss_scheme).head? = some y) y_vec vss_scheme_vec) :
    y_vec.sum = ((vss_scheme_vec.map commitments).map fun cs => cs.headD 0).sum := by
  induction h with
  | nil => rfl
  | cons hy _ ih =>
    rw [List.sum_cons, List.map_cons, List.map_cons, List.sum_cons, ih, List.headD_eq_head?_getD, hy,
      Option.getD_some]

variable [Serde AEAD]

theorem keygen_robust (laws : VssLaws L commitments g) (a : KeygenInput L) :
    a.process.Robust fun text => ∃ out, text = Serde.toStr out ∧ a.Owns commitments g out := by
  -- rounds 1 and 2
  refine .rest fun _ => .rest fun round1_ans_vec => .rest fun bc1_others => .rest fun bc1_vec => ?_
  refine .rest fun _ => .rest fun round2_ans_vec => .rest fun decommitted => .ofOptionBind fun y_sum hsum => ?_
  -- round 3
  refine .rest fun distributed => .rest fun _ => .rest fun _ => .rest fun round3_ans_vec => ?_
  refine .rest fun party_shares => .rest fun _ => ?_
  -- rounds 4 and 5
  refine .rest fun vss_scheme_vec => .ofOptionBind fun constructed hconstructed => ?_
  refine .rest fun dlog_proof_vec => .rest fun _ => .rest fun paillier_key_vec => .pure ⟨_, rfl, rfl, rfl, ?_, ?_⟩
  · obtain ⟨hx, hshares, -⟩ := laws.verify _ _ _ _ _ _ _ _ _ hconstructed
    exact (congrArg (· • g) hx).trans (sum_smul_eq hshares)
  · obtain ⟨-, -, hpoints⟩ := laws.verify _ _ _ _ _ _ _ _ _ hconstructed
    exact (sumPoints_eq_some hsum).trans (sum_points_eq hpoints)

/-- Parties of any key generations on one map, and anybody who sets and removes entries between their steps. A
party that has returned owns its key; and private keys of more than `t` parties that have returned the same
commitments, of at most `t + 1` entries each, interpolate to a discrete logarithm of their public key. -/
theorem keys_survive_tampering {P : Type} [DecidableEq P] (laws : VssLaws L commitments g)
    (input : P → Option (KeygenInput L)) (actions : List (OpenAction P String String))
    (net : Net P String String (KeygenNote F) String)
    (hrun : Machine.exec Net.openStep (Net.start fun p => (input p).map KeygenInput.process) actions = some net) :
    (∀ p a text, input p = some a → net.output p = some text →
        ∃ out, text = Serde.toStr out ∧ a.Owns commitments g out) ∧
      ∀ (t : Nat) (T : Finset P) (out : P → L.Output) (vss_scheme_vec : List L.VerifiableSS),
        (∀ p ∈ T, net.output p = some (Serde.toStr (out p)) ∧ (out p).vss_scheme_vec = vss_scheme_vec) →
        (∀ vss_scheme ∈ vss_scheme_vec, (commitments vss_scheme).length ≤ t + 1) → t < T.card →
        Set.InjOn (fun p => ((out p).party_id : F)) T → ∀ q ∈ T,
          (∑ p ∈ T, Sharing.coefficient T (fun p => ((out p).party_id : F)) p * L.x_i (out p).shared_keys) • g =
            (out q).y_sum := by
  have hunharmed := unharmed_of_run
    (fun p => (input p).elim [] fun a => exchangePlan a.number a.count a.uuid keygenRounds)
    (fun p text => ∃ a, input p = some a ∧ ∃ out, text = Serde.toStr out ∧ a.Owns commitments g out)
    (fun p x hx => by
      obtain ⟨a, ha, rfl⟩ := Option.map_eq_some_iff.mp hx
      rw [ha]
      exact ⟨keygen_follows L a, (keygen_robust laws a).mono fun text htext => ⟨a, rfl, htext⟩⟩) hrun
  have hreturned : ∀ p text, net.output p = some text →
      ∃ a, input p = some a ∧ ∃ out, text = Serde.toStr out ∧ a.Owns commitments g out := by
    intro p text htext
    obtain ⟨party, hp, hcur⟩ := output_eq_some.mp htext
    exact (hunharmed p party hp).returned hcur
  refine ⟨fun p a text ha htext => ?_, fun t T out vss_scheme_vec hout hlength hcard hinj q hq => ?_⟩
  · obtain ⟨b, hb, howns⟩ := hreturned p text htext
    obtain rfl := Option.some.inj (ha.symm.trans hb)
    exact howns
  · have howns : ∀ p ∈ T, ∃ a : KeygenInput L, a.Owns commitments g (out p) := by
      intro p hp
      obtain ⟨a, -, out', htext, howns⟩ := hreturned p _ (hout p hp).1
      rw [← Serde.toStr_injective htext] at howns
      exact ⟨a, howns⟩
    have hdealers : ∀ cs ∈ vss_scheme_vec.map commitments, cs.length ≤ t + 1 := by
      intro cs hcs
      obtain ⟨vss_scheme, hmem, rfl⟩ := List.mem_map.mp hcs
      exact hlength vss_scheme hmem
    obtain ⟨b, hb⟩ := howns q hq
    rw [hb.public_key, (hout q hq).2, ← Sharing.sum_weighted_dealers hinj hcard hdealers, Finset.sum_smul]
    refine Finset.sum_congr rfl fun p hp => ?_
    obtain ⟨a, ha⟩ := howns p hp
    rw [mul_smul, ha.private_key, (hout p hp).2, ha.party_id]

end Safety

/-! ### Two parties and somebody else -/

/-- The commitments to the line of `smallShares`. -/
def smallCommitments (params : Parameters) (seed keys : Nat) : List (ZMod 3) :=
  [keys, if params.threshold = 0 then 0 else seed]

/-- The checks of a sharing, over the integers modulo 3. -/
def Shared (y_vec party_shares : List (ZMod 3)) (vss_scheme_vec : List (List (ZMod 3))) (index : Nat) : Prop :=
  List.Forall₂ (fun share vss_scheme => share • (1 : ZMod 3) = commitmentAt (index : ZMod 3) vss_scheme) party_shares
      vss_scheme_vec ∧
    List.Forall₂ (fun y vss_scheme => vss_scheme.head? = some y) y_vec vss_scheme_vec

instance (y_vec party_shares : List (ZMod 3)) (vss_scheme_vec : List (List (ZMod 3))) (index : Nat) :
    Decidable (Shared y_vec party_shares vss_scheme_vec index) := inferInstanceAs (Decidable (_ ∧ _))

def constructKeypair (seed : Nat) (y_vec party_shares : List (ZMod 3)) (vss_scheme_vec : List (List (ZMod 3)))
    (index : Nat) : Option (ZMod 3 × Nat) :=
  if Shared y_vec party_shares vss_scheme_vec index then some (party_shares.sum, seed) else none

/-- The small library with commitments that are checked. -/
def KeygenLibrary.verified : KeygenLibrary (ZMod 3) (ZMod 3) :=
  { KeygenLibrary.small with
    VerifiableSS := List (ZMod 3)
    phase1VerifyComPhase3VerifyCorrectKeyPhase2Distribute := fun (seed keys : Nat) params _ _ =>
      some (smallCommitments params seed keys, smallShares params seed keys, 0)
    phase2VerifyVssConstructKeypairPhase3PokDlog := fun seed _ _ y_vec party_shares vss_scheme_vec index =>
      constructKeypair seed y_vec party_shares vss_scheme_vec index
    serdeVss := Serde.numeric (List (ZMod 3))
    serdeOutput := Serde.numeric (Nat × ZMod 3 × Nat × List (List (ZMod 3)) × List Nat × ZMod 3) }

/-- The commitments of a sharing, which it is made of. -/
def verifiedCommitments (vss_scheme : KeygenLibrary.verified.VerifiableSS) : List (ZMod 3) := vss_scheme

theorem KeygenLibrary.verified_laws : VssLaws KeygenLibrary.verified verifiedCommitments 1 := by
  refine ⟨fun seed keys params y_vec party_shares vss_scheme_vec index shared_keys dlog_proof h => ?_⟩
  change constructKeypair seed y_vec party_shares vss_scheme_vec index = some (shared_keys, dlog_proof) at h
  unfold constructKeypair at h
  split_ifs at h with hshared
  obtain ⟨hkeys, -⟩ := Prod.mk.inj (Option.some.inj h)
  exact ⟨hkeys.symm, hshared⟩

def verifiedParty (p : Nat) : Option (KeygenInput KeygenLibrary.verified) :=
  if p = 1 ∨ p = 2 then some ⟨⟨1, 2⟩, fun _ => (1 : Nat), ⟨p, "keygen"⟩⟩ else none

/-- Somebody sets the first entry of party 1 before it does, and removes it in the end. -/
def tamperedKeygen : Option (Net Nat String String (KeygenNote (ZMod 3)) String) :=
  letI := AEAD.plain
  Machine.exec Net.openStep (Net.start fun p => (verifiedParty p).map KeygenInput.process)
    (.tamper (broadcastKey 1 "round1" "keygen") (some "") :: (List.range 28).map (fun i => .move (i % 2 + 1)) ++
      [.tamper (broadcastKey 1 "round1" "keygen") none])

/-- The number of a party and the commitments in the text that it returned. -/
def returnedCommitments (net : Net Nat String String (KeygenNote (ZMod 3)) String) (p : Nat) :
    Option (Nat × List (List (ZMod 3))) :=
  ((net.output p).bind Serde.fromStr).map fun out : KeygenLibrary.verified.Output =>
    (out.party_id, out.vss_scheme_vec.map verifiedCommitments)

/-- The two private keys interpolate to the logarithm of the public key. -/
theorem tampered_keys_interpolate :
    letI := AEAD.plain
    ∃ (net : Net Nat String String (KeygenNote (ZMod 3)) String) (out : Nat → KeygenLibrary.verified.Output),
      tamperedKeygen = some net ∧ (∀ p ∈ Finset.Icc 1 2, net.output p = some (Serde.toStr (out p))) ∧
        (∑ p ∈ Finset.Icc 1 2, Sharing.coefficient (Finset.Icc 1 2) (fun p => ((out p).party_id : ZMod 3)) p *
          KeygenLibrary.verified.x_i (out p).shared_keys) • (1 : ZMod 3) = (out 1).y_sum := by
  have hrun : (tamperedKeygen.map fun net => (returnedCommitments net 1, returnedCommitments net 2)) =
      some (some (1, [[1, 1], [1, 1]]), some (2, [[1, 1], [1, 1]])) := by
    decide +kernel
  let _ := AEAD.plain
  obtain ⟨net, hnet, hreturned⟩ := Option.map_eq_some_iff.mp hrun
  obtain ⟨hreturned_1, hreturned_2⟩ := Prod.mk.inj hreturned
  obtain ⟨howns, hinterpolates⟩ := keys_survive_tampering KeygenLibrary.verified_laws verifiedParty _ net hnet
  have hparty : ∀ p ∈ Finset.Icc 1 2, ∃ out : KeygenLibrary.verified.Output,
      net.output p = some (Serde.toStr out) ∧ out.party_id = p ∧ out.vss_scheme_vec = [[1, 1], [1, 1]] := by
    intro p hp
    obtain ⟨hpos, hle⟩ := Finset.mem_Icc.mp hp
    have hp : p = 1 ∨ p = 2 := by omega
    have hone : returnedCommitments net p = some (p, [[1, 1], [1, 1]]) := by
      obtain rfl | rfl := hp
      · exact hreturned_1
      · exact hreturned_2
    obtain ⟨out, hread, heq⟩ := Option.map_eq_some_iff.mp hone
    obtain ⟨text, htext, hread⟩ := Option.bind_eq_some_iff.mp hread
    obtain ⟨hid, hvec⟩ := Prod.mk.inj heq
    obtain ⟨out', rfl, -⟩ := howns p _ text (if_pos hp) htext
    rw [Serde.round_trip, Option.some.injEq] at hread
    subst hread
    exact ⟨out', htext, hid, (List.map_id _).symm.trans hvec⟩
  have hsome : Nonempty KeygenLibrary.verified.Output := ⟨(hparty 1 (by decide)).choose⟩
  choose! out hout using hparty
  refine ⟨net, out, hnet, fun p hp => (hout p hp).1, ?_⟩
  refine hinterpolates 1 (Finset.Icc 1 2) out [[1, 1], [1, 1]] (fun p hp => ⟨(hout p hp).1, (hout p hp).2.2⟩)
    ?_ (by decide) ?_ 1 (by decide)
  · have hlength : ∀ vss_scheme ∈ ([[1, 1], [1, 1]] : List (List (ZMod 3))), vss_scheme.length ≤ 2 := by decide
    exact hlength
  · intro p hp q hq heq
    dsimp only at heq
    rw [(hout p hp).2.1, (hout q hq).2.1, ZMod.natCast_eq_natCast_iff'] at heq
    have hp := Finset.mem_Icc.mp hp
    have hq := Finset.mem_Icc.mp hq
    omega

end Gg18
