import MultiPartyTss.Gg18.KeygenSpec

/-!
# A key generation among several parties

The parties of a session of `keygen` in the middle of any run over one store. What each of them has read was
written by the party it is read for, so the vectors of all parties are the same list of contributions, the
value of party `k` at position `k - 1` (`KeygenSession.agreement`).
-/

namespace Gg18

open Proc Slots Network

variable {P F G : Type} {L : KeygenLibrary F G} [Serde AEAD] [Field F] [AddCommGroup G] [Module F G]

/-- What a party contributes to a key generation. -/
structure Contribution (L : KeygenLibrary F G) where
  commitment : L.KeyGenBroadcastMessage1
  decommitment : L.KeyGenDecommitMessage1
  vss_scheme : L.VerifiableSS

abbrev KeygenSession (reserved : String → Bool) (input : P → Option (KeygenInput L)) (n : Nat) (uuid : String)
    (net : Net P String String (KeygenNote F) String) : Prop :=
  Session (keygenProtocol L) reserved input n uuid net

namespace KeygenSession

variable {reserved : String → Bool} {input : P → Option (KeygenInput L)} {n : Nat} {uuid : String}
  {net : Net P String String (KeygenNote F) String}

theorem count (h : KeygenSession reserved input n uuid net) {p : P} {a : KeygenInput L}
    (ha : input p = some a) : a.count = n := h.count_eq p a ha

theorem session (h : KeygenSession reserved input n uuid net) {p : P} {a : KeygenInput L}
    (ha : input p = some a) : a.uuid = uuid := h.uuid_eq p a ha

theorem returns (h : KeygenSession reserved input n uuid net) {p : P} {a : KeygenInput L} {text : String}
    (ha : input p = some a) (htext : net.output p = some text) :
    a.Returns (visible reserved net.store) text := by
  obtain ⟨a', ha', hreturns⟩ := h.returned htext
  obtain rfl := Option.some.inj (ha.symm.trans ha')
  exact hreturns

/-! ### What the parties contribute -/

/-- The party with number `k` has broadcast this commitment, decommitment and sharing, and the first two
are its own. -/
def Contributes (input : P → Option (KeygenInput L)) (uuid : String)
    (net : Net P String String (KeygenNote F) String) (k : Nat) (c : Contribution L) : Prop :=
  ∃ p a party, input p = some a ∧ a.number = k ∧ net.party p = some party ∧
    c.commitment = a.commitment ∧ c.decommitment = a.decommitment ∧
    (broadcastKey k "round1" uuid, Serde.toStr c.commitment) ∈ party.wrote ∧
    (broadcastKey k "round2" uuid, Serde.toStr c.decommitment) ∈ party.wrote ∧
    (broadcastKey k "round4" uuid, Serde.toStr c.vss_scheme) ∈ party.wrote

/-- The sharing of party `k` is the one it dealt for the commitments and decommitments `cs`. -/
def DealsFor (input : P → Option (KeygenInput L)) (cs : List (Contribution L)) (k : Nat)
    (c : Contribution L) : Prop :=
  ∃ p a secret_shares index, input p = some a ∧ a.number = k ∧
    L.phase1VerifyComPhase3VerifyCorrectKeyPhase2Distribute (a.coins .distribute) a.keys a.params
      (cs.map Contribution.decommitment) (cs.map Contribution.commitment) =
        some (c.vss_scheme, secret_shares, index)

theorem contributes_stored (h : KeygenSession reserved input n uuid net) {k : Nat}
    {c : Contribution L} (hc : Contributes input uuid net k c) :
    Stored (visible reserved net.store) (broadcastKey k "round1" uuid) c.commitment ∧
      Stored (visible reserved net.store) (broadcastKey k "round2" uuid) c.decommitment ∧
      Stored (visible reserved net.store) (broadcastKey k "round4" uuid) c.vss_scheme := by
  obtain ⟨p, a, party, ha, rfl, hp, -, -, h1, h2, h4⟩ := hc
  exact ⟨stored_toStr (h.consistent.stored hp h1), stored_toStr (h.consistent.stored hp h2),
    stored_toStr (h.consistent.stored hp h4)⟩

/-- If the entries of number `k` are there, they are a contribution. -/
theorem contributes_of_stored (h : KeygenSession reserved input n uuid net) {k : Nat}
    {commitment : L.KeyGenBroadcastMessage1} {decommitment : L.KeyGenDecommitMessage1}
    {vss_scheme : L.VerifiableSS}
    (h1 : Stored (visible reserved net.store) (broadcastKey k "round1" uuid) commitment)
    (h2 : Stored (visible reserved net.store) (broadcastKey k "round2" uuid) decommitment)
    (h4 : Stored (visible reserved net.store) (broadcastKey k "round4" uuid) vss_scheme) :
    ∃ c, Contributes input uuid net k c := by
  obtain ⟨v1, hv1, -⟩ := h1
  obtain ⟨v2, hv2, -⟩ := h2
  obtain ⟨v4, hv4, -⟩ := h4
  obtain ⟨p, a, party, ha, rfl, hp, hmem1, hb1⟩ := h.broadcaster (by decide) hv1
  obtain ⟨p2, a2, party2, ha2, hnumber2, hp2, hmem2, hb2⟩ := h.broadcaster (by decide) hv2
  obtain ⟨p4, a4, party4, ha4, hnumber4, hp4, hmem4, hb4⟩ := h.broadcaster (by decide) hv4
  obtain ⟨rfl, rfl⟩ := h.same ha2 ha hnumber2
  obtain ⟨rfl, rfl⟩ := h.same ha4 ha2 hnumber4
  obtain rfl := Option.some.inj (hp.symm.trans hp2)
  obtain rfl := Option.some.inj (hp.symm.trans hp4)
  obtain ⟨vss, secret_shares, -, hvss⟩ := hb4.round4 rfl
  rw [hb1.round1 rfl] at hmem1
  rw [hb2.round2 rfl] at hmem2
  rw [hvss] at hmem4
  exact ⟨⟨a4.commitment, a4.decommitment, vss⟩, p4, a4, party, ha4, rfl, hp, rfl, rfl, hmem1, hmem2, hmem4⟩

section Contributions

variable {cs : List (Contribution L)}

theorem everyone_of_contributes (h : KeygenSession reserved input n uuid net)
    (hcs : List.Forall₂ (Contributes input uuid net) (List.range' 1 n) cs) :
    Everyone (visible reserved net.store) n "round1" uuid (cs.map Contribution.commitment) ∧
      Everyone (visible reserved net.store) n "round2" uuid
        (cs.map Contribution.decommitment) ∧
      Everyone (visible reserved net.store) n "round4" uuid
        (cs.map Contribution.vss_scheme) := by
  refine ⟨?_, ?_, ?_⟩ <;> refine List.forall₂_map_right_iff.mpr (hcs.imp fun k c hc => ?_)
  · exact (h.contributes_stored hc).1
  · exact (h.contributes_stored hc).2.1
  · exact (h.contributes_stored hc).2.2

theorem deals_of_contributes (h : KeygenSession reserved input n uuid net)
    (hcs : List.Forall₂ (Contributes input uuid net) (List.range' 1 n) cs) {k : Nat}
    {c : Contribution L} (hc : Contributes input uuid net k c) : DealsFor input cs k c := by
  obtain ⟨hcommit, hdecommit, -⟩ := h.everyone_of_contributes hcs
  obtain ⟨p, a, party, ha, rfl, hp, -, -, -, -, hmem⟩ := hc
  have hwritten := (h.kept ha hp).1 _ hmem
  obtain ⟨-, hbroadcasts⟩ := Written.of_broadcast (show RoundName "round4" by decide) hwritten
    (by rw [h.uuid_eq p a ha])
  obtain ⟨vss_scheme, secret_shares, hdealt, hvss⟩ := hbroadcasts.round4 rfl
  have hvss : c.vss_scheme = vss_scheme := Serde.toStr_injective hvss
  obtain ⟨decom_vec, bc1_vec, index, hdecom, hbc1, hdistribute⟩ := hdealt
  rw [h.count ha, h.session ha] at hdecom hbc1
  obtain rfl := hdecom.unique hdecommit
  obtain rfl := hbc1.unique hcommit
  rw [← hvss] at hdistribute
  exact ⟨p, a, secret_shares, index, ha, rfl, hdistribute⟩

end Contributions

/-- The output of a party that has finished, for these contributions. -/
def OutputOf (cs : List (Contribution L)) (a : KeygenInput L) (text : String) : Prop :=
  ∃ shared_keys, (Serde.fromStr text : Option L.Output) = some (a.keys, shared_keys, a.number,
    cs.map Contribution.vss_scheme, cs.map fun c => L.e c.commitment,
    (cs.map fun c => L.y_i c.decommitment).sum)

/-- There are contributions of all parties such that every party that has finished has put them in their
places. -/
def Agreed (input : P → Option (KeygenInput L)) (n : Nat) (uuid : String)
    (net : Net P String String (KeygenNote F) String) : Prop :=
  ∃ cs : List (Contribution L),
    (∀ k c, cs[k]? = some c → Contributes input uuid net (k + 1) c ∧ DealsFor input cs (k + 1) c) ∧
    ∀ p a text, input p = some a → net.output p = some text →
      cs.length = n ∧ OutputOf cs a text

theorem agreement (h : KeygenSession reserved input n uuid net) : Agreed input n uuid net := by
  by_cases hfinished : ∃ p a text, input p = some a ∧ net.output p = some text
  · obtain ⟨p, a, text, ha, htext⟩ := hfinished
    have hstored : ∀ k ∈ List.range' 1 n, ∃ c, Contributes input uuid net k c := by
      intro k hk
      rw [List.mem_range'_1] at hk
      obtain ⟨bc1_vec, decom_vec, vss_scheme_vec, -, -, -, hbc1, hdecom, hvss, -⟩ := h.returns ha htext
      rw [h.count ha, h.session ha] at hbc1 hdecom hvss
      obtain ⟨commitment, -, h1⟩ := hbc1.at hk.1 (by omega)
      obtain ⟨decommitment, -, h2⟩ := hdecom.at hk.1 (by omega)
      obtain ⟨vss_scheme, -, h4⟩ := hvss.at hk.1 (by omega)
      exact h.contributes_of_stored h1 h2 h4
    obtain ⟨cs, hcs⟩ := forall₂_choose hstored
    obtain ⟨hcommit, hdecommit, hvss⟩ := h.everyone_of_contributes hcs
    obtain ⟨hlen, hget⟩ := forall₂_range'_iff.mp hcs
    refine ⟨cs, fun k c hk => ?_, fun q b text' hb htext' => ⟨hlen, ?_⟩⟩
    · have hc := hget k c hk
      rw [Nat.add_comm] at hc
      exact ⟨hc, h.deals_of_contributes hcs hc⟩
    · obtain ⟨bc1_vec, decom_vec, vss_scheme_vec, -, shared_keys, -, hbc1, hdecom, hvss', -, -, rfl⟩ :=
        h.returns hb htext'
      rw [h.count hb, h.session hb] at hbc1 hdecom hvss'
      obtain rfl := hbc1.unique hcommit
      obtain rfl := hdecom.unique hdecommit
      obtain rfl := hvss'.unique hvss
      refine ⟨shared_keys, ?_⟩
      rw [Serde.round_trip, List.map_map, List.map_map]
      rfl
  · refine ⟨[], fun k c hk => ?_, fun p a text ha htext => ?_⟩
    · rw [List.getElem?_nil] at hk
      exact (Option.some_ne_none c hk.symm).elim
    · exact (hfinished ⟨p, a, text, ha, htext⟩).elim

omit [Serde AEAD] [Field F] [Module F G] in
/-- Two parties that have finished have the same sharings, Paillier keys and public key. -/
theorem Agreed.same_output (h : Agreed input n uuid net) {p q : P} {a b : KeygenInput L}
    {text text' : String} {out out' : L.Output} (ha : input p = some a) (hp : net.output p = some text)
    (hb : input q = some b) (hq : net.output q = some text') (hout : Serde.fromStr text = some out)
    (hout' : Serde.fromStr text' = some out') : out.2.2.2 = out'.2.2.2 := by
  obtain ⟨cs, -, hcs⟩ := h
  obtain ⟨-, shared_keys, hread⟩ := hcs p a text ha hp
  obtain ⟨-, shared_keys', hread'⟩ := hcs q b text' hb hq
  obtain rfl := Option.some.inj (hout.symm.trans hread)
  obtain rfl := Option.some.inj (hout'.symm.trans hread')
  rfl

end KeygenSession

end Gg18
