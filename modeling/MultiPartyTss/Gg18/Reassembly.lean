import MultiPartyTss.Gg18.Sign

/-!
# Reassembly of round messages

Party `p` of `n` gets the messages of the others, in order and with its own left out (`pollLoop_eval`). The
code puts the own message back in five ways: three functions of the signing with bounds of their own, an
insertion at `p - 1`, and loops over all parties with a counter into the answers. Each is the list of all
messages, whatever the length, and the removal of entry `p - 1` takes it back (`messages_reassembled`).
-/

namespace Gg18

open Proc Slots

/-- `m_1, …, m_n`. -/
def everyone {β : Type} (n : Nat) (m : Nat → β) : List β := (List.range' 1 n).map m

/-- The same with `m_p` left out. -/
def allBut {β : Type} (p n : Nat) (m : Nat → β) : List β := (everyone n m).eraseIdx (p - 1)

theorem allBut_eq {β : Type} (m : Nat → β) {p n : Nat} (hp : 1 ≤ p) (hn : p ≤ n) :
    allBut p n m = (others p (List.range' 1 n)).map m := (map_others m hp hn).symm

/-- The messages of the others as a poll returns them. -/
def texts {β : Type} [Serde β] (p n : Nat) (m : Nat → β) : List String := allBut p n fun i => Serde.toStr (m i)

theorem drop_texts {β : Type} [Serde β] (m : Nat → β) {p n : Nat} (hp : 1 ≤ p) (hn : p ≤ n) :
    (texts p n m).drop 0 = (others p (List.range' 1 n)).map fun i => Serde.toStr (m i) := allBut_eq _ hp hn

/-! ### Polls -/

section Polls

variable {ω : Type} {store : String → Option String}

theorem pollLoop_eval {key : Nat → String} {text : Nat → String} {p : Nat} {is : List Nat}
    (hstore : ∀ i ∈ others p is, store (key i) = some (text i)) :
    (pollLoop key p is : PartyProc ω (List String)).eval store = some ((others p is).map text) := by
  induction is with
  | nil => rfl
  | cons i is ih =>
    by_cases hip : i = p
    · subst hip
      rw [pollLoop, if_pos rfl, others_self]
      rw [others_self] at hstore
      exact ih hstore
    · rw [pollLoop, if_neg hip, others_of_ne is hip]
      rw [others_of_ne is hip] at hstore
      simp only [eval_bind, eval_read, eval_pure, hstore i List.mem_cons_self, Option.bind_some,
        ih fun i hi => hstore i (List.mem_cons_of_mem _ hi), List.map_cons]

end Polls

/-! ### Loops with a counter -/

theorem formatVecFromReads_eq {β : Type} [Serde β] (m : Nat → β) {p n : Nat} (hp : 1 ≤ p) (hn : p ≤ n) :
    formatVecFromReads ((others p (List.range' 1 n)).map fun i => Serde.toStr (m i)) p (m p) =
      some (everyone n m) := by
  have hlen := length_others hp hn
  rw [formatVecFromReads, List.length_map, show (others p (List.range' 1 n)).length + 1 = n by omega]
  exact weave_eq (fun i _ => Serde.round_trip (m i)) rfl

section Signers

variable {build : U16.Build} {p : Nat} {is ids : List Nat}

theorem formatSignersLoop_eq [Serde Nat] {m : Nat → Nat} {ans : List String} {j : Nat}
    (hans : ans.drop j = (others p is).map fun i => Serde.toStr (m i)) :
    formatSignersLoop build p (m p) ans is j = is.mapM fun i => U16.subOne build (m i) := by
  induction is generalizing j with
  | nil => rfl
  | cons i is ih =>
    rw [List.mapM_cons]
    by_cases hip : i = p
    · subst hip
      rw [others_self] at hans
      rw [formatSignersLoop, if_pos rfl, ih hans]
      rfl
    · rw [others_of_ne is hip, List.map_cons] at hans
      obtain ⟨hget, hrest⟩ := drop_eq_cons hans
      rw [formatSignersLoop, if_neg hip, hget, Option.bind_some, Serde.round_trip, ih hrest]
      rfl

theorem formatSignersLoop_length [Serde Nat] {build : U16.Build} {p party_id : Nat} {ans : List String} {is : List Nat}
    {j : Nat} {signers_vec : List Nat} (h : formatSignersLoop build p party_id ans is j = some signers_vec) :
    signers_vec.length = is.length := by
  induction is generalizing j signers_vec with
  | nil =>
    obtain rfl := Option.some.inj h
    rfl
  | cons i is ih =>
    by_cases hip : i = p
    · rw [formatSignersLoop, if_pos hip] at h
      obtain ⟨own, -, h⟩ := Option.bind_eq_some_iff.mp h
      obtain ⟨rest, hrest, h⟩ := Option.bind_eq_some_iff.mp h
      obtain rfl := Option.some.inj h
      rw [List.length_cons, List.length_cons, ih hrest]
    · rw [formatSignersLoop, if_neg hip] at h
      obtain ⟨signer_j, -, h⟩ := Option.bind_eq_some_iff.mp h
      obtain ⟨index, -, h⟩ := Option.bind_eq_some_iff.mp h
      obtain ⟨rest, hrest, h⟩ := Option.bind_eq_some_iff.mp h
      obtain rfl := Option.some.inj h
      rw [List.length_cons, List.length_cons, ih hrest]

theorem formatSigners_length [Serde Nat] {build : U16.Build} {p party_id threshold : Nat} {ans : List String}
    {signers_vec : List Nat} (ht : threshold + 1 < U16.size)
    (h : formatSigners build p party_id ans threshold = some signers_vec) :
    signers_vec.length = threshold + 1 := by
  rw [formatSigners, U16.addOne_of_lt ht] at h
  rw [formatSignersLoop_length h, List.length_range']

/-- Party numbers are positive, so none of the subtractions fails. -/
theorem mapM_subOne {m : Nat → Nat} (hpos : ∀ i ∈ is, 1 ≤ m i) :
    (is.mapM fun i => U16.subOne build (m i)) = some (is.map fun i => m i - 1) :=
  mapM_eq fun i hi => U16.subOne_of_pos (hpos i hi)

end Signers

section Loops

variable {F G : Type} {L : KeygenLibrary F G} {S : SignLibrary L} {p : Nat} {is : List Nat}

theorem formatBroadcastPhase1AndMessageALoop_eq {m : Nat → S.SignBroadcastPhase1 × S.MessageA}
    {ans : List String} {j : Nat} (hans : ans.drop j = (others p is).map fun i => Serde.toStr (m i)) :
    formatBroadcastPhase1AndMessageALoop S p (m p).1 ans is j =
      some (is.map fun i => (m i).1, (others p is).map fun i => (m i).2) := by
  induction is generalizing j with
  | nil => rfl
  | cons i is ih =>
    by_cases hip : i = p
    · subst hip
      rw [others_self] at hans ⊢
      rw [formatBroadcastPhase1AndMessageALoop, if_pos rfl, ih hans]
      rfl
    · rw [others_of_ne is hip, List.map_cons] at hans
      obtain ⟨hget, hrest⟩ := drop_eq_cons hans
      rw [formatBroadcastPhase1AndMessageALoop, if_neg hip, hget, Option.bind_some, Serde.round_trip, ih hrest,
        others_of_ne is hip]
      rfl

/-- It fails only if a key does. -/
theorem decommitLoop_eq [SMul F G] {m : Nat → L.KeyGenDecommitMessage1} {u_i : F} {ans : List String}
    {j : Nat} (hans : ans.drop j = (others p is).map fun i => Serde.toStr (m i)) :
    decommitLoop L p (m p) u_i ans is j =
      ((others p is).mapM fun i => L.encKey u_i (L.y_i (m i))).map fun enc_keys =>
        ⟨is.map fun i => L.y_i (m i), is.map m, enc_keys⟩ := by
  induction is generalizing j with
  | nil => rfl
  | cons i is ih =>
    by_cases hip : i = p
    · subst hip
      rw [others_self] at hans ⊢
      rw [decommitLoop, if_pos rfl, ih hans]
      cases (others i is).mapM fun i => L.encKey u_i (L.y_i (m i)) <;> rfl
    · rw [others_of_ne is hip, List.map_cons] at hans
      obtain ⟨hget, hrest⟩ := drop_eq_cons hans
      rw [decommitLoop, if_neg hip, hget, Option.bind_some, Serde.round_trip, ih hrest, others_of_ne is hip,
        List.mapM_cons]
      simp only [Option.bind_eq_bind, Option.bind_some]
      cases L.encKey u_i (L.y_i (m i)) with
      | none => rfl
      | some key => cases (others p is).mapM fun i => L.encKey u_i (L.y_i (m i)) <;> simp

/-- The share that it takes from an encrypted one. -/
def openShare (L : KeygenLibrary F G) (key : List UInt8) (aead_pack : AEAD) : Option F :=
  (L.aesDecrypt key aead_pack).map fun out => L.ofBigint (L.fromBytes out)

/-- It fails only if a decryption does. -/
theorem readShares_eq [Serde AEAD] {m : Nat → AEAD} {key : Nat → List UInt8} {secret_shares : List F} {own : F}
    {enc_keys : List (List UInt8)} {ans : List String} {j : Nat} {store : String → Option String}
    (hown : secret_shares[p - 1]? = some own)
    (hans : ans.drop j = (others p is).map fun i => Serde.toStr (m i))
    (hkeys : enc_keys.drop j = (others p is).map key) :
    (readShares L p enc_keys secret_shares ans is j).eval store =
      is.mapM fun i => if i = p then some own else openShare L (key i) (m i) := by
  induction is generalizing j with
  | nil => rfl
  | cons i is ih =>
    rw [List.mapM_cons]
    by_cases hip : i = p
    · subst hip
      rw [others_self] at hans hkeys
      rw [readShares, if_pos rfl]
      simp only [eval_bind, eval_ofOption, eval_pure, hown, ih hans hkeys, if_true]
      rfl
    · rw [others_of_ne is hip, List.map_cons] at hans hkeys
      obtain ⟨hget, hrest⟩ := drop_eq_cons hans
      obtain ⟨hkey, hkeys⟩ := drop_eq_cons hkeys
      rw [readShares, if_neg hip]
      simp only [eval_bind, eval_ofOption, eval_record, eval_pure, hget, hkey, Option.bind_some,
        Serde.round_trip, ih hrest hkeys, if_neg hip, openShare]
      cases L.aesDecrypt (key i) (m i) <;> rfl

end Loops

/-! ### All of them -/

section Main

variable {F G : Type} [SMul F G] {L : KeygenLibrary F G} (S : SignLibrary L) [Serde Nat] [Serde AEAD]

/-- What the code makes of the messages `m` of `n` parties at party `p`. -/
structure Reassembly (build : U16.Build) (n p : Nat) : Prop where
  entry : ∀ {β : Type} (m : Nat → β), (everyone n m).length = n ∧
    ∀ k, 1 ≤ k → k ≤ n → (everyone n m)[k - 1]? = some (m k)
  poll_for_broadcasts : ∀ {ω : Type} (round uuid : String) (store : String → Option String) (m : Nat → String),
    (∀ i, 1 ≤ i → i ≤ n → i ≠ p → store (broadcastKey i round uuid) = some (m i)) →
    (pollForBroadcasts p n round uuid : PartyProc ω (List String)).eval store = some (allBut p n m)
  poll_for_p2p : ∀ {ω : Type} (round uuid : String) (store : String → Option String) (m : Nat → String),
    (∀ i, 1 ≤ i → i ≤ n → i ≠ p → store (p2pKey i p round uuid) = some (m i)) →
    (pollForP2p p n round uuid : PartyProc ω (List String)).eval store = some (allBut p n m)
  format_vec_from_reads : ∀ {β : Type} [Serde β] (m : Nat → β),
    formatVecFromReads (texts p n m) p (m p) = some (everyone n m)
  format_signers : ∀ m : Nat → Nat,
    formatSigners build p (m p) (texts p n m) (n - 1) = (List.range' 1 n).mapM (fun i => U16.subOne build (m i)) ∧
      ((∀ i, 1 ≤ i → i ≤ n → 1 ≤ m i) →
        formatSigners build p (m p) (texts p n m) (n - 1) = some (everyone n fun i => m i - 1))
  format_broadcast_phase1_and_message_a_vec : ∀ m : Nat → S.SignBroadcastPhase1 × S.MessageA,
    formatBroadcastPhase1AndMessageAVec S build (n - 1) p (m p).1 (texts p n m) =
      some (everyone n fun i => (m i).1, allBut p n fun i => (m i).2)
  insert : ∀ {β : Type} [Serde β] (m : Nat → β),
    ((texts p n m).mapM Serde.fromStr).bind (fun bc1_vec => insertAt bc1_vec (p - 1) (m p)) =
      some (everyone n m)
  /-- The loops after rounds 4 and 5. -/
  loop : ∀ {β : Type} [Serde β] (m : Nat → β),
    weave (m p) Serde.fromStr p (texts p n m) (List.range' 1 n) 0 = some (everyone n m)
  /-- The loop after round 2, which may fail over a key. -/
  loop_round2 : ∀ (m : Nat → L.KeyGenDecommitMessage1) (u_i : F),
    decommitLoop L p (m p) u_i (texts p n m) (List.range' 1 n) 0 =
      ((others p (List.range' 1 n)).mapM fun i => L.encKey u_i (L.y_i (m i))).map fun enc_keys =>
        ⟨everyone n fun i => L.y_i (m i), everyone n m, enc_keys⟩
  /-- The loop after round 3, which may fail over a decryption. -/
  loop_round3 : ∀ (m : Nat → AEAD) (key : Nat → List UInt8) (secret_shares : List F) (own : F)
    (store : String → Option String), secret_shares[p - 1]? = some own →
    (readShares L p (allBut p n key) secret_shares (texts p n m) (List.range' 1 n) 0).eval store =
      (List.range' 1 n).mapM fun i => if i = p then some own else openShare L (key i) (m i)
  remove : ∀ {β : Type} (m : Nat → β), removeAt (everyone n m) (p - 1) = some (m p, allBut p n m)

theorem messages_reassembled (build : U16.Build) (n p : Nat) (hp : 1 ≤ p) (hn : p ≤ n) (hsize : n + 1 < U16.size) :
    Reassembly S build n p := by
  have hcount : U16.addOne build (n - 1) = some n := by
    rw [U16.addOne_of_lt (by omega), Nat.sub_add_cancel (by omega)]
  have hothers : ∀ {i : Nat}, i ∈ others p (List.range' 1 n) → 1 ≤ i ∧ i ≤ n ∧ i ≠ p := by
    intro i hi
    rw [mem_others, List.mem_range'_1] at hi
    omega
  refine ⟨fun m => ⟨?_, fun k hk hkn => getElem?_map_range' m hk hkn⟩, fun round uuid store m hstore => ?_,
    fun round uuid store m hstore => ?_, fun m => ?_, fun m => ?_, fun m => ?_, fun m => ?_, fun m => ?_,
    fun m u_i => ?_, fun m key secret_shares own store hown => ?_, fun m => ?_⟩
  · rw [everyone, List.length_map, List.length_range']
  · rw [allBut_eq m hp hn]
    exact pollLoop_eval fun i hi => hstore i (hothers hi).1 (hothers hi).2.1 (hothers hi).2.2
  · rw [allBut_eq m hp hn]
    exact pollLoop_eval fun i hi => hstore i (hothers hi).1 (hothers hi).2.1 (hothers hi).2.2
  · rw [texts, allBut_eq _ hp hn]
    exact formatVecFromReads_eq m hp hn
  · have hloop : formatSigners build p (m p) (texts p n m) (n - 1) =
        (List.range' 1 n).mapM fun i => U16.subOne build (m i) := by
      rw [formatSigners, hcount]
      exact formatSignersLoop_eq (drop_texts m hp hn)
    refine ⟨hloop, fun hpos => hloop.trans (mapM_subOne fun i hi => ?_)⟩
    rw [List.mem_range'_1] at hi
    exact hpos i hi.1 (by omega)
  · rw [formatBroadcastPhase1AndMessageAVec, hcount, allBut_eq _ hp hn]
    exact formatBroadcastPhase1AndMessageALoop_eq (drop_texts m hp hn)
  · rw [texts, allBut_eq _ hp hn, mapM_map_eq fun i _ => Serde.round_trip (m i)]
    exact insertAt_map m hp hn
  · exact weave_eq (fun i _ => Serde.round_trip (m i)) (drop_texts m hp hn)
  · exact decommitLoop_eq (drop_texts m hp hn)
  · exact readShares_eq hown (drop_texts m hp hn) (allBut_eq key hp hn)
  · rw [allBut_eq m hp hn]
    exact removeAt_map m hp hn

end Main

/-- The second of three parties. -/
theorem second_of_three_reassembles :
    letI := Serde.numeric Nat
    formatVecFromReads (texts 2 3 fun i => 10 * i) 2 20 = some [10, 20, 30] ∧
      removeAt [10, 20, 30] 1 = some (20, [10, 30]) := by
  let _ := Serde.numeric Nat
  let _ := AEAD.plain
  have h := messages_reassembled SignLibrary.small .debug 3 2 (by decide) (by decide) (by decide)
  exact ⟨h.format_vec_from_reads fun i => 10 * i, h.remove fun i => 10 * i⟩

end Gg18
