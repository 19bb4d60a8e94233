import Mathlib.Algebra.Field.ZMod
import Mathlib.Algebra.Module.Defs
import MultiPartyTss.Gg18.Common

/-!
# Key generation of one GG18 party

`keygen` after its signup, as a process over the map: five rounds of broadcasts, with the encrypted secret
shares sent from party to party in between. The cryptography is that of a library, which is a parameter:
scalars are a field `F`, points a module `G` over it, and the library has its own types for keys,
commitments, sharings and proofs. A random operation takes a seed; `Draw` names the places where the code
draws, and the coins of a party give a seed for each.
-/

namespace Gg18

open Proc Slots

structure Parameters where
  threshold : Nat
  share_count : Nat
  deriving DecidableEq, Repr

/-- An AES-GCM ciphertext with its nonce. -/
structure AEAD where
  ciphertext : List UInt8
  tag : List UInt8
  deriving DecidableEq, Repr

namespace AEAD

def byteChar (b : UInt8) : Char := Char.ofNat b.toNat

theorem toNat_byteChar (b : UInt8) : (byteChar b).toNat = b.toNat := by
  have hb := b.toNat_lt
  have hvalid : b.toNat.isValidChar := Or.inl (by omega)
  rw [byteChar, Char.ofNat, dif_pos hvalid]
  rfl

theorem bytes_byteChar (bs : List UInt8) : bs.map ((fun c => UInt8.ofNat c.toNat) ∘ byteChar) = bs := by
  refine (List.map_congr_left fun b _ => ?_).trans (List.map_id bs)
  rw [Function.comp_apply, toNat_byteChar, UInt8.ofNat_toNat, id]

/-- The two parts with a character between them that is no byte, for runs on given inputs. -/
@[reducible] def plain : Serde AEAD where
  toStr a := String.ofList (a.ciphertext.map byteChar ++ Char.ofNat 256 :: a.tag.map byteChar)
  fromStr text :=
    let front := text.toList.takeWhile fun c => c != Char.ofNat 256
    some ⟨front.map fun c => UInt8.ofNat c.toNat,
      (text.toList.drop (front.length + 1)).map fun c => UInt8.ofNat c.toNat⟩
  round_trip a := by
    have hsep : ∀ c ∈ a.ciphertext.map byteChar, (c != Char.ofNat 256) = true := by
      intro c hc
      obtain ⟨b, -, rfl⟩ := List.mem_map.mp hc
      rw [bne_iff_ne]
      intro heq
      have hnat := congrArg Char.toNat heq
      rw [toNat_byteChar] at hnat
      have hb := b.toNat_lt
      rw [hnat] at hb
      revert hb
      decide
    rw [String.toList_ofList, List.takeWhile_append_of_pos hsep]
    simp [bytes_byteChar]

end AEAD

/-- What `keygen` uses of the crates it is built on. -/
structure KeygenLibrary (F G : Type) where
  Seed : Type
  EncryptionKey : Type
  Keys : Type
  KeyGenBroadcastMessage1 : Type
  KeyGenDecommitMessage1 : Type
  VerifiableSS : Type
  SharedKeys : Type
  DLogProof : Type
  u_i : Keys → F
  ek : Keys → EncryptionKey
  e : KeyGenBroadcastMessage1 → EncryptionKey
  y_i : KeyGenDecommitMessage1 → G
  x_i : SharedKeys → F
  create : Seed → Nat → Keys
  phase1BroadcastPhase3ProofOfCorrectKey :
    Seed → Keys → KeyGenBroadcastMessage1 × KeyGenDecommitMessage1
  phase1VerifyComPhase3VerifyCorrectKeyPhase2Distribute : Seed → Keys → Parameters →
    List KeyGenDecommitMessage1 → List KeyGenBroadcastMessage1 → Option (VerifiableSS × List F × Nat)
  phase2VerifyVssConstructKeypairPhase3PokDlog : Seed → Keys → Parameters → List G → List F →
    List VerifiableSS → Nat → Option (SharedKeys × DLogProof)
  verifyDlogProofs : Parameters → List DLogProof → List G → Option Unit
  xCoord : G → Option Nat
  toBytes : Nat → List UInt8
  fromBytes : List UInt8 → Nat
  toBigint : F → Nat
  ofBigint : Nat → F
  fillBytes : Seed → List UInt8
  gcmEncrypt : List UInt8 → List UInt8 → List UInt8 → Option (List UInt8)
  gcmDecrypt : List UInt8 → List UInt8 → List UInt8 → Option (List UInt8)
  serdeBroadcast : Serde KeyGenBroadcastMessage1
  serdeDecommit : Serde KeyGenDecommitMessage1
  serdeVss : Serde VerifiableSS
  serdeProof : Serde DLogProof
  serdeOutput : Serde (Keys × SharedKeys × Nat × List VerifiableSS × List EncryptionKey × G)

namespace KeygenLibrary

attribute [instance] serdeBroadcast serdeDecommit serdeVss serdeProof serdeOutput

variable {F G : Type} (L : KeygenLibrary F G)

/-- What `keygen` returns, before it is written as JSON. -/
abbrev Output : Type :=
  L.Keys × L.SharedKeys × Nat × List L.VerifiableSS × List L.EncryptionKey × G

namespace Output

variable {L : KeygenLibrary F G} (out : L.Output)

def party_keys : L.Keys := out.1

def shared_keys : L.SharedKeys := out.2.1

def party_id : Nat := out.2.2.1

def vss_scheme_vec : List L.VerifiableSS := out.2.2.2.1

def paillier_key_vec : List L.EncryptionKey := out.2.2.2.2.1

def y_sum : G := out.2.2.2.2.2

end Output

/-- The bytes of an AES-256 key. -/
def aesKeyBytesLen : Nat := 32

/-- `aes_encrypt`; the library panics on a key that does not have 32 bytes. -/
def aesEncrypt (seed : L.Seed) (key plaintext : List UInt8) : Option AEAD :=
  if key.length = aesKeyBytesLen then
    (L.gcmEncrypt key (L.fillBytes seed) plaintext).map fun ciphertext =>
      { ciphertext := ciphertext, tag := L.fillBytes seed }
  else none

/-- `aes_decrypt`; a nonce has 12 bytes. -/
def aesDecrypt (key : List UInt8) (aead_pack : AEAD) : Option (List UInt8) :=
  if key.length = aesKeyBytesLen ∧ aead_pack.tag.length = 12 then
    L.gcmDecrypt key aead_pack.tag aead_pack.ciphertext
  else none

variable [SMul F G]

/-- The padded x-coordinate of the common point of two parties. The subtraction in the length of the
padding panics if the coordinate has more than 32 bytes. -/
def encKey (u_i : F) (y_j : G) : Option (List UInt8) := do
  let key_bn ← L.xCoord (u_i • y_j)
  let key_bytes := L.toBytes key_bn
  if key_bytes.length ≤ aesKeyBytesLen then
    some (List.replicate (aesKeyBytesLen - key_bytes.length) 0 ++ key_bytes)
  else none

variable {L}

theorem encKey_length {u_i : F} {y_j : G} {key : List UInt8} (h : L.encKey u_i y_j = some key) :
    key.length = aesKeyBytesLen := by
  obtain ⟨key_bn, -, h⟩ := Option.bind_eq_some_iff.mp h
  dsimp only at h
  split_ifs at h with hle
  obtain rfl := Option.some.inj h
  rw [List.length_append, List.length_replicate]
  omega

omit [SMul F G] in
/-- A ciphertext decrypts to its plaintext, if it decrypts at all. -/
theorem aesDecrypt_aesEncrypt {seed : L.Seed} {key plaintext out : List UInt8} {aead_pack : AEAD}
    (hgcm : ∀ key nonce plaintext ciphertext, L.gcmEncrypt key nonce plaintext = some ciphertext →
      L.gcmDecrypt key nonce ciphertext = some plaintext)
    (henc : L.aesEncrypt seed key plaintext = some aead_pack) (hdec : L.aesDecrypt key aead_pack = some out) :
    out = plaintext := by
  unfold aesEncrypt at henc
  split_ifs at henc
  obtain ⟨ciphertext, hct, rfl⟩ := Option.map_eq_some_iff.mp henc
  unfold aesDecrypt at hdec
  split_ifs at hdec
  rw [hgcm _ _ _ _ hct] at hdec
  exact (Option.some.inj hdec).symm

end KeygenLibrary

/-- The places where a party of `keygen` draws at random. -/
inductive Draw where
  | create
  | broadcast
  | distribute
  | nonce (i : Nat)
  | proof
  deriving DecidableEq, Repr

/-- Local values of `keygen` that are stated about. -/
inductive KeygenNote (F : Type) where
  | secretShares (secret_shares : List F)
  /-- The key that the share for party `i` is encrypted under. -/
  | encrypt (i : Nat) (key : List UInt8)
  /-- The key that the share of party `i` is decrypted with. -/
  | decrypt (i : Nat) (key : List UInt8)
  | partyShares (party_shares : List F)

section Keygen

variable {F G : Type} (L : KeygenLibrary F G)

/-- What the loop after round 2 collects. -/
structure Decommitted where
  point_vec : List G
  decom_vec : List L.KeyGenDecommitMessage1
  enc_keys : List (List UInt8)

/-- The loop after round 2. -/
def decommitLoop [SMul F G] (party_num_int : Nat) (decom_i : L.KeyGenDecommitMessage1) (u_i : F)
    (round2_ans_vec : List String) : List Nat → Nat → Option (Decommitted L)
  | [], _ => some ⟨[], [], []⟩
  | i :: is, j =>
    if i = party_num_int then do
      let rest ← decommitLoop party_num_int decom_i u_i round2_ans_vec is j
      some ⟨L.y_i decom_i :: rest.point_vec, decom_i :: rest.decom_vec, rest.enc_keys⟩
    else do
      let decom_j ← round2_ans_vec[j]?.bind Serde.fromStr
      let key ← L.encKey u_i (L.y_i decom_j)
      let rest ← decommitLoop party_num_int decom_i u_i round2_ans_vec is (j + 1)
      some ⟨L.y_i decom_j :: rest.point_vec, decom_j :: rest.decom_vec, key :: rest.enc_keys⟩

/-- The fold over the points; splitting off the head panics if there is none. -/
def sumPoints [Add G] : List G → Option G
  | [] => none
  | head :: tail => some (tail.foldl (fun acc x => acc + x) head)

variable [Serde AEAD]

/-- The loop that sends the encrypted shares: `k` counts all parties, `j` the others. -/
def sendShares (party_num_int : Nat) (uuid : String) (coins : Draw → L.Seed)
    (enc_keys : List (List UInt8)) (secret_shares : List F) :
    List Nat → Nat → Nat → PartyProc (KeygenNote F) Unit
  | [], _, _ => pure ()
  | i :: is, k, j =>
    if i = party_num_int then sendShares party_num_int uuid coins enc_keys secret_shares is (k + 1) j
    else do
      let key_i ← ofOption enc_keys[j]?
      let share ← ofOption secret_shares[k]?
      record (.encrypt i key_i)
      let aead_pack_i ← ofOption
        (L.aesEncrypt (coins (.nonce i)) key_i (L.toBytes (L.toBigint share)))
      sendP2p party_num_int i "round3" (Serde.toStr aead_pack_i) uuid
      sendShares party_num_int uuid coins enc_keys secret_shares is (k + 1) (j + 1)

/-- The loop that decrypts the shares of the others. -/
def readShares (party_num_int : Nat) (enc_keys : List (List UInt8)) (secret_shares : List F)
    (round3_ans_vec : List String) : List Nat → Nat → PartyProc (KeygenNote F) (List F)
  | [], _ => pure []
  | i :: is, j =>
    if i = party_num_int then do
      let own ← ofOption secret_shares[i - 1]?
      let rest ← readShares party_num_int enc_keys secret_shares round3_ans_vec is j
      pure (own :: rest)
    else do
      let aead_pack : AEAD ← ofOption (round3_ans_vec[j]?.bind Serde.fromStr)
      let key_i ← ofOption enc_keys[j]?
      record (.decrypt i key_i)
      let out ← ofOption (L.aesDecrypt key_i aead_pack)
      let rest ← readShares party_num_int enc_keys secret_shares round3_ans_vec is (j + 1)
      pure (L.ofBigint (L.fromBytes out) :: rest)

/-- `keygen` after `get_party_signup`. -/
def keygen [Field F] [AddCommGroup G] [Module F G] (params : Parameters) (coins : Draw → L.Seed)
    (party_signup : PartySignup) : PartyProc (KeygenNote F) String := do
  let parties := params.share_count
  let party_num_int := party_signup.number
  let uuid := party_signup.uuid
  let party_keys := L.create (coins .create) party_num_int
  let bc_i := (L.phase1BroadcastPhase3ProofOfCorrectKey (coins .broadcast) party_keys).1
  let decom_i := (L.phase1BroadcastPhase3ProofOfCorrectKey (coins .broadcast) party_keys).2
  -- send commitment to ephemeral public keys, get round 1 commitments of other parties
  broadcast party_num_int "round1" (Serde.toStr bc_i) uuid
  let round1_ans_vec ← pollForBroadcasts party_num_int parties "round1" uuid
  let bc1_others ← ofOption (round1_ans_vec.mapM Serde.fromStr)
  let bc1_vec ← ofOption (insertAt bc1_others (party_num_int - 1) bc_i)
  -- send ephemeral public keys and check commitments correctness
  broadcast party_num_int "round2" (Serde.toStr decom_i) uuid
  let round2_ans_vec ← pollForBroadcasts party_num_int parties "round2" uuid
  let decommitted ← ofOption (decommitLoop L party_num_int decom_i (L.u_i party_keys) round2_ans_vec
    (List.range' 1 parties) 0)
  let y_sum ← ofOption (sumPoints decommitted.point_vec)
  let distributed ← ofOption (L.phase1VerifyComPhase3VerifyCorrectKeyPhase2Distribute
    (coins .distribute) party_keys params decommitted.decom_vec bc1_vec)
  let vss_scheme := distributed.1
  let secret_shares := distributed.2.1
  record (.secretShares secret_shares)
  sendShares L party_num_int uuid coins decommitted.enc_keys secret_shares (List.range' 1 parties) 0 0
  let round3_ans_vec ← pollForP2p party_num_int parties "round3" uuid
  let party_shares ← readShares L party_num_int decommitted.enc_keys secret_shares round3_ans_vec
    (List.range' 1 parties) 0
  record (.partyShares party_shares)
  -- round 4: send vss commitments
  let vss_scheme_vec ← shareRound party_num_int parties "round4" uuid vss_scheme
  let constructed ← ofOption (L.phase2VerifyVssConstructKeypairPhase3PokDlog (coins .proof) party_keys
    params decommitted.point_vec party_shares vss_scheme_vec party_num_int)
  -- round 5: send dlog proof
  let dlog_proof_vec ← shareRound party_num_int parties "round5" uuid constructed.2
  ofOption (L.verifyDlogProofs params dlog_proof_vec decommitted.point_vec)
  let paillier_key_vec ← ofOption ((List.range parties).mapM fun i => bc1_vec[i]?.map L.e)
  pure (Serde.toStr ((party_keys, constructed.1, party_num_int, vss_scheme_vec, paillier_key_vec, y_sum) :
    L.Output))

end Keygen

/-! ### A small library -/

instance encodableZModThree : Encodable (ZMod 3) := inferInstanceAs (Encodable (Fin 3))

/-- The values of a line through `keys`, or of a constant if the threshold is 0. -/
def smallShares (params : Parameters) (seed keys : Nat) : List (ZMod 3) :=
  (List.range params.share_count).map fun k =>
    (if params.threshold = 0 then 0 else (seed : ZMod 3)) * (k + 1 : Nat) + keys

/-- A library over the integers modulo 3, for runs on given inputs: the secret of a party is its first
seed, a sharing is a line through it, and a ciphertext starts with its key. -/
def KeygenLibrary.small : KeygenLibrary (ZMod 3) (ZMod 3) where
  Seed := Nat
  EncryptionKey := Nat
  Keys := Nat
  KeyGenBroadcastMessage1 := Nat
  KeyGenDecommitMessage1 := Nat
  VerifiableSS := Nat
  SharedKeys := ZMod 3
  DLogProof := Nat
  u_i keys := keys
  ek keys := keys
  e message := message
  y_i message := message
  x_i shared_keys := shared_keys
  create seed _ := seed
  phase1BroadcastPhase3ProofOfCorrectKey _ keys := (keys, keys)
  phase1VerifyComPhase3VerifyCorrectKeyPhase2Distribute seed keys params _ _ :=
    some (seed, smallShares params seed keys, 0)
  phase2VerifyVssConstructKeypairPhase3PokDlog seed _ _ _ party_shares _ _ := some (party_shares.sum, seed)
  verifyDlogProofs _ _ _ := some ()
  xCoord point := some point.val
  toBytes n := List.replicate n 1
  fromBytes bytes := bytes.length
  toBigint x := x.val
  ofBigint n := n
  fillBytes _ := List.replicate 12 0
  gcmEncrypt key _ plaintext := some (key ++ plaintext)
  gcmDecrypt key _ ciphertext := if key <+: ciphertext then some (ciphertext.drop key.length) else none
  serdeBroadcast := Serde.numeric Nat
  serdeDecommit := Serde.numeric Nat
  serdeVss := Serde.numeric Nat
  serdeProof := Serde.numeric Nat
  serdeOutput := Serde.numeric (Nat × ZMod 3 × Nat × List Nat × List Nat × ZMod 3)

end Gg18
