import MultiPartyTss.Gg18.KeygenAgreement
import MultiPartyTss.Gg18.KeygenSign
import MultiPartyTss.Gg18.SignRoom
import MultiPartyTss.Lib.Hex
import MultiPartyTss.Lib.Joining

/-!
# The centralized requests

`gen_keys` and `signatures` each join the futures of all parties on a fresh map, where they sign up before
they run. A party that signs up late behaves like one that has not moved yet, so a run of the futures is a
run of parties `1..=n` with the numbers that the signups gave (`GenKeys.embedded`, `SignRoom.embedded`), and
what `KeygenSign` says of the sessions holds of the requests: `signatures_of_keys` is from the body of the
one answer to that of the other.
-/

namespace Gg18

open Proc Slots Network
open KeygenSession (startKeygens partyInput small_laws small_sharing)

variable {F G : Type} {L : KeygenLibrary F G}

/-! ### Key generation -/

section Keygen

variable [Serde AEAD] [Serde PartySignup] [Field F] [AddCommGroup G] [Module F G]

/-- The body of the answer of `gen_keys`. -/
structure GenKeysBody where
  keys : List String
  pub_key : String
  threshold : Nat
  parties : Nat
  deriving DecidableEq

/-- `party_key_pub_hex`; `parse` is `PublicKey::parse_slice` with `serialize`, and `none` a panic. -/
def partyKeyPubHex (S : SignLibrary L) (parse : List UInt8 → Option (List UInt8)) (data : String) :
    Option String := do
  let output : L.Output ← Serde.fromStr data
  let pk ← parse (rawPk S output.y_sum)
  some (String.ofList (Hex.encode pk))

/-- What `gen_keys` answers, once all futures have returned. Without parties there is no `keys[0]`. -/
def genKeysBody (S : SignLibrary L) (parse : List UInt8 → Option (List UInt8)) (params : Parameters)
    (s : GenKeys L) : Option GenKeysBody := do
  let keys ← (List.range params.share_count).mapM s.net.output
  let key ← keys[0]?
  let pub_hex ← partyKeyPubHex S parse key
  some ⟨keys, pub_hex, params.threshold, params.share_count⟩

namespace GenKeys

variable {params : Parameters} {coins : Nat → Draw → L.Seed} {room_id : Uuid} {s t : GenKeys L}

/-- The number of future `f`. -/
def place (params : Parameters) (coins : Nat → Draw → L.Seed) (s : GenKeys L) (f : Nat) : Option Nat :=
  (s.input params coins f).map KeygenInput.number

omit [Serde PartySignup] in
theorem keygen_apart (uuid : Uuid) (a : KeygenInput L) (ha : a.uuid = uuid.text) :
    Apart (fun k => k == room_id.text) a.process := by
  refine ⟨_, keygen_follows L a, fun k hk => ?_⟩
  have hlonger := exchange_longer hk
  rw [ha] at hlonger
  exact reserved_room k hlonger

theorem signup_embeds {uuid : Uuid} {f : Nat} {fresh : Uuid} (h : GenInv params coins room_id uuid s)
    (hembeds : Embeds (fun k => k == room_id.text) (place params coins s) s.net)
    (hstep : step params coins room_id s (.signup f fresh) = some t) :
    Embeds (fun k => k == room_id.text) (place params coins t) t.net := by
  obtain ⟨hf, hnew, slot, hslot, rfl⟩ := signup_step h hstep
  have hplace : place params coins
      (⟨{ s.net with store := StoreCommunity.writePartySignup room_id.text slot s.net.store }.spawn f
        (keygen L params (coins f) slot), s.signed ++ [(f, slot)]⟩ : GenKeys L) =
      Function.update (place params coins s) f (some (s.signed.length + 1)) := by
    funext g
    by_cases hg : g = f
    · subst hg
      rw [place, input_concat_self hnew, Function.update_self, Option.map_some, hslot]
      rfl
    · rw [place, input_concat_of_ne hg, Function.update_of_ne hg, place]
  have hfree : ∀ g, place params coins s g ≠ some (s.signed.length + 1) := by
    intro g hg
    obtain ⟨a, ha, hnumber⟩ := Option.map_eq_some_iff.mp hg
    obtain ⟨i, hi, -, rfl⟩ := h.slots.input_some ha
    exact Nat.ne_of_lt hi (Nat.succ.inj hnumber)
  rw [hplace, StoreCommunity.writePartySignup, Store.insert_eq_update]
  refine (hembeds.writeReserved (beq_self_eq_true room_id.text) _).spawn ((h.slots.joined f).mpr hnew) hfree ?_
  exact keygen_apart (if s.signed.length = 0 then fresh else uuid) ⟨params, coins f, slot⟩
    (congrArg PartySignup.uuid hslot)

/-- The futures are parties `1..=n` of a key generation. -/
theorem embedded {actions : List Action}
    (hrun : Machine.exec (step params coins room_id) (start L) actions = some s) :
    ∃ (keygen_coins : Nat → Draw → L.Seed) (keygen_uuid : String) (schedule : List Nat)
      (keygen_net : Net Nat String String (KeygenNote F) String),
      Machine.exec Net.move (startKeygens params keygen_coins keygen_uuid) schedule = some keygen_net ∧
        ∀ f text, s.net.output f = some text → ∃ p, keygen_net.output p = some text := by
  have hinv : ∃ uuid, GenInv params coins room_id uuid s ∧
      Embeds (fun k => k == room_id.text) (place params coins s) s.net := by
    refine Machine.exec_invariant (I := fun s => ∃ uuid, GenInv params coins room_id uuid s ∧
      Embeds (fun k => k == room_id.text) (place params coins s) s.net) (fun s action t h hstep => ?_)
      ⟨room_id, start_inv, .start⟩ hrun
    obtain ⟨uuid, h, hembeds⟩ := h
    cases action with
    | signup f fresh => exact ⟨_, signup_inv h hstep, signup_embeds h hembeds hstep⟩
    | move f =>
      refine ⟨uuid, move_inv h hstep, ?_⟩
      obtain ⟨net, hmove, rfl⟩ := Option.map_eq_some_iff.mp hstep
      exact hembeds.move hmove
  obtain ⟨uuid, h, hembeds⟩ := hinv
  -- party `p` draws what the `p`-th future to sign up draws
  let keygen_coins : Nat → Draw → L.Seed := fun p => coins ((s.signed.map Prod.fst).getD (p - 1) 0)
  have hfits : Fits (place params coins s) s.net fun p =>
      (parties params.share_count (partyInput params keygen_coins uuid.text) p).map KeygenInput.process := by
    intro f p party hp hparty
    obtain ⟨a, ha, rfl⟩ := Option.map_eq_some_iff.mp hp
    obtain ⟨b, hb, hinit⟩ := h.session.started f party hparty
    obtain rfl := Option.some.inj (ha.symm.trans hb)
    obtain ⟨i, hi, hget, rfl⟩ := h.slots.input_some ha
    have hle := h.slots.length_le
    have hcoins : keygen_coins (i + 1) = coins f := by
      show coins ((s.signed.map Prod.fst).getD (i + 1 - 1) 0) = coins f
      rw [Nat.add_sub_cancel, List.getD_eq_getElem?_getD, hget]
      rfl
    rw [hinit]
    show (parties params.share_count (partyInput params keygen_coins uuid.text) (i + 1)).map _ = _
    rw [parties_of_bounds (by omega), Option.map_some, partyInput, hcoins]
  obtain ⟨schedule, keygen_net, hplain, hlate⟩ := hembeds _ hfits
  refine ⟨keygen_coins, uuid.text, schedule, keygen_net, hplain, fun f text htext => ?_⟩
  obtain ⟨party, hparty, -⟩ := output_eq_some.mp htext
  obtain ⟨a, ha, -⟩ := h.session.started f party hparty
  refine ⟨a.number, ?_⟩
  rw [hlate.output (p := f) (q := a.number) (by rw [place, ha]; rfl), htext]

end GenKeys

end Keygen

/-! ### Signing -/

section Sign

variable {S : SignLibrary L} [Serde Nat] [Serde F] [Serde PartySignup] [DecidableEq G] [Field F] [AddCommGroup G]
  [Module F G]

namespace SignRoom

/-- What `signatures` answers, once all futures have returned; a refused signup is a panic. -/
def answer (r : SignRequest L) (s : SignRoom S) : Option (Except String (List String)) :=
  match checkKeys r.joiners r.threshold with
  | .error e => some (.error e)
  | .ok () => ((List.range' 1 r.joiners).mapM s.net.output).map .ok

variable {r : SignRequest L} {s t : SignRoom S}

omit [Serde Nat] [Serde F] [Serde PartySignup] [DecidableEq G] [Field F] [AddCommGroup G] [Module F G] in
theorem answer_ok {texts : List String} (h : answer r t = some (.ok texts)) :
    texts.length = r.joiners ∧ ∀ text ∈ texts, ∃ p, t.net.output p = some text := by
  unfold answer at h
  split at h
  · cases h
  · obtain ⟨texts', htexts, heq⟩ := Option.map_eq_some_iff.mp h
    obtain rfl := Except.ok.inj heq
    refine ⟨?_, fun text htext => ?_⟩
    · rw [← (forall₂_of_mapM htexts).length_eq, List.length_range']
    · obtain ⟨p, -, hp⟩ := mem_of_mapM htexts htext
      exact ⟨p, hp⟩

/-- Joiners sit at their own numbers. -/
def place (s : SignRoom S) (p : Nat) : Option Nat := (s.net.party p).map fun _ => p

/-- The room as it was when its session had the id `uuid`, and what its joiners run. -/
structure Joined (r : SignRequest L) (uuid : String) (s : SignRoom S) : Prop where
  inv : Inv r uuid s
  embeds : Embeds (fun k => k == r.room_id) (place s) s.net
  started : ∀ p party, s.net.party p = some party →
    party.init = sign S r.build r.threshold (r.key p) r.msg (r.coins p) ⟨p, uuid⟩

omit [Serde PartySignup] in
theorem sign_apart (hroom : UuidText r.room_id) (p : Nat) (slot : PartySignup) :
    Apart (fun k => k == r.room_id) (sign S r.build r.threshold (r.key p) r.msg (r.coins p) slot) := by
  refine ⟨_, sign_follows ⟨r.build, r.threshold, r.key p, r.msg, r.coins p, slot⟩, fun k hk => ?_⟩
  rw [beq_eq_false_iff_ne]
  exact exchange_ne_room signRounds_named hroom hk

theorem join_joined {uuid fresh : String} (hroom : UuidText r.room_id) (hreadable : Readable r)
    (h : Joined r uuid s) (hstep : step r s (.join fresh) = some t) :
    Joined r (if s.joined = 0 then fresh else uuid) t := by
  refine ⟨join_inv hroom hreadable h.inv hstep, ?_, ?_⟩
  · obtain ⟨-, ⟨hplace, slot, rfl, rfl⟩ | ⟨-, rfl⟩⟩ := step_join hreadable h.inv hstep
    · have hnone : s.net.party (s.joined + 1) = none := by
        by_contra hsome
        have hle := ((h.inv.present _).mp (Option.ne_none_iff_exists'.mp hsome)).2
        rw [places] at hle
        omega
      have hfree : ∀ p, place s p ≠ some (s.joined + 1) := by
        intro p hp
        obtain ⟨party, hparty, rfl⟩ := Option.map_eq_some_iff.mp hp
        exact Option.some_ne_none party (hparty.symm.trans hnone)
      have hspawned := (h.embeds.writeReserved (beq_self_eq_true r.room_id) (some (Serde.toStr
        (⟨s.joined + 1, if s.joined = 0 then fresh else uuid⟩ : PartySignup)))).spawn hnone hfree
        (sign_apart hroom (s.joined + 1) ⟨s.joined + 1, if s.joined = 0 then fresh else uuid⟩)
      rw [StoreCommunity.writePartySignup, Store.insert_eq_update]
      convert hspawned using 1
      funext p
      by_cases hp : p = s.joined + 1
      · subst hp
        rw [Function.update_self, place, Net.spawn, setParty_self]
        rfl
      · rw [Function.update_of_ne hp, place, Net.spawn, setParty_of_ne _ _ hp, place]
    · exact h.embeds
  · intro p party hparty
    obtain ⟨-, ⟨hplace, slot, rfl, rfl⟩ | ⟨hfull, rfl⟩⟩ := step_join hreadable h.inv hstep
    · by_cases hp : p = s.joined + 1
      · subst hp
        rw [Net.spawn, setParty_self, Option.some.injEq] at hparty
        rw [← hparty]
      · rw [Net.spawn, setParty_of_ne _ _ hp] at hparty
        have hinit := h.started p party hparty
        by_cases hzero : s.joined = 0
        · have hempty := congrArg (fun s : SignRoom S => s.net.party p) (h.inv.fresh hzero)
          exact (Option.some_ne_none party (hparty.symm.trans hempty)).elim
        · rwa [if_neg hzero]
    · rw [if_neg (by omega)]
      exact h.started p party hparty

theorem move_joined {uuid : String} {p : Nat} (h : Joined r uuid s) (hstep : step r s (.move p) = some t) :
    Joined r uuid t := by
  refine ⟨move_inv h.inv hstep, ?_, ?_⟩
  · obtain ⟨net, hmove, rfl⟩ := Option.map_eq_some_iff.mp hstep
    have hplace : place (⟨net, s.joined, s.admitted⟩ : SignRoom S) = place s := by
      funext q
      have hinit := congrArg (Option.map fun _ => q) (move_init hmove q)
      rwa [Option.map_map, Option.map_map] at hinit
    show Embeds _ (place (⟨net, s.joined, s.admitted⟩ : SignRoom S)) net
    rw [hplace]
    exact h.embeds.move hmove
  · intro q party hparty
    obtain ⟨net, hmove, rfl⟩ := Option.map_eq_some_iff.mp hstep
    have hinit := move_init hmove q
    rw [show net.party q = some party from hparty, Option.map_some] at hinit
    obtain ⟨party', hparty', heq⟩ := Option.map_eq_some_iff.mp hinit.symm
    rw [← heq]
    exact h.started q party' hparty'

/-- The joiners are signers `1..=t+1` of a signing. -/
theorem embedded (hroom : UuidText r.room_id) (hreadable : Readable r) (hjoiners : r.joiners = r.threshold + 1)
    {actions : List Action} (hrun : Machine.exec (step r) (start S) actions = some s) :
    ∃ uuid schedule net,
      Machine.exec Net.move (startSigners S r.build r.threshold r.key r.msg r.coins uuid) schedule = some net ∧
        ∀ p text, s.net.output p = some text → net.output p = some text := by
  have hjoined : ∃ uuid, Joined r uuid s := by
    refine Machine.exec_invariant (I := fun s => ∃ uuid, Joined r uuid s) (fun s action t h hstep => ?_)
      ⟨"", start_inv "", .start, fun p party hp => (Option.some_ne_none party hp.symm).elim⟩ hrun
    obtain ⟨uuid, h⟩ := h
    cases action with
    | join fresh => exact ⟨_, join_joined hroom hreadable h hstep⟩
    | move p => exact ⟨uuid, move_joined h hstep⟩
  obtain ⟨uuid, h⟩ := hjoined
  have hfits : Fits (place s) s.net fun p =>
      (parties (r.threshold + 1) (signerInput r.build r.threshold r.key r.msg r.coins uuid) p).map
        fun a => a.process S := by
    intro p q party hq hparty
    obtain ⟨_, -, rfl⟩ := Option.map_eq_some_iff.mp hq
    obtain ⟨hpos, hle⟩ := (h.inv.present p).mp ⟨party, hparty⟩
    have hwithin := h.inv.within
    rw [places] at hle
    dsimp only
    rw [parties_of_bounds ⟨hpos, by omega⟩, Option.map_some, h.started p party hparty]
    rfl
  obtain ⟨schedule, net, hplain, hlate⟩ := h.embeds _ hfits
  refine ⟨uuid, schedule, net, hplain, fun p text htext => ?_⟩
  obtain ⟨party, hparty, -⟩ := output_eq_some.mp htext
  rw [hlate.output (p := p) (q := p) (by rw [place, hparty]; rfl), htext]

end SignRoom

end Sign

/-! ### From keys to signatures -/

section Main

variable (S : SignLibrary L) (parse : List UInt8 → Option (List UInt8)) [Serde AEAD] [Serde Nat] [Serde F]
  [Serde PartySignup] [DecidableEq G] [Field F] [AddCommGroup G] [Module F G] {g : G} {xCoord : G → F}
  {signature : Nat → G → G → F → Option S.SignatureRecid} {params : Parameters}

omit [Serde AEAD] [Serde Nat] [Serde F] [Serde PartySignup] [DecidableEq G] [Field F] [AddCommGroup G]
  [Module F G] in
/-- The answer has the texts of all futures, and the public key of the first. -/
theorem genKeysBody_eq_some {s : GenKeys L} {body : GenKeysBody} (h : genKeysBody S parse params s = some body) :
    (∀ key ∈ body.keys, ∃ f, s.net.output f = some key) ∧
      ∃ key ∈ body.keys, partyKeyPubHex S parse key = some body.pub_key := by
  obtain ⟨keys, hkeys, h⟩ := Option.bind_eq_some_iff.mp h
  obtain ⟨key, hkey, h⟩ := Option.bind_eq_some_iff.mp h
  obtain ⟨pub_hex, hpub, h⟩ := Option.bind_eq_some_iff.mp h
  cases h
  refine ⟨fun text htext => ?_, key, List.mem_of_getElem? hkey, hpub⟩
  obtain ⟨f, -, hf⟩ := mem_of_mapM hkeys htext
  exact ⟨f, hf⟩

/-- With `threshold + 1` different ones of the keys that `gen_keys` answers with, `signatures` answers with one
text for each of them, all the same: a signature under the public key of that answer. -/
theorem signatures_of_keys (keygen_laws : KeygenLaws L g) (sharing : SharingLaws L params) (key_laws : KeyLaws S)
    (sign_laws : SignLaws S g) (outputs : OutputLaws S xCoord signature) (hneg : ∀ P, xCoord (-P) = xCoord P)
    (coins : Nat → Draw → L.Seed) (room_id : Uuid) (keygen_actions : List GenKeys.Action) (s : GenKeys L)
    (hkeygen : Machine.exec (GenKeys.step params coins room_id) (GenKeys.start L) keygen_actions = some s)
    (body : GenKeysBody) (hbody : genKeysBody S parse params s = some body) (r : SignRequest L)
    (hroom : UuidText r.room_id) (hthreshold : r.threshold = params.threshold)
    (hjoiners : r.joiners = r.threshold + 1) (hkeys : ∀ i ∈ Finset.Icc 1 r.joiners, r.key i ∈ body.keys)
    (hdistinct : Set.InjOn r.key (Finset.Icc 1 r.joiners)) (actions : List SignRoom.Action) (t : SignRoom S)
    (hrun : Machine.exec (SignRoom.step r) (SignRoom.start S) actions = some t) (texts : List String)
    (htexts : SignRoom.answer r t = some (.ok texts)) :
    ∃ sig, texts = List.replicate r.joiners (signJson S sig) ∧
      ∀ key ∈ body.keys, ∃ out : L.Output, Serde.fromStr key = some out ∧
        partyKeyPubHex S parse key = some body.pub_key ∧
        Ecdsa.Valid xCoord g out.y_sum (L.fromBytes (messageBytes S r.msg)) (S.r sig) (S.s sig) := by
  obtain ⟨houtputs, first, hfirst, hpub⟩ := genKeysBody_eq_some S parse hbody
  obtain ⟨keygen_coins, keygen_uuid, keygen_schedule, keygen_net, hkeygen_run, hreturned⟩ :=
    GenKeys.embedded hkeygen
  have hk := keygen_of_run hkeygen_run
  -- every key of the answer is what a party of the key generation has returned
  have hparty : ∀ key ∈ body.keys, ∃ p, keygen_net.output p = some key := by
    intro key hkey
    obtain ⟨f, hf⟩ := houtputs key hkey
    exact hreturned f key hf
  have hread : ∀ key ∈ body.keys, ∃ out : L.Output, Serde.fromStr key = some out := by
    intro key hkey
    obtain ⟨p, hp⟩ := hparty key hkey
    obtain ⟨_, _, _, _, _, _, _, _, -, -, -, -, -, htext⟩ := hk.returned hp
    rw [htext]
    exact ⟨_, Serde.round_trip _⟩
  have hreadable : SignRoom.Readable r :=
    fun i hpos hle => hread _ (hkeys i (Finset.mem_Icc.mpr ⟨hpos, hle⟩))
  obtain ⟨uuid, schedule, net, hsign_run, hsigned⟩ := SignRoom.embedded hroom hreadable hjoiners hrun
  rw [hthreshold] at hsign_run hjoiners
  choose! party hparty using hparty
  have hsigning : Signing (fun sign_keys alpha_vec beta_vec delta_i hdelta =>
      (sign_laws.phase2_delta sign_keys alpha_vec beta_vec delta_i hdelta).1) (fun _ => false) r.build
      params.threshold r.key r.msg r.coins uuid net := signing_of_run S r.build _ r.key r.msg r.coins uuid hsign_run
  rw [hjoiners] at hkeys hdistinct
  have hparties : Set.InjOn (fun i => party (r.key i)) (Finset.Icc 1 (params.threshold + 1)) := by
    intro i hi j hj heq
    have hi' := hparty _ (hkeys i hi)
    have hj' := hparty _ (hkeys j hj)
    dsimp only at heq
    rw [heq, hj', Option.some.injEq] at hi'
    exact hdistinct hi hj hi'.symm
  obtain ⟨hagree, hverifies⟩ := verifies_of_sessions keygen_laws sharing key_laws sign_laws outputs hneg hk hparties
    (fun i hi => hparty _ (hkeys i hi)) hsigning
  -- all have returned the text of one of them
  obtain ⟨hlength, hreturns⟩ := SignRoom.answer_ok htexts
  obtain ⟨text, htext⟩ : ∃ text, text ∈ texts := List.exists_mem_of_length_pos (by omega)
  obtain ⟨p, hp⟩ := hreturns text htext
  obtain ⟨sig, rfl, hvalid⟩ := hverifies p text (hsigned p text hp)
  refine ⟨sig, List.eq_replicate_iff.mpr ⟨hlength, fun text' htext' => ?_⟩, fun key hkey => ?_⟩
  · obtain ⟨q, hq⟩ := hreturns text' htext'
    exact hagree q p _ _ (hsigned q _ hq) (hsigned p _ hp)
  · obtain ⟨out, hout⟩ := hread key hkey
    obtain ⟨first_out, hfirst_out⟩ := hread first hfirst
    have hsame : first_out.y_sum = out.y_sum := by
      rw [hk.public_key keygen_laws (hparty first hfirst) hfirst_out,
        hk.public_key keygen_laws (hparty key hkey) hout]
    refine ⟨out, hout, ?_, hvalid _ key out (hparty key hkey) hout⟩
    rw [← hpub, partyKeyPubHex, partyKeyPubHex, hout, hfirst_out, Option.bind_eq_bind, Option.bind_eq_bind,
      Option.bind_some, Option.bind_some, hsame]

end Main

/-! ### Two keys and two signatures -/

/-- Two futures that move in turn. -/
def genKeysOfTwo : Option (GenKeys KeygenLibrary.small) :=
  letI := PartySignup.compact
  letI := AEAD.plain
  Machine.exec (GenKeys.step ⟨1, 2⟩ (fun _ _ => (1 : Nat)) ⟨"00000000-0000-4000-8000-000000000000", by decide⟩)
    (GenKeys.start _)
    (.signup 0 ⟨"00000000-0000-4000-8000-000000000001", by decide⟩ ::
      .signup 1 ⟨"00000000-0000-4000-8000-000000000002", by decide⟩ :: (List.range 28).map fun i => .move (i % 2))

def keysOfTwo : Option GenKeysBody := genKeysOfTwo.bind (genKeysBody SignLibrary.weighted some ⟨1, 2⟩)

/-- The keys in the other order. -/
def signWithTwo : SignRequest KeygenLibrary.small where
  build := .release
  parties := 2
  threshold := 1
  joiners := 2
  key i := (keysOfTwo.bind fun body => body.keys[2 - i]?).getD ""
  msg := "messages"
  coins p _ := (p - 1 : Nat)
  room_id := "00000000-0000-4000-8000-000000000003"

def signaturesOfTwo : Option (SignRoom SignLibrary.weighted) :=
  letI := PartySignup.compact
  letI := Serde.numeric Nat
  letI := Serde.numeric (ZMod 3)
  Machine.exec (SignRoom.step signWithTwo) (SignRoom.start _)
    (.join "00000000-0000-4000-8000-000000000004" :: .join "" :: (List.range 46).map fun i => .move (i % 2 + 1))

/-- Both sign, and their signature is valid under the public key of the answer. -/
theorem signatures_of_two :
    letI := AEAD.plain
    ∃ body texts sig, keysOfTwo = some body ∧
      signaturesOfTwo.bind (SignRoom.answer signWithTwo) = some (.ok texts) ∧
      texts = List.replicate 2 (signJson SignLibrary.weighted sig) ∧
      ∀ key ∈ body.keys, ∃ out : KeygenLibrary.small.Output, Serde.fromStr key = some out ∧
        partyKeyPubHex SignLibrary.weighted some key = some body.pub_key ∧
        Ecdsa.Valid (fun P : ZMod 3 => P * P) 1 out.y_sum
          (KeygenLibrary.small.fromBytes (messageBytes SignLibrary.weighted "messages"))
          (SignLibrary.weighted.r sig) (SignLibrary.weighted.s sig) := by
  have hkeys : (keysOfTwo.map fun body => decide (body.keys.length = 2 ∧ body.keys[0]? ≠ body.keys[1]?)) =
      some true := by
    decide +kernel
  have hsigned : ((signaturesOfTwo.bind (SignRoom.answer signWithTwo)).map Except.isOk) = some true := by
    decide +kernel
  let _ := PartySignup.compact
  let _ := AEAD.plain
  let _ := Serde.numeric Nat
  let _ := Serde.numeric (ZMod 3)
  obtain ⟨body, hbody, htwo⟩ := Option.map_eq_some_iff.mp hkeys
  obtain ⟨answer, hanswer, hok⟩ := Option.map_eq_some_iff.mp hsigned
  obtain ⟨s, hs, hresponse⟩ := Option.bind_eq_some_iff.mp hbody
  obtain ⟨t, ht, hanswer'⟩ := Option.bind_eq_some_iff.mp hanswer
  obtain ⟨texts, rfl⟩ : ∃ texts, answer = .ok texts := by
    cases answer with
    | error e => cases hok
    | ok texts => exact ⟨texts, rfl⟩
  obtain ⟨hlength, hne⟩ := of_decide_eq_true htwo
  have hkey : ∀ i ∈ Finset.Icc 1 2, body.keys[2 - i]? = some (signWithTwo.key i) := by
    intro i hi
    have hi := Finset.mem_Icc.mp hi
    rw [List.getElem?_eq_getElem (show 2 - i < body.keys.length by omega)]
    show _ = some ((keysOfTwo.bind fun body => body.keys[2 - i]?).getD "")
    rw [hbody, Option.bind_some, List.getElem?_eq_getElem (show 2 - i < body.keys.length by omega),
      Option.getD_some]
  obtain ⟨sig, htexts, hvalid⟩ := signatures_of_keys SignLibrary.weighted some small_laws small_sharing
    SignLibrary.weighted_keyLaws SignLibrary.weighted_laws SignLibrary.weighted_output (fun P => neg_mul_neg P P) _
    _ _ s hs body hresponse signWithTwo (by decide) rfl rfl (fun i hi => List.mem_of_getElem? (hkey i hi))
    (fun i hi j hj heq => by
      have hi' := hkey i hi
      have hj' := hkey j hj
      have hi := Finset.mem_Icc.mp hi
      have hj := Finset.mem_Icc.mp hj
      rw [heq, ← hj'] at hi'
      by_contra hij
      obtain ⟨rfl, rfl⟩ | ⟨rfl, rfl⟩ : i = 1 ∧ j = 2 ∨ i = 2 ∧ j = 1 := by
        dsimp only [signWithTwo] at hi hj
        omega
      · exact hne hi'.symm
      · exact hne hi') _ t ht texts hanswer'
  exact ⟨body, texts, sig, hbody, hanswer, htexts, hvalid⟩

end Gg18
