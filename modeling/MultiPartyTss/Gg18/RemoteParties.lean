import MultiPartyTss.Gg18.ApiCommunity
import MultiPartyTss.Gg18.KeygenSign
import MultiPartyTss.Lib.Retrying

/-!
# Parties that use the manager over HTTP

With an endpoint, `get_adapter` gives a party `ApiCommunity`: each write and each attempt of a poll is a
request to the manager, which `post` sends up to nine times. In between, the requests of the other parties are
served. A party panics where `unwrap` finds an error, and where a write is refused; the manager may still
serve its last request.

For every run of such parties there is one of parties that use the map themselves, with the same map and the
same results (`Protocol.remote_refines`). So what holds of key generations and signatures under any
interleaving holds over HTTP (`remote_signatures_verify`).
-/

namespace Gg18

open Proc Network Json KeygenSession

/-! ### The requests -/

inductive Route where
  | getEntry
  | setEntry
  deriving DecidableEq, Repr

namespace ApiCommunity

variable [Serde Object]

/-- What the manager does with a request, and what `get_entry` and `set_entry` make of the response. -/
def api (limit : Nat) : Api String String (Route × String) Response where
  setRequest key value := (.setEntry, Serde.toStr (Entry.mk key value).toJson)
  getRequest key := (.getEntry, Serde.toStr (Entry.mk key "").toJson)
  serve := fun (route, body) hm =>
    match route with
    | .getEntry => Management.getEntry limit body hm
    | .setEntry => Management.setEntry limit body hm
  read response := (Arrival.intact.json response).map fun res =>
    match decode Entry.fromJson (Serde.toStr res.canonical) with
    | .ok entry => some entry.value
    | .error () => none
  attempts := retries - 1

variable {limit : Nat}

theorem read_respond (status : Nat) {o : Object} (hnames : o.names.Nodup) :
    (api limit).read (respond status o) = some ((Entry.fromJson o).map Entry.value) := by
  have hjson : Arrival.intact.json (respond status o) = some o.canonical := by simp [Arrival.json, respond]
  have hdecode := decode_rendered Entry.fromJson_fieldwise hnames
  simp only [api, hjson, Option.map_some]
  rw [show Serde.toStr o.canonical.canonical = rendered o from rfl, hdecode]
  cases Entry.fromJson o <;> rfl

/-- A response without an entry. -/
theorem read_refusal (limit status : Nat) {o : Object} (hnames : o.names.Nodup) (hresult : NoResult o) (v : String) :
    (api limit).read (respond status o) ≠ some (some v) := by
  rw [read_respond status hnames, Entry.fromJson_of_noResult hresult]
  simp

/-- A request to set an entry is carried out, or the guard refuses it. -/
theorem setEntry_cases (limit : Nat) (entry : Entry) (hm : Store) :
    Management.setEntry limit (Serde.toStr entry.toJson) hm =
        (respond 200 entry.toJson, hm.insert entry.key entry.value) ∨
      ∃ status, Management.setEntry limit (Serde.toStr entry.toJson) hm =
        (defaultCatcher "/ecdsa/gg_18/management/set-entry" status, hm) := by
  unfold Management.setEntry
  obtain ⟨status, hread, -⟩ | ⟨o, request, -, hbody, hrequest, hread⟩ :=
    readJson_cases limit Entry.fromJson (Serde.toStr entry.toJson)
  · exact Or.inr ⟨status, by rw [hread]⟩
  · rw [Serde.round_trip, Option.some.injEq] at hbody
    subst hbody
    rw [Entry.fromJson_toJson, Option.some.injEq] at hrequest
    subst hrequest
    exact Or.inl (by rw [hread]; rfl)

theorem getEntry_cases (limit : Nat) (key : String) (hm : Store) :
    (∃ v, hm key = some v ∧ Management.getEntry limit (Serde.toStr (Entry.mk key "").toJson) hm =
        (respond 200 (Entry.mk key v).toJson, hm)) ∨
      ∃ status o, o.names.Nodup ∧ NoResult o ∧
        Management.getEntry limit (Serde.toStr (Entry.mk key "").toJson) hm = (respond status o, hm) := by
  unfold Management.getEntry
  obtain ⟨status, hread, -⟩ | ⟨o, request, -, hbody, hrequest, hread⟩ :=
    readJson_cases limit Index.fromJson (Serde.toStr (Entry.mk key "").toJson)
  · exact Or.inr ⟨status, _, catcherBody_nodup _ _, catcherBody_noResult _ _, by rw [hread]; rfl⟩
  · rw [Serde.round_trip, Option.some.injEq] at hbody
    subst hbody
    rw [Index.fromJson_toJson, Option.some.injEq] at hrequest
    subst hrequest
    cases hkey : hm key with
    | some v => exact Or.inl ⟨v, rfl, by simp only [hread, StoreCommunity.getEntry, hkey]⟩
    | none =>
      exact Or.inr ⟨400, errorBody "get signup party failed", errorBody_nodup _, errorBody_noResult _, by
        simp only [hread, StoreCommunity.getEntry, hkey]⟩

theorem api_lawful (limit : Nat) : (api limit).Lawful := by
  refine ⟨fun k v store => ?_, fun k store => ?_⟩
  · change (Management.setEntry limit (Serde.toStr (Entry.mk k v).toJson) store).2 = _ ∨
      (Management.setEntry limit (Serde.toStr (Entry.mk k v).toJson) store).2 = store ∧ ∀ w, (api limit).read
        (Management.setEntry limit (Serde.toStr (Entry.mk k v).toJson) store).1 ≠ some (some w)
    obtain hset | ⟨status, hrefused⟩ := setEntry_cases limit ⟨k, v⟩ store
    · rw [hset]
      exact Or.inl (Store.insert_eq_update store k v)
    · rw [hrefused]
      exact Or.inr ⟨rfl, read_refusal limit status (catcherBody_nodup _ _) (catcherBody_noResult _ _)⟩
  · change (Management.getEntry limit (Serde.toStr (Entry.mk k "").toJson) store).2 = store ∧ ∀ v,
      (api limit).read (Management.getEntry limit (Serde.toStr (Entry.mk k "").toJson) store).1 = some (some v) →
        store k = some v
    obtain ⟨w, hk, hget⟩ | ⟨status, o, hnames, hresult, hget⟩ := getEntry_cases limit k store
    · rw [hget]
      refine ⟨rfl, fun v hv => ?_⟩
      rw [read_respond 200 (Entry.toJson_nodup _), Entry.fromJson_toJson] at hv
      cases hv
      exact hk
    · rw [hget]
      exact ⟨rfl, fun v hv => (read_refusal limit status hnames hresult v hv).elim⟩

/-- The bodies of the requests about an entry. -/
def bodySize (key value : String) : Nat :=
  max (Serde.toStr (Entry.mk key value).toJson).utf8ByteSize (Serde.toStr (Entry.mk key "").toJson).utf8ByteSize

theorem api_answers {limit : Nat} {key value : String} (hsize : bodySize key value ≤ limit) :
    (api limit).Answers key value := by
  refine ⟨fun store => ?_, fun store hk => ?_⟩
  · have hset : (api limit).serve ((api limit).setRequest key value) store =
        (respond 200 (Entry.mk key value).toJson, Store.insert store key value) := by
      have hread := readJson_toStr ((le_max_left _ _).trans hsize) (Entry.mk key value).fromJson_toJson
      simp only [api, Management.setEntry, hread, StoreCommunity.setEntry]
    rw [hset, read_respond 200 (Entry.toJson_nodup _), Entry.fromJson_toJson]
    exact ⟨Store.insert_eq_update store key value, value, rfl⟩
  · have hget : (api limit).serve ((api limit).getRequest key) store =
        (respond 200 (Entry.mk key value).toJson, store) := by
      have hread := readJson_toStr ((le_max_right _ _).trans hsize) (Index.fromJson_toJson (Entry.mk key ""))
      simp only [api, Management.getEntry, hread, StoreCommunity.getEntry, hk]
    rw [hget, read_respond 200 (Entry.toJson_nodup _), Entry.fromJson_toJson]
    exact ⟨rfl, rfl⟩

end ApiCommunity

/-! ### Sessions -/

section Sessions

variable {A ω : Type}

/-- The parties before their first step, where the manager has an empty map. -/
def Protocol.startRemote (protocol : Protocol A ω) (n : Nat) (input : Nat → A) :
    Remote Nat String String ω String Response :=
  Remote.start fun p => (parties n input p).map protocol.process

section Runs

variable (protocol : Protocol A ω) (n : Nat) (input : Nat → A) (uuid : String)
  (hnumber : ∀ p, protocol.number (input p) = p) (hcount : ∀ p, protocol.count (input p) = n)
  (huuid : ∀ p, protocol.uuid (input p) = uuid)

include hnumber in
theorem Protocol.plan_disciplined : Disciplined (fun _ => false)
    (sessionPlan (fun p => (parties n input p).map protocol.number) n uuid protocol.rounds) := by
  refine sessionPlan_disciplined protocol.wellNamed (fun p q i hp hq => ?_) fun _ _ => rfl
  obtain ⟨a, ha, rfl⟩ := Option.map_eq_some_iff.mp hp
  obtain ⟨b, hb, hsame⟩ := Option.map_eq_some_iff.mp hq
  obtain ⟨-, rfl⟩ := parties_some ha
  obtain ⟨-, rfl⟩ := parties_some hb
  rw [hnumber, hnumber] at hsame
  exact hsame.symm

include hcount huuid in
theorem Protocol.plan_follows (p : Nat) (x : PartyProc ω String)
    (hx : (parties n input p).map protocol.process = some x) :
    x.Follows (sessionPlan (fun p => (parties n input p).map protocol.number) n uuid protocol.rounds p) := by
  obtain ⟨a, ha, rfl⟩ := Option.map_eq_some_iff.mp hx
  have hfollows := protocol.follows a
  obtain ⟨-, rfl⟩ := parties_some ha
  rw [hcount, huuid] at hfollows
  rw [sessionPlan, ha]
  exact hfollows

variable [Serde Object]

include hnumber hcount huuid

/-- Parties over HTTP, with any loss of responses, are parties on the map. -/
theorem Protocol.remote_refines (limit : Nat) {actions : List (Remote.Action Nat)}
    {remote : Remote Nat String String ω String Response}
    (hrun : Machine.exec (Remote.step (ApiCommunity.api limit)) (protocol.startRemote n input) actions =
      some remote) :
    ∃ schedule net, Machine.exec Net.move (protocol.start n input) schedule = some net ∧
      net.store = remote.store ∧ ∀ p text, remote.output p = some text → net.output p = some text :=
  Remote.exec_remote_refines (protocol.plan_disciplined n input uuid hnumber)
    (ApiCommunity.api_lawful limit) (protocol.plan_follows n input uuid hcount huuid) hrun

/-- Parties on the map are parties over HTTP, if the manager takes bodies that are long enough. -/
theorem Protocol.remote_of_run {schedule : List Nat} {net : Net Nat String String ω String}
    (hrun : Machine.exec Net.move (protocol.start n input) schedule = some net) :
    ∃ least, ∀ limit, least ≤ limit → ∃ actions remote,
      Machine.exec (Remote.step (ApiCommunity.api limit)) (protocol.startRemote n input) actions = some remote ∧
        remote.store = net.store ∧ ∀ p, remote.output p = net.output p := by
  obtain ⟨least, hleast⟩ := Remote.exists_bound ApiCommunity.bodySize hrun
  refine ⟨least, fun limit hlimit => ?_⟩
  have hfollows := protocol.plan_follows n input uuid hcount huuid
  obtain ⟨actions, hactions⟩ := Remote.exec_ofNet (protocol.plan_disciplined n input uuid hnumber)
    (start_consistent hfollows) hrun fun k v hk => ApiCommunity.api_answers ((hleast k v hk).trans hlimit)
  rw [Remote.ofNet_start] at hactions
  exact ⟨actions, _, hactions, rfl, Remote.ofNet_output net⟩

/-- The parties can return these texts over HTTP, with some limit of the bodies, just if they can on the map. -/
theorem Protocol.same_outcomes (results : Nat → Option String) :
    (∃ limit actions remote,
        Machine.exec (Remote.step (ApiCommunity.api limit)) (protocol.startRemote n input) actions = some remote ∧
          ∀ p text, results p = some text → remote.output p = some text) ↔
      ∃ schedule net, Machine.exec Net.move (protocol.start n input) schedule = some net ∧
        ∀ p text, results p = some text → net.output p = some text := by
  constructor
  · rintro ⟨limit, actions, remote, hrun, hresults⟩
    obtain ⟨schedule, net, hnet, -, houtputs⟩ :=
      protocol.remote_refines n input uuid hnumber hcount huuid limit hrun
    exact ⟨schedule, net, hnet, fun p text hp => houtputs p text (hresults p text hp)⟩
  · rintro ⟨schedule, net, hrun, hresults⟩
    obtain ⟨least, hleast⟩ := protocol.remote_of_run n input uuid hnumber hcount huuid hrun
    obtain ⟨actions, remote, hremote, -, houtputs⟩ := hleast least (le_refl least)
    exact ⟨least, actions, remote, hremote, fun p text hp => (houtputs p).trans (hresults p text hp)⟩

end Runs

end Sessions

/-! ### Signatures -/

section Main

variable {F G : Type} {L : KeygenLibrary F G} [Field F] [Serde Object] [Serde AEAD] [Serde Nat] [Serde F]
  [DecidableEq G] [AddCommGroup G] [Module F G] (S : SignLibrary L)

/-- Parties `1..=n` of a key generation over HTTP. -/
def startRemoteKeygens (params : Parameters) (coins : Nat → Draw → L.Seed) (uuid : String) :
    Remote Nat String String (KeygenNote F) String Response :=
  (keygenProtocol L).startRemote params.share_count (partyInput params coins uuid)

/-- Signers `1..=t+1` over HTTP. -/
def startRemoteSigners (build : U16.Build) (t : Nat) (key : Nat → String) (msg : String)
    (coins : Nat → SignDraw → L.Seed) (uuid : String) : Remote Nat String String (SignNote S) String Response :=
  Remote.start fun p => (parties (t + 1) (signerInput build t key msg coins uuid) p).map fun a => a.process S

/-- `Verifies`, for what parties of a key generation over HTTP have returned. -/
def RemoteVerifies (msg : String) (xCoord : G → F) (g : G)
    (keygen_remote : Remote Nat String String (KeygenNote F) String Response) (text : String) : Prop :=
  ∃ sig, text = signJson S sig ∧ ∀ b key_text (out : L.Output), keygen_remote.output b = some key_text →
    Serde.fromStr key_text = some out →
    Ecdsa.Valid xCoord g out.y_sum (L.fromBytes (messageBytes S msg)) (S.r sig) (S.s sig)

variable {S}

/-- A key generation and a signing over HTTP: however requests and responses interleave, whichever responses
cannot be read and whichever connections break, the signers that return, return one text, which is a signature
under the public key that every party of the key generation has returned. -/
theorem remote_signatures_verify {params : Parameters} {g : G} {xCoord : G → F}
    {signature : Nat → G → G → F → Option S.SignatureRecid}
    (keygen_laws : KeygenLaws L g) (sharing : SharingLaws L params) (key_laws : KeyLaws S)
    (sign_laws : SignLaws S g) (outputs : OutputLaws S xCoord signature) (hneg : ∀ P, xCoord (-P) = xCoord P)
    (limit : Nat) (keygen_coins : Nat → Draw → L.Seed) (keygen_uuid : String)
    (keygen_actions : List (Remote.Action Nat))
    (keygen_remote : Remote Nat String String (KeygenNote F) String Response)
    (hkeygen : Machine.exec (Remote.step (ApiCommunity.api limit))
      (startRemoteKeygens params keygen_coins keygen_uuid) keygen_actions = some keygen_remote)
    (party : Nat → Nat) (key : Nat → String) (hparty : Set.InjOn party (Finset.Icc 1 (params.threshold + 1)))
    (hkey : ∀ p ∈ Finset.Icc 1 (params.threshold + 1), keygen_remote.output (party p) = some (key p))
    (build : U16.Build) (msg : String) (coins : Nat → SignDraw → L.Seed) (uuid : String)
    (actions : List (Remote.Action Nat)) (remote : Remote Nat String String (SignNote S) String Response)
    (hrun : Machine.exec (Remote.step (ApiCommunity.api limit))
      (startRemoteSigners S build params.threshold key msg coins uuid) actions = some remote) :
    (∀ p q text text', remote.output p = some text → remote.output q = some text' → text = text') ∧
      ∀ p text, remote.output p = some text → RemoteVerifies S msg xCoord g keygen_remote text := by
  obtain ⟨keygen_schedule, keygen_net, hkeygen, -, hkeys⟩ := (keygenProtocol L).remote_refines
    params.share_count (partyInput params keygen_coins keygen_uuid) keygen_uuid (fun _ => rfl) (fun _ => rfl)
    (fun _ => rfl) limit hkeygen
  have hlength : ∀ sign_keys alpha_vec beta_vec delta_i,
      S.phase2DeltaI sign_keys alpha_vec beta_vec = some delta_i → alpha_vec.length = beta_vec.length :=
    fun sign_keys alpha_vec beta_vec delta_i hdelta =>
      (sign_laws.phase2_delta sign_keys alpha_vec beta_vec delta_i hdelta).1
  obtain ⟨schedule, net, hnet, -, htexts⟩ := (signProtocol S hlength).remote_refines (params.threshold + 1)
    (signerInput build params.threshold key msg coins uuid) uuid (fun _ => rfl) (fun _ => rfl) (fun _ => rfl) limit
    hrun
  have hsigning : Signing hlength (fun _ => false) build params.threshold key msg coins uuid net :=
    signing_of_run S build _ key msg coins uuid hnet
  obtain ⟨hone, hverifies⟩ := verifies_of_sessions keygen_laws sharing key_laws sign_laws outputs hneg
    (keygen_of_run hkeygen) hparty (fun p hp => hkeys _ _ (hkey p hp)) hsigning
  refine ⟨fun p q text text' hp hq => hone p q text text' (htexts p text hp) (htexts q text' hq),
    fun p text hp => ?_⟩
  obtain ⟨sig, htext, hvalid⟩ := hverifies p text (htexts p text hp)
  exact ⟨sig, htext, fun b key_text out hb hout => hvalid b key_text out (hkeys b key_text hb) hout⟩

end Main

/-! ### Two parties over HTTP -/

/-- Both parties of a key generation can return over HTTP. -/
theorem two_keys_over_http :
    letI := AEAD.plain
    letI := compact
    ∃ limit actions remote,
      Machine.exec (Remote.step (ApiCommunity.api limit))
        ((keygenProtocol KeygenLibrary.small).startRemote 2 (partyInput ⟨1, 2⟩ (fun _ _ => (1 : Nat)) "keygen"))
        actions = some remote ∧
      ∀ p ∈ Finset.Icc 1 2, remote.output (3 - p) = some (keyOfTwo p) := by
  let _ := AEAD.plain
  let _ := compact
  obtain ⟨keygen_net, hkeygen, hkey⟩ := keygenOfTwo_returns
  obtain ⟨limit, actions, remote, hremote, hresults⟩ := ((keygenProtocol KeygenLibrary.small).same_outcomes 2
    (partyInput ⟨1, 2⟩ (fun _ _ => (1 : Nat)) "keygen") "keygen" (fun _ => rfl) (fun _ => rfl) (fun _ => rfl)
    keygen_net.output).mpr ⟨_, keygen_net, hkeygen, fun _ _ h => h⟩
  exact ⟨limit, actions, remote, hremote, fun p hp => hresults _ _ (hkey p hp)⟩

/-- Both signers return a signature under the public key of the key generation. -/
theorem two_parties_sign_over_http :
    letI := AEAD.plain
    letI := Serde.numeric Nat
    letI := Serde.numeric (ZMod 3)
    letI := compact
    ∃ (limit : Nat) (keygen_actions actions : List (Remote.Action Nat))
      (keygen_remote : Remote Nat String String (KeygenNote (ZMod 3)) String Response)
      (remote : Remote Nat String String (SignNote SignLibrary.weighted) String Response) (text : String),
      Machine.exec (Remote.step (ApiCommunity.api limit))
        (startRemoteKeygens (L := KeygenLibrary.small) ⟨1, 2⟩ (fun _ _ => (1 : Nat)) "keygen") keygen_actions =
          some keygen_remote ∧
      Machine.exec (Remote.step (ApiCommunity.api limit))
        (startRemoteSigners SignLibrary.weighted .release 1 keyOfTwo "messages" (fun p _ => (p - 1 : Nat))
          "session") actions = some remote ∧
      remote.output 1 = some text ∧ remote.output 2 = some text ∧
        RemoteVerifies SignLibrary.weighted "messages" (fun P : ZMod 3 => P * P) 1 keygen_remote text := by
  let _ := AEAD.plain
  let _ := Serde.numeric Nat
  let _ := Serde.numeric (ZMod 3)
  let _ := compact
  obtain ⟨keygen_net, hkeygen, hkey⟩ := keygenOfTwo_returns
  obtain ⟨net, text, text', hnet, htext, htext'⟩ := signingOfTwo_returns
  obtain ⟨least, hkeygen⟩ := (keygenProtocol KeygenLibrary.small).remote_of_run 2
    (partyInput ⟨1, 2⟩ (fun _ _ => (1 : Nat)) "keygen") "keygen" (fun _ => rfl) (fun _ => rfl) (fun _ => rfl) hkeygen
  obtain ⟨least', hsigners⟩ := (signProtocol SignLibrary.weighted fun sign_keys alpha_vec beta_vec delta_i hdelta =>
      (SignLibrary.weighted_laws.phase2_delta sign_keys alpha_vec beta_vec delta_i hdelta).1).remote_of_run 2
    (signerInput .release 1 keyOfTwo "messages" (fun p _ => (p - 1 : Nat)) "session") "session" (fun _ => rfl)
    (fun _ => rfl) (fun _ => rfl) hnet
  obtain ⟨keygen_actions, keygen_remote, hkeygen_run, -, hkeys⟩ := hkeygen (max least least') (le_max_left _ _)
  obtain ⟨actions, remote, hrun, -, htexts⟩ := hsigners (max least least') (le_max_right _ _)
  obtain ⟨hagree, hverifies⟩ := remote_signatures_verify small_laws small_sharing SignLibrary.weighted_keyLaws
    SignLibrary.weighted_laws SignLibrary.weighted_output (fun P => neg_mul_neg P P) _ _ "keygen" _ keygen_remote
    hkeygen_run (fun p => 3 - p) keyOfTwo other_party_inj (fun p hp => (hkeys _).trans (hkey p hp)) .release
    "messages" (fun p _ => (p - 1 : Nat)) "session" _ remote hrun
  have htext := (htexts 1).trans htext
  obtain rfl := hagree 1 2 text text' htext ((htexts 2).trans htext')
  exact ⟨_, keygen_actions, actions, keygen_remote, remote, text, hkeygen_run, hrun, htext,
    (htexts 2).trans htext', hverifies 1 text htext⟩

end Gg18
