import MultiPartyTss.Server.KeyRequests

/-!
# The gateway and its nodes

The gateway posts to the `/keys` and `/sign` routes of nodes that are servers of the same program, each with
its own runs of `Server.KeyStore`. What the gateway reads of a successful exchange is an answer that a request
of the called node has given. So the keys of `gen_keys` can be looked up by their indices at their nodes ever
after (`gateway_keys_found`), and what `sign_message` returns is a signature of the message under the public
key that was asked for, although it takes the first answer for all (`gateway_signatures_verify`).
-/

namespace Server

open Gg18 (KeygenLibrary SignLibrary VerifyLaws)
open Gg20 (SignMachines SignatureRecid)
open Gg20.Gateway KeyStore Results

/-- The JSON of the answers. -/
structure Bodies where
  keyBody : KeyBody → String
  signatureBody : SignatureBody → String
  /-- `serde_json::from_str`. -/
  decodeKey : String → Except String PubKey
  decodeSig : String → Except String Sig

/-- What `serde_json` reads of the fields, if it does: a number may be out of range. -/
structure Bodies.Lawful (bodies : Bodies) : Prop where
  key : ∀ b key, bodies.decodeKey (bodies.keyBody b) = .ok key →
    key = ⟨b.index, b.key, b.pub_key, b.parties, b.threshold⟩
  signature : ∀ b sig, bodies.decodeSig (bodies.signatureBody b) = .ok sig →
    sig = ⟨b.pub_key, b.parties, b.signature⟩

/-- A successful answer to a call of `gen_keys` comes from a request of the node, with the body of the call. -/
def KeysServed (bodies : Bodies) (node : String → KeyStore) (calls : List KeyGenCall)
    (exchange : Nat → Option Fetched) : Prop :=
  ∀ call ∈ calls, ∀ text, exchange call.index = some (.response 200 text) →
    ∃ i answer, (node call.node).handler i =
      some (.keysAnswered ⟨call.index, call.parties, call.threshold⟩ (.ok answer)) ∧ text = bodies.keyBody answer

/-- A successful answer to a call of `sign_message` comes from a request of the node, with the body of the
call. -/
def SignServed (bodies : Bodies) (node : String → KeyStore) (calls : List SignCall)
    (exchange : Nat → Option Fetched) : Prop :=
  ∀ k call, calls[k]? = some call → ∀ text, exchange k = some (.response 200 text) →
    ∃ i answer, (node call.node).handler i =
      some (.signAnswered ⟨some call.index, call.pub_key, call.message, call.parties⟩ (.ok answer)) ∧
        text = bodies.signatureBody answer

section Cluster

variable {F G : Type} {L : KeygenLibrary F G} {S : SignLibrary L} {M : SignMachines F G} {T : KeyTexts M}
  {from_hex : String → Option Int} {Url : Type} {env : Environment Url} {config : String → Config}
  {store : String → StoreBuilder} {bodies : Bodies}

/-- What the gateway reads of an answer with a key, and where it is stored. -/
theorem answered_key (lawful : bodies.Lawful) {s : String → KeyStore} {calls : List KeyGenCall}
    {exchange : Nat → Option Fetched} (hordered : ∀ url, Ordered (s url))
    (hserved : KeysServed bodies s calls exchange)
    {call : KeyGenCall} (hcall : call ∈ calls) {key : PubKey}
    (hkey : Answered bodies.decodeKey (exchange call.index) key) :
    key.index = call.index ∧
      ∃ row, (s call.node).table.findByPubKey key.pub_key (some call.index) = some row := by
  obtain ⟨text, htext, hdecode⟩ := hkey
  obtain ⟨i, answer, hi, rfl⟩ := hserved call hcall text htext
  obtain rfl := lawful.key answer key hdecode
  exact ⟨((hordered call.node).stored i _ answer hi).1, (hordered call.node).found hi⟩

/-- What an answer of `gen_keys` is made of. -/
theorem genKeys_ok {decodeError : String → Option ErrorMsg} {decode : String → Except String PubKey}
    {room_id : String} {request : Gg20.Gateway.KeyGenReq} {exchange : Nat → Option Fetched}
    {calls : List KeyGenCall} {generated : GeneratedKeys}
    (hgen : genKeys decodeError decode room_id request exchange = some (calls, .ok generated)) :
    (∀ entry ∈ generated.keys, ∃ call ∈ calls, ∃ key, Answered decode (exchange call.index) key ∧
        entry = key.entry call.node) ∧
      ∀ pub_key, (∀ call ∈ calls, ∀ key, Answered decode (exchange call.index) key → key.pub_key = pub_key) →
        generated.keys ≠ [] → generated.pub_key = pub_key := by
  rw [genKeys_eq] at hgen
  obtain ⟨rfl, hresult⟩ := Prod.mk.inj (Option.some.inj hgen)
  split_ifs at hresult
  obtain rfl := Except.ok.inj hresult
  have hmem : ∀ ret ∈ oks ((request.calls room_id).map (keyResult decodeError decode exchange)),
      ∃ call ∈ request.calls room_id, ∃ key, Answered decode (exchange call.index) key ∧ ret = (key, call.node) := by
    intro ret hret
    obtain ⟨call, hcall, hok⟩ := List.mem_map.mp (mem_oks_iff.mp hret)
    obtain ⟨key, hkey, rfl⟩ := keyResult_ok_iff.mp hok
    exact ⟨call, hcall, key, hkey, rfl⟩
  refine ⟨fun entry hentry => ?_, fun pub_key hall hne => ?_⟩
  · obtain ⟨ret, hret, rfl⟩ := List.mem_map.mp hentry
    obtain ⟨call, hcall, key, hkey, rfl⟩ := hmem ret hret
    exact ⟨call, hcall, key, hkey, rfl⟩
  · obtain ⟨ret, hret⟩ := List.exists_mem_of_ne_nil _ fun hnil => hne (congrArg (List.map _) hnil)
    have hsame : ∀ text ∈ (oks ((request.calls room_id).map (keyResult decodeError decode exchange))).map
        (fun key => key.1.pub_key), text = pub_key := by
      intro text htext
      obtain ⟨ret, hret, rfl⟩ := List.mem_map.mp htext
      obtain ⟨call, hcall, key, hkey, rfl⟩ := hmem ret hret
      exact hall call hcall key hkey
    have hfirst := List.mem_map_of_mem (f := fun key : PubKey × String => key.1.pub_key) hret
    exact getLastD_of_forall (hsame _ hfirst ▸ hfirst) hsame

/-- The keys of an answer of `gen_keys`: in every later state of the nodes, each is found by its index under the
public key that its node has reported; and if they have all reported one public key, under that of the answer. -/
theorem gateway_keys_found (lawful : bodies.Lawful) (decodeError : String → Option ErrorMsg) (room_id : String)
    (request : Gg20.Gateway.KeyGenReq) (exchange : Nat → Option Fetched) (calls : List KeyGenCall)
    (generated : GeneratedKeys)
    (hgen : genKeys decodeError bodies.decodeKey room_id request exchange = some (calls, .ok generated))
    (actions later : String → List (Action M)) (s t : String → KeyStore)
    (hs : ∀ url, Machine.exec (step S T from_hex env (config url) (store url)) start (actions url) = some (s url))
    (ht : ∀ url, Machine.exec (step S T from_hex env (config url) (store url)) (s url) (later url) = some (t url))
    (hserved : KeysServed bodies s calls exchange) :
    (∀ entry ∈ generated.keys, ∃ key, (∃ call ∈ calls, call.node = entry.node ∧
        Answered bodies.decodeKey (exchange call.index) key) ∧
      ∃ row, (t entry.node).table.findByPubKey key.pub_key (some entry.index) = some row) ∧
      ∀ pub_key, (∀ call ∈ calls, ∀ key, Answered bodies.decodeKey (exchange call.index) key →
          key.pub_key = pub_key) → ∀ entry ∈ generated.keys,
        ∃ row, (t entry.node).table.findByPubKey generated.pub_key (some entry.index) = some row := by
  have hordered : ∀ url, Ordered (s url) := fun url => ordered_of_run start_ordered (hs url)
  obtain ⟨hentries, hpub_key⟩ := genKeys_ok hgen
  have hfound : ∀ entry ∈ generated.keys, ∃ call ∈ calls, ∃ key, call.node = entry.node ∧
      Answered bodies.decodeKey (exchange call.index) key ∧
        ∃ row, (t entry.node).table.findByPubKey key.pub_key (some entry.index) = some row := by
    intro entry hentry
    obtain ⟨call, hcall, key, hkey, rfl⟩ := hentries entry hentry
    obtain ⟨hindex, row, hrow⟩ := answered_key lawful hordered hserved hcall hkey
    rw [← hindex] at hrow
    exact ⟨call, hcall, key, rfl, hkey, row,
      (since_of_run (ht call.node)).found (ordered_of_run (hordered call.node) (ht call.node)) hrow⟩
  refine ⟨fun entry hentry => ?_, fun pub_key hagree entry hentry => ?_⟩
  · obtain ⟨call, hcall, key, hnode, hkey, hrow⟩ := hfound entry hentry
    exact ⟨key, ⟨call, hcall, hnode, hkey⟩, hrow⟩
  · obtain ⟨call, hcall, key, -, hkey, hrow⟩ := hfound entry hentry
    rw [hpub_key pub_key hagree (List.ne_nil_of_mem hentry), ← hagree call hcall key hkey]
    exact hrow

/-- What an answer of `sign_message` is made of: the first call, and its signature. -/
theorem signMessage_ok {decodeError : String → Option ErrorMsg} {debug : List String → String}
    {decode : String → Except String Sig} {room_id : String} {request : KeySignReq}
    {exchange : Nat → Option Fetched} {signed : SignedMessage}
    (hsigned : (signMessage decodeError debug decode room_id request exchange).2 = some (.ok signed)) :
    ∃ key sig, (signMessage decodeError debug decode room_id request exchange).1[0]? =
        some (request.call room_id key) ∧
      Answered decode (exchange 0) sig ∧ signed = ⟨request.pub_key, request.message, sig.signature⟩ := by
  by_cases hlong : 64 < request.message.utf8ByteSize
  · rw [signMessage, if_pos hlong] at hsigned
    cases hsigned
  · have hshort : request.message.utf8ByteSize ≤ 64 := Nat.le_of_not_lt hlong
    obtain ⟨-, key, -, -, hcall, sig, hsig, heq⟩ := (signMessage_signs hshort).success signed hsigned
    exact ⟨key, sig, hcall, hsig, heq⟩

section Signatures

variable [Field F] [AddCommGroup G] [Module F G] {xCoord : G → F} {g : G}

/-- What `sign_message` returns: whatever the nodes have come to, however their answers differ, it is a signature of
the requested message under the requested public key. -/
theorem gateway_signatures_verify (laws : VerifyLaws S xCoord g) (texts : TextLaws T) (lawful : bodies.Lawful)
    (actions : String → List (Action M)) (s : String → KeyStore)
    (hs : ∀ url, Machine.exec (step S T from_hex env (config url) (store url)) start (actions url) = some (s url))
    (decodeError : String → Option ErrorMsg) (debug : List String → String) (room_id : String)
    (request : KeySignReq) (exchange : Nat → Option Fetched)
    (hserved : SignServed bodies s
      (signMessage decodeError debug bodies.decodeSig room_id request exchange).1 exchange)
    (signed : SignedMessage)
    (hsigned : (signMessage decodeError debug bodies.decodeSig room_id request exchange).2 = some (.ok signed)) :
    signed.pub_key = request.pub_key ∧ signed.message = request.message ∧
      ∃ (pk : G) (v : Int) (sig : SignatureRecid F), T.partyKeyCompressPubHex pk = some request.pub_key ∧
        from_hex request.message = some v ∧ signed.signature = Gg20.Sign.render S sig ∧
          Ecdsa.Valid xCoord g pk (v.natAbs : F) sig.r sig.s := by
  obtain ⟨key, sig, hcall, ⟨text, htext, hdecode⟩, rfl⟩ := signMessage_ok hsigned
  obtain ⟨i, answer, hi, rfl⟩ := hserved 0 _ hcall text htext
  obtain rfl := lawful.signature answer sig hdecode
  obtain ⟨-, -, hvalid⟩ := (exec_inv laws texts (hs key.node)).handlers i _ hi
  exact ⟨rfl, rfl, hvalid⟩

end Signatures

end Cluster

/-! ### One server as all nodes -/

namespace Bodies

open Json

def keyJson (b : KeyBody) : Object :=
  [("index", .number b.index), ("key", .string b.key), ("parties", .number b.parties),
    ("pub_key", .string b.pub_key), ("threshold", .number b.threshold)]

def keyFrom (o : Object) : Option PubKey := do
  let index ← o.number U16.size "index"
  let key ← o.string "key"
  let pub_key ← o.string "pub_key"
  let parties ← o.number U16.size "parties"
  let threshold ← o.number U16.size "threshold"
  return ⟨index, key, pub_key, parties, threshold⟩

/-- The list is there by its code. -/
def signatureJson (b : SignatureBody) : Object :=
  [("parties", .number (Encodable.encode b.parties)), ("pub_key", .string b.pub_key),
    ("signature", .string b.signature)]

def signatureFrom (o : Object) : Option Sig := do
  let pub_key ← o.string "pub_key"
  let code ← match o.field "parties" with
    | some (.number n) => some n
    | _ => none
  let parties ← Encodable.decode code
  let signature ← o.string "signature"
  return ⟨pub_key, parties, signature⟩

def reading {α : Type} (fromJson : Object → Option α) (text : String) : Except String α :=
  match (parse text.toList).bind fromJson with
  | some a => .ok a
  | none => .error "expected value at line 1 column 1"

def compact : Bodies where
  keyBody b := String.ofList (render (keyJson b))
  signatureBody b := String.ofList (render (signatureJson b))
  decodeKey := reading keyFrom
  decodeSig := reading signatureFrom

theorem reading_eq {α : Type} {fromJson : Object → Option α} {o : Object} {a : α}
    (h : reading fromJson (String.ofList (render o)) = .ok a) : fromJson o = some a := by
  rw [reading, String.toList_ofList, parse_render, Option.bind_some] at h
  split at h
  · rename_i hread
    rw [hread, Except.ok.inj h]
  · cases h

theorem keyFrom_keyJson {b : KeyBody} {key : PubKey} :
    keyFrom (keyJson b) = some key ↔ b.index < U16.size ∧ b.parties < U16.size ∧ b.threshold < U16.size ∧
      ⟨b.index, b.key, b.pub_key, b.parties, b.threshold⟩ = key := by
  simp [keyFrom, keyJson, Object.string, Object.number, Object.field, Option.bind_eq_some_iff]

theorem signatureFrom_signatureJson (b : SignatureBody) :
    signatureFrom (signatureJson b) = some ⟨b.pub_key, b.parties, b.signature⟩ := by
  simp [signatureFrom, signatureJson, Object.string, Object.field]

theorem compact_lawful : compact.Lawful where
  key b key h := by
    simp only [compact] at h
    obtain ⟨-, -, -, heq⟩ := keyFrom_keyJson.mp (reading_eq h)
    exact heq.symm
  signature b sig h := by
    simp only [compact] at h
    have hfrom := reading_eq h
    rw [signatureFrom_signatureJson, Option.some.injEq] at hfrom
    exact hfrom.symm

end Bodies

/-- The keys of two parties, at requests 0 and 1. -/
def twoKeys : List (Action checkedMachines) :=
  generateActions 0 1 1 ++ generateActions 1 2 1 ++ [.create 0, .create 1]

def keyAnswer : Handler → Option (KeyGenReq × KeyBody)
  | .keysAnswered req (.ok body) => some (req, body)
  | _ => none

theorem eq_of_keyAnswer {h : Handler} {req : KeyGenReq} {body : KeyBody} (hanswer : keyAnswer h = some (req, body)) :
    h = .keysAnswered req (.ok body) := by
  unfold keyAnswer at hanswer
  split at hanswer
  · cases hanswer
    rfl
  · cases hanswer

def firstAnswer : KeyBody := ⟨"1", "01", 1, 1, 2⟩

def secondAnswer : KeyBody := ⟨"1", "01", 2, 1, 2⟩

/-- The answers that `gen_keys` is sent. -/
def keysFetched (index : Nat) : Option Fetched :=
  some (.response 200 (Bodies.compact.keyBody (if index = 1 then firstAnswer else secondAnswer)))

def twoNodes : Gg20.Gateway.KeyGenReq := ⟨1, ["http://a", "http://a"]⟩

def twoCalls : List KeyGenCall := [⟨"room", 1, 2, 1, "http://a"⟩, ⟨"room", 1, 2, 2, "http://a"⟩]

theorem two_keys_found :
    ∃ s t generated, sampleRun start twoKeys = some s ∧ sampleRun s (signActions 2 (some 1)) = some t ∧
      genKeys (fun _ => none) Bodies.compact.decodeKey "room" twoNodes keysFetched =
        some (twoCalls, .ok generated) ∧
      generated.keys.length = 2 ∧ ∀ entry ∈ generated.keys,
        ∃ row, t.table.findByPubKey generated.pub_key (some entry.index) = some row := by
  have hrun : ((sampleRun start twoKeys).bind fun s =>
      (sampleRun s (signActions 2 (some 1))).map fun _ =>
        ((s.handler 0).bind keyAnswer, (s.handler 1).bind keyAnswer)) =
      some (some (⟨1, 2, 1⟩, firstAnswer), some (⟨2, 2, 1⟩, secondAnswer)) := by
    decide +kernel
  have hgen : genKeys (fun _ => none) Bodies.compact.decodeKey "room" twoNodes keysFetched =
      some (twoCalls, .ok ⟨"01", [⟨1, 2, 1, "http://a"⟩, ⟨2, 2, 1, "http://a"⟩]⟩) := by
    decide +kernel
  obtain ⟨s, hs, hrun⟩ := Option.bind_eq_some_iff.mp hrun
  obtain ⟨t, ht, hanswers⟩ := Option.map_eq_some_iff.mp hrun
  obtain ⟨hfirst, hsecond⟩ := Prod.mk.inj hanswers
  obtain ⟨h, hzero, hfirst⟩ := Option.bind_eq_some_iff.mp hfirst
  obtain ⟨h', hone, hsecond⟩ := Option.bind_eq_some_iff.mp hsecond
  have hserved : KeysServed Bodies.compact (fun _ => s) twoCalls keysFetched := by
    intro call hcall text htext
    simp only [twoCalls, List.mem_cons, List.not_mem_nil, or_false] at hcall
    obtain rfl | rfl := hcall <;> cases htext
    · exact ⟨0, firstAnswer, hzero.trans (congrArg some (eq_of_keyAnswer hfirst)), rfl⟩
    · exact ⟨1, secondAnswer, hone.trans (congrArg some (eq_of_keyAnswer hsecond)), rfl⟩
  have hdecoded : ∀ call ∈ twoCalls, ∀ key,
      Answered Bodies.compact.decodeKey (keysFetched call.index) key → key.pub_key = "01" := by
    rintro call - key ⟨text, htext, hdecode⟩
    cases htext
    rw [Bodies.compact_lawful.key _ key hdecode]
    split_ifs <;> rfl
  refine ⟨s, t, _, hs, ht, hgen, rfl, ?_⟩
  exact (gateway_keys_found Bodies.compact_lawful _ _ _ _ _ _ hgen (fun _ => twoKeys)
    (fun _ => signActions 2 (some 1)) (fun _ => s) (fun _ => t) (fun _ => hs) (fun _ => ht) hserved).2 "01" hdecoded

/-- The keys are signed with, by requests 2 and 3. -/
def twoSignatures : List (Action checkedMachines) := twoKeys ++ signActions 2 (some 1) ++ signActions 3 (some 2)

/-- The answers that `sign_message` is sent. -/
def signaturesFetched (s : KeyStore) (k : Nat) : Option Fetched :=
  ((s.handler (2 + k)).bind signedAnswer).map fun answer => .response 200 (Bodies.compact.signatureBody answer.2)

def twoSigners : KeySignReq := ⟨"01", "4", [⟨2, 2, 1, "http://a"⟩, ⟨1, 2, 1, "http://a"⟩]⟩

/-- What `sign_message` makes of the answers. -/
def gatewaySigned (s : KeyStore) : List SignCall × Option (Except ApiError SignedMessage) :=
  signMessage (fun _ => none) (String.intercalate ", ") Bodies.compact.decodeSig "room" twoSigners
    (signaturesFetched s)

/-- The requests for a signature that have been answered. -/
def signedRequest (s : KeyStore) (k : Nat) : Option PubKeySignReq :=
  ((s.handler (2 + k)).bind signedAnswer).map Prod.fst

theorem signaturesFetched_answered {s : KeyStore} {k : Nat} {text : String}
    (htext : signaturesFetched s k = some (.response 200 text)) :
    ∃ req answer, signedRequest s k = some req ∧ s.handler (2 + k) = some (.signAnswered req (.ok answer)) ∧
      text = Bodies.compact.signatureBody answer := by
  obtain ⟨⟨req, answer⟩, hanswer, heq⟩ := Option.map_eq_some_iff.mp htext
  cases heq
  have hreq : signedRequest s k = some req := congrArg (Option.map Prod.fst) hanswer
  obtain ⟨h, hi, hsigned⟩ := Option.bind_eq_some_iff.mp hanswer
  exact ⟨req, answer, hreq, hi.trans (congrArg some (eq_of_signedAnswer hsigned)), rfl⟩

theorem two_keys_sign :
    ∃ s signed, sampleRun start twoSignatures = some s ∧ (gatewaySigned s).2 = some (.ok signed) ∧
      signed.pub_key = "01" ∧ signed.message = "4" ∧
      ∃ (pk : ZMod 3) (v : Int) (sig : SignatureRecid (ZMod 3)),
        checkedTexts.partyKeyCompressPubHex pk = some "01" ∧ Gg20.Sign.parseHex "4" = some v ∧
          signed.signature = Gg20.Sign.render SignLibrary.checked sig ∧
          Ecdsa.Valid (fun P : ZMod 3 => P * P) 1 pk (v.natAbs : ZMod 3) sig.r sig.s := by
  have hrun : ((sampleRun start twoSignatures).map fun s =>
      (((gatewaySigned s).2.bind Except.toOption).isSome, signedRequest s 0, signedRequest s 1)) =
      some (true, some ⟨some 1, "01", "4", [1, 2]⟩, some ⟨some 2, "01", "4", [1, 2]⟩) := by
    decide +kernel
  obtain ⟨s, hs, hanswers⟩ := Option.map_eq_some_iff.mp hrun
  obtain ⟨hsome, hrequests⟩ := Prod.mk.inj hanswers
  obtain ⟨hfirst, hsecond⟩ := Prod.mk.inj hrequests
  obtain ⟨signed, hsigned⟩ := Option.isSome_iff_exists.mp hsome
  obtain ⟨result, hresult, hsigned⟩ := Option.bind_eq_some_iff.mp hsigned
  cases result with
  | error e => cases hsigned
  | ok signed' =>
    cases hsigned
    have hnodes : twoSigners.sorted.map (twoSigners.call "room") =
        [⟨"room", "01", [1, 2], 1, "http://a", "4"⟩, ⟨"room", "01", [1, 2], 2, "http://a", "4"⟩] := by
      decide +kernel
    have hserved : SignServed Bodies.compact (fun _ => s) (gatewaySigned s).1 (signaturesFetched s) := by
      intro k call hcall text htext
      obtain ⟨req, answer, hreq, hi, rfl⟩ := signaturesFetched_answered htext
      refine ⟨2 + k, answer, ?_, rfl⟩
      rw [gatewaySigned, signMessage_eq (by decide), hnodes] at hcall
      obtain _ | _ | k := k <;> cases hcall
      · rw [hfirst, Option.some.injEq] at hreq
        rw [hi, ← hreq]
      · rw [hsecond, Option.some.injEq] at hreq
        rw [hi, ← hreq]
    exact ⟨s, signed, hs, hresult, gateway_signatures_verify SignLibrary.checked_laws checkedTexts_laws
      Bodies.compact_lawful (fun _ => twoSignatures) (fun _ => s) (fun _ => hs) _ _ _ twoSigners _ hserved signed
      hresult⟩

end Server
