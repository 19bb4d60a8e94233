import Mathlib.Data.List.Sort
import MultiPartyTss.Lib.Results
import MultiPartyTss.Lib.Slots
import MultiPartyTss.Lib.U16

/-!
# The gateway

The gateway posts a key generation or a signing to a list of nodes and puts their answers together. What
comes of each exchange is arbitrary; `exchange i` is that of the `i`-th call. The delay before a call and the
length of its timeout are left out: an exchange that takes too long is `none`. `genKeys_sound_iff` says for
which node lists and answers a generated key can be relied on: the node count is narrowed to 16 bits, and
the last public key stands for all. `signMessage_spec` is what a signing of the gateway guarantees.
-/

namespace Gg20

namespace Gateway

open Results

structure ErrorMsg where
  error : String

structure KeyGenReq where
  threshold : Nat
  nodes : List String

structure PubKey where
  index : Nat
  key : String
  pub_key : String
  parties : Nat
  threshold : Nat
  deriving DecidableEq

structure PubKeyIndex where
  index : Nat
  parties : Nat
  threshold : Nat
  node : String
  deriving DecidableEq

structure KeySignReq where
  pub_key : String
  message : String
  nodes : List PubKeyIndex

structure Sig where
  pub_key : String
  parties : List Nat
  signature : String
  deriving DecidableEq

/-- `ApiError` by its text; the answer of the server is a 400 or a 500. -/
inductive ApiError where
  | badRequest (text : String)
  | unknown (text : String)
  deriving DecidableEq

/-- How an HTTP exchange ends. -/
inductive Fetched where
  | badUrl
  | encode (e : String)
  | send (e : String)
  | read (e : String)
  | response (status : Nat) (body : String)

/-- `tokio::time::timeout`; `none` is an exchange that takes too long. -/
def timeout {α : Type} (request : Fetched → Except String α) : Option Fetched → Except String α
  | some fetched => request fetched
  | none => .error "deadline has elapsed"

/-- The texts in which the requests of the gateway differ. -/
structure Texts where
  badUrl : String
  send : String → String
  decode : String → String
  compute : String → String

/-- A request to a node: what it makes of the exchange. -/
def readAnswer {α : Type} (texts : Texts) (decodeError : String → Option ErrorMsg)
    (decode : String → Except String α) (node : String) : Fetched → Except String (α × String)
  | .badUrl => .error texts.badUrl
  | .encode e | .read e => .error e
  | .send e => .error (texts.send e)
  | .response 200 body =>
    match decode body with
    | .ok a => .ok (a, node)
    | .error e => .error (texts.decode e)
  | .response 502 _ => .error ("failed to connect the endpoint " ++ node)
  | .response _ body =>
    match decodeError body with
    | some error => .error (texts.compute error.error)
    | none => .error "failed to decode the error body"

/-- The result of a joined future, whose error names the node. -/
def labelled {α : Type} (failed node : String) : Except String α → Except String α
  | .error e => .error ("node " ++ node ++ failed ++ e)
  | .ok ret => .ok ret

/-! ### Key generation -/

/-- The arguments of a call of `request_key_gen`, without the delay. -/
structure KeyGenCall where
  room_id : String
  threshold : Nat
  parties : Nat
  index : Nat
  node : String
  deriving DecidableEq

structure GeneratedKeys where
  pub_key : String
  keys : List PubKeyIndex
  deriving DecidableEq

section Decoders

variable (decodeError : String → Option ErrorMsg)

def requestKeyGen (decode : String → Except String PubKey) (node : String) :
    Fetched → Except String (PubKey × String) :=
  readAnswer ⟨"url parse failed", id, fun e => "failed to decode the body " ++ e,
    fun error => "failed to compute the key " ++ error⟩ decodeError decode node

/-- The result of one of the joined futures of `gen_keys`. -/
def keyResult (decode : String → Except String PubKey) (exchange : Nat → Option Fetched) (call : KeyGenCall) :
    Except String (PubKey × String) :=
  labelled " compute the key failed " call.node
    (timeout (requestKeyGen decodeError decode call.node) (exchange call.index))

def PubKey.entry (key : PubKey) (node : String) : PubKeyIndex := ⟨key.index, key.parties, key.threshold, node⟩

/-- The variables that `gen_keys` collects the results in. -/
structure Keys where
  pub_keys : List PubKeyIndex
  errors : List String
  pub_key : String

def Keys.push (acc : Keys) : Except String (PubKey × String) → Keys
  | .ok key => { acc with pub_key := key.1.pub_key, pub_keys := acc.pub_keys ++ [key.1.entry key.2] }
  | .error e => { acc with errors := acc.errors ++ [e] }

/-- `nodes.len() as u16`. -/
def KeyGenReq.parties (request : KeyGenReq) : Nat := request.nodes.length % U16.size

/-- The call for an index; `none` is an index out of bounds. -/
def KeyGenReq.call (request : KeyGenReq) (room_id : String) (index : Nat) : Option KeyGenCall :=
  request.nodes[index - 1]?.map fun node => ⟨room_id, request.threshold, request.parties, index, node⟩

/-- `gen_keys`, with the calls it makes; `none` is a panic. -/
def genKeys (decode : String → Except String PubKey) (room_id : String) (request : KeyGenReq)
    (exchange : Nat → Option Fetched) : Option (List KeyGenCall × Except ApiError GeneratedKeys) := do
  let calls ← (List.range' 1 request.parties).mapM (request.call room_id)
  let keys := calls.map (keyResult decodeError decode exchange)
  let acc := keys.foldl Keys.push ⟨[], [], ""⟩
  if 0 < acc.errors.length then
    some (calls, .error (.unknown ("failed to generate key: " ++ String.intercalate " \n " acc.errors)))
  else some (calls, .ok ⟨acc.pub_key, acc.pub_keys⟩)

/-! ### Signing -/

/-- The arguments of a call of `request_sign_message`, without the delay. -/
structure SignCall where
  room_id : String
  pub_key : String
  parties : List Nat
  index : Nat
  node : String
  message : String
  deriving DecidableEq

structure SignedMessage where
  pub_key : String
  message : String
  signature : String
  deriving DecidableEq

def requestSignMessage (decode : String → Except String Sig) (node : String) :
    Fetched → Except String (Sig × String) :=
  readAnswer ⟨"build url failed", fun e => "fetch from node " ++ node ++ " " ++ e,
    fun e => "failed to decode the body " ++ node ++ " " ++ e,
    fun error => "failed to compute the key " ++ node ++ " " ++ error⟩ decodeError decode node

/-- The result of one of the joined futures of `sign_message`. -/
def signResult (decode : String → Except String Sig) (call : SignCall) (fetched : Option Fetched) :
    Except String (Sig × String) :=
  labelled " compute the signature failed " call.node
    (timeout (requestSignMessage decodeError decode call.node) fetched)

structure Signatures where
  signatures : List Sig
  errors : List String

def Signatures.push (acc : Signatures) : Except String (Sig × String) → Signatures
  | .ok item => { acc with signatures := acc.signatures ++ [item.1] }
  | .error e => { acc with errors := acc.errors ++ [e] }

def PubKeyIndex.Le (a b : PubKeyIndex) : Prop := a.index ≤ b.index

instance : DecidableRel PubKeyIndex.Le := fun a b => Nat.decLe a.index b.index

/-- The nodes in the order of their indices; the sort is stable. -/
def KeySignReq.sorted (request : KeySignReq) : List PubKeyIndex := request.nodes.insertionSort PubKeyIndex.Le

def KeySignReq.parties (request : KeySignReq) : List Nat := request.sorted.map PubKeyIndex.index

def KeySignReq.call (request : KeySignReq) (room_id : String) (key : PubKeyIndex) : SignCall :=
  ⟨room_id, request.pub_key, request.parties, key.index, key.node, request.message⟩

/-- `sign_message`, with the calls it makes; `none` is a panic. `debug` is the `{:?}` of a vector of texts. -/
def signMessage (debug : List String → String) (decode : String → Except String Sig) (room_id : String)
    (request : KeySignReq) (exchange : Nat → Option Fetched) :
    List SignCall × Option (Except ApiError SignedMessage) :=
  if 64 < request.message.utf8ByteSize then
    ([], some (.error (.badRequest
      ("the message length over 64 bytes " ++ toString request.message.utf8ByteSize))))
  else
    let calls := request.sorted.map (request.call room_id)
    let result := calls.mapIdx fun i call => signResult decodeError decode call (exchange i)
    let acc := result.foldl Signatures.push ⟨[], []⟩
    if 0 < acc.errors.length then (calls, some (.error (.unknown (debug acc.errors))))
    else
      (calls, acc.signatures.head?.map fun sig => .ok ⟨request.pub_key, request.message, sig.signature⟩)

end Decoders

/-! ### What the loops collect -/

theorem foldl_keys_push (results : List (Except String (PubKey × String))) (acc : Keys) :
    results.foldl Keys.push acc =
      ⟨acc.pub_keys ++ (oks results).map fun key => key.1.entry key.2, acc.errors ++ errors results,
        ((oks results).map fun key => key.1.pub_key).getLastD acc.pub_key⟩ := by
  induction results generalizing acc with
  | nil => simp
  | cons r results ih =>
    rw [List.foldl_cons, ih]
    cases r with
    | ok key => simp only [Keys.push, oks_ok, errors_ok, List.map_cons, List.append_assoc, List.singleton_append,
        List.getLastD_cons]
    | error e => simp only [Keys.push, oks_error, errors_error, List.append_assoc, List.singleton_append]

theorem foldl_signatures_push (results : List (Except String (Sig × String))) (acc : Signatures) :
    results.foldl Signatures.push acc =
      ⟨acc.signatures ++ (oks results).map Prod.fst, acc.errors ++ errors results⟩ := by
  induction results generalizing acc with
  | nil => simp
  | cons r results ih =>
    rw [List.foldl_cons, ih]
    cases r with
    | ok item => simp only [Signatures.push, oks_ok, errors_ok, List.map_cons, List.append_assoc,
        List.singleton_append]
    | error e => simp only [Signatures.push, oks_error, errors_error, List.append_assoc, List.singleton_append]

/-! ### Answers -/

/-- The node answered with a value. -/
def Answered {α : Type} (decode : String → Except String α) (fetched : Option Fetched) (a : α) : Prop :=
  ∃ body, fetched = some (.response 200 body) ∧ decode body = .ok a

theorem Answered.unique {α : Type} {decode : String → Except String α} {fetched : Option Fetched} {a a' : α}
    (h : Answered decode fetched a) (h' : Answered decode fetched a') : a = a' := by
  obtain ⟨body, rfl, ha⟩ := h
  obtain ⟨body', heq, ha'⟩ := h'
  cases heq
  rw [ha, Except.ok.injEq] at ha'
  exact ha'

theorem readAnswer_ok_iff {α : Type} {texts : Texts} {decodeError : String → Option ErrorMsg}
    {decode : String → Except String α} {node : String} {fetched : Fetched} {ret : α × String} :
    readAnswer texts decodeError decode node fetched = .ok ret ↔
      ∃ a, Answered decode (some fetched) a ∧ ret = (a, node) := by
  constructor
  · intro h
    unfold readAnswer at h
    split at h
    · cases h
    · cases h
    · cases h
    · cases h
    · rename_i body
      split at h
      · rename_i a ha
        cases h
        exact ⟨a, ⟨body, rfl, ha⟩, rfl⟩
      · cases h
    · cases h
    · split at h <;> cases h
  · rintro ⟨a, ⟨body, hfetched, ha⟩, rfl⟩
    cases hfetched
    simp [readAnswer, ha]

/-- The result of a call is an answer of its node. -/
theorem labelled_ok_iff {α : Type} {texts : Texts} {decodeError : String → Option ErrorMsg}
    {decode : String → Except String α} {failed node : String} {fetched : Option Fetched} {ret : α × String} :
    labelled failed node (timeout (readAnswer texts decodeError decode node) fetched) = .ok ret ↔
      ∃ a, Answered decode fetched a ∧ ret = (a, node) := by
  cases fetched with
  | some fetched =>
    rw [← readAnswer_ok_iff, timeout]
    cases readAnswer texts decodeError decode node fetched <;> simp [labelled]
  | none =>
    simp only [timeout, labelled, reduceCtorEq, false_iff]
    rintro ⟨a, ⟨body, heq, -⟩, -⟩
    cases heq

/-! ### Key generation -/

section KeyGeneration

variable {decodeError : String → Option ErrorMsg} {decode : String → Except String PubKey}
  {exchange : Nat → Option Fetched} {request : KeyGenReq} {room_id : String}

theorem keyResult_ok_iff {call : KeyGenCall} {ret : PubKey × String} :
    keyResult decodeError decode exchange call = .ok ret ↔
      ∃ key, Answered decode (exchange call.index) key ∧ ret = (key, call.node) := labelled_ok_iff

/-- The calls of `gen_keys`, one for each index up to the narrowed count. -/
def KeyGenReq.calls (request : KeyGenReq) (room_id : String) : List KeyGenCall :=
  (List.range' 1 request.parties).map fun index =>
    ⟨room_id, request.threshold, request.parties, index, request.nodes.getD (index - 1) ""⟩

theorem mapM_call (request : KeyGenReq) (room_id : String) :
    (List.range' 1 request.parties).mapM (request.call room_id) = some (request.calls room_id) := by
  refine Slots.mapM_eq fun index hindex => ?_
  rw [List.mem_range'_1] at hindex
  have hle : request.parties ≤ request.nodes.length := Nat.mod_le _ _
  have hlt : index - 1 < request.nodes.length := by omega
  simp [KeyGenReq.call, List.getElem?_eq_getElem hlt]

/-- `gen_keys` never panics: it refuses if a call failed, and otherwise returns what was collected. -/
theorem genKeys_eq (decodeError : String → Option ErrorMsg) (decode : String → Except String PubKey)
    (room_id : String) (request : KeyGenReq) (exchange : Nat → Option Fetched) :
    genKeys decodeError decode room_id request exchange =
      let results := (request.calls room_id).map (keyResult decodeError decode exchange)
      some (request.calls room_id,
        if 0 < (errors results).length then
          .error (.unknown ("failed to generate key: " ++ String.intercalate " \n " (errors results)))
        else .ok ⟨((oks results).map fun key => key.1.pub_key).getLastD "",
          (oks results).map fun key => key.1.entry key.2⟩) := by
  unfold genKeys
  rw [mapM_call]
  simp only [Option.bind_eq_bind, Option.bind_some, foldl_keys_push, List.nil_append]
  split_ifs <;> rfl

/-- What a caller relies on: every node was asked for its own position and answered, and the entries and
the public key are those of the answers. -/
structure KeysSound (decodeError : String → Option ErrorMsg) (decode : String → Except String PubKey)
    (room_id : String) (request : KeyGenReq) (exchange : Nat → Option Fetched) (calls : List KeyGenCall)
    (res : GeneratedKeys) : Prop where
  calls_eq : calls = request.nodes.mapIdx fun i node =>
    ⟨room_id, request.threshold, request.nodes.length, i + 1, node⟩
  entries : List.Forall₂ (fun call entry => ∃ key,
    keyResult decodeError decode exchange call = .ok (key, call.node) ∧ key.pub_key = res.pub_key ∧
      entry = key.entry call.node) calls res.keys

/-- `gen_keys` returns what can be relied on, or an error. -/
def GenKeysSound (decodeError : String → Option ErrorMsg) (decode : String → Except String PubKey)
    (room_id : String) (request : KeyGenReq) (exchange : Nat → Option Fetched) : Prop :=
  (∃ calls res, genKeys decodeError decode room_id request exchange = some (calls, .ok res) ∧
    KeysSound decodeError decode room_id request exchange calls res) ∨
  ∃ calls e, genKeys decodeError decode room_id request exchange = some (calls, .error e)

/-- A call that is made fails, or the count of the nodes is a `u16` and their answers name one public key. -/
def FailsOrAgrees (decode : String → Except String PubKey) (request : KeyGenReq)
    (exchange : Nat → Option Fetched) : Prop :=
  (∃ i, 1 ≤ i ∧ i ≤ request.parties ∧ ∀ key, ¬ Answered decode (exchange i) key) ∨
  (request.nodes.length < U16.size ∧ ∀ i j key key', 1 ≤ i → i ≤ request.nodes.length → 1 ≤ j →
    j ≤ request.nodes.length → Answered decode (exchange i) key → Answered decode (exchange j) key' →
      key.pub_key = key'.pub_key)

theorem mem_calls {call : KeyGenCall} (h : call ∈ request.calls room_id) :
    1 ≤ call.index ∧ call.index ≤ request.parties := by
  obtain ⟨index, hindex, rfl⟩ := List.mem_map.mp h
  rw [List.mem_range'_1] at hindex
  exact ⟨hindex.1, by simp only; omega⟩

theorem call_of_index (room_id : String) {i : Nat} (hpos : 1 ≤ i) (hle : i ≤ request.parties) :
    ∃ call ∈ request.calls room_id, call.index = i := by
  refine ⟨_, List.mem_map.mpr ⟨i, ?_, rfl⟩, rfl⟩
  rw [List.mem_range'_1]
  omega

/-- Some call has no answer exactly if there is an error. -/
theorem errors_ne_nil_iff :
    errors ((request.calls room_id).map (keyResult decodeError decode exchange)) ≠ [] ↔
      ∃ i, 1 ≤ i ∧ i ≤ request.parties ∧ ∀ key, ¬ Answered decode (exchange i) key := by
  rw [ne_eq, errors_eq_nil_iff]
  constructor
  · intro h
    push Not at h
    obtain ⟨r, hr, hno⟩ := h
    obtain ⟨call, hcall, rfl⟩ := List.mem_map.mp hr
    refine ⟨call.index, (mem_calls hcall).1, (mem_calls hcall).2, fun key hkey => ?_⟩
    exact hno (key, call.node) (keyResult_ok_iff.mpr ⟨key, hkey, rfl⟩)
  · rintro ⟨i, hpos, hle, hno⟩ hall
    obtain ⟨call, hcall, rfl⟩ := call_of_index room_id hpos hle
    obtain ⟨ret, hret⟩ := hall _ (List.mem_map.mpr ⟨call, hcall, rfl⟩)
    obtain ⟨key, hkey, -⟩ := keyResult_ok_iff.mp hret
    exact hno key hkey

theorem calls_eq_mapIdx (hlt : request.nodes.length < U16.size) (room_id : String) :
    request.calls room_id = request.nodes.mapIdx fun i node =>
      ⟨room_id, request.threshold, request.nodes.length, i + 1, node⟩ := by
  have hparties : request.parties = request.nodes.length := Nat.mod_eq_of_lt hlt
  refine List.ext_getElem (by simp [KeyGenReq.calls, hparties]) fun i h₁ h₂ => ?_
  rw [List.length_mapIdx] at h₂
  simp [KeyGenReq.calls, hparties, List.getD_eq_getElem?_getD, List.getElem?_eq_getElem h₂, Nat.add_comm]

/-- The last of a list of equal texts, where there is one. -/
theorem getLastD_of_forall {xs : List String} {x : String} (hx : x ∈ xs) (h : ∀ y ∈ xs, y = x) :
    xs.getLastD "" = x := by
  cases xs with
  | nil => cases hx
  | cons a xs =>
    rw [List.getLastD_cons]
    exact h _ List.getLastD_mem_cons

/-- Answers that agree make what is returned sound. -/
theorem keysSound_of_agrees (hlt : request.nodes.length < U16.size)
    (hagree : ∀ i j key key', 1 ≤ i → i ≤ request.nodes.length → 1 ≤ j → j ≤ request.nodes.length →
      Answered decode (exchange i) key → Answered decode (exchange j) key' → key.pub_key = key'.pub_key)
    (hnone : errors ((request.calls room_id).map (keyResult decodeError decode exchange)) = []) :
    KeysSound decodeError decode room_id request exchange (request.calls room_id)
      ⟨((oks ((request.calls room_id).map (keyResult decodeError decode exchange))).map
          fun key => key.1.pub_key).getLastD "",
        (oks ((request.calls room_id).map (keyResult decodeError decode exchange))).map
          fun key => key.1.entry key.2⟩ := by
  have hparties : request.parties = request.nodes.length := Nat.mod_eq_of_lt hlt
  have hpair := forall₂_oks hnone
  refine ⟨calls_eq_mapIdx hlt room_id, ?_⟩
  -- the answers to the calls all name the key that was collected last
  have hanswer : ∀ ret ∈ oks ((request.calls room_id).map (keyResult decodeError decode exchange)),
      ∃ i, 1 ≤ i ∧ i ≤ request.nodes.length ∧ Answered decode (exchange i) ret.1 := by
    intro ret hret
    obtain ⟨call, hcall, hok⟩ := List.mem_map.mp (mem_oks_iff.mp hret)
    obtain ⟨key, hkey, rfl⟩ := keyResult_ok_iff.mp hok
    exact ⟨call.index, (mem_calls hcall).1, hparties ▸ (mem_calls hcall).2, hkey⟩
  have hlast : ∀ call ∈ request.calls room_id, ∀ ret, keyResult decodeError decode exchange call = .ok ret →
      ((oks ((request.calls room_id).map (keyResult decodeError decode exchange))).map
        fun key => key.1.pub_key).getLastD "" = ret.1.pub_key := by
    intro call hcall ret hok
    have hret : ret ∈ oks ((request.calls room_id).map (keyResult decodeError decode exchange)) :=
      mem_oks_iff.mpr (List.mem_map.mpr ⟨call, hcall, hok⟩)
    obtain ⟨i, hpos, hle, hkey⟩ := hanswer ret hret
    refine getLastD_of_forall (List.mem_map_of_mem hret) fun text htext => ?_
    obtain ⟨ret', hret', rfl⟩ := List.mem_map.mp htext
    obtain ⟨j, hpos', hle', hkey'⟩ := hanswer ret' hret'
    exact hagree j i ret'.1 ret.1 hpos' hle' hpos hle hkey' hkey
  rw [List.forall₂_map_right_iff]
  refine ((List.forall₂_and_left _ _).mpr ⟨hlast, hpair⟩).imp ?_
  rintro call ret ⟨hpub, hok⟩
  obtain ⟨key, hkey, rfl⟩ := keyResult_ok_iff.mp hok
  exact ⟨key, hok, (hpub _ hok).symm, rfl⟩

/-- What is returned is sound only if the count was not narrowed and the answers agree. -/
theorem agrees_of_keysSound {res : GeneratedKeys}
    (h : KeysSound decodeError decode room_id request exchange (request.calls room_id) res) :
    request.nodes.length < U16.size ∧ ∀ i j key key', 1 ≤ i → i ≤ request.nodes.length → 1 ≤ j →
      j ≤ request.nodes.length → Answered decode (exchange i) key → Answered decode (exchange j) key' →
        key.pub_key = key'.pub_key := by
  have hlen := congrArg List.length h.calls_eq
  rw [KeyGenReq.calls, List.length_map, List.length_range', List.length_mapIdx] at hlen
  have hlt : request.nodes.length < U16.size := by
    rw [← hlen]
    exact Nat.mod_lt _ (by decide)
  have hone : ∀ i key, 1 ≤ i → i ≤ request.nodes.length → Answered decode (exchange i) key →
      key.pub_key = res.pub_key := by
    intro i key hpos hle hkey
    obtain ⟨call, hcall, rfl⟩ := call_of_index room_id hpos (hlen ▸ hle)
    obtain ⟨entry, key', hok, hpub, -⟩ := exists_of_forall₂ h.entries hcall
    obtain ⟨key'', hkey'', heq⟩ := keyResult_ok_iff.mp hok
    cases heq
    rw [hkey.unique hkey'']
    exact hpub
  exact ⟨hlt, fun i j key key' hi hi' hj hj' hkey hkey' =>
    (hone i key hi hi' hkey).trans (hone j key' hj hj' hkey').symm⟩

/-- A key generation of the gateway is sound exactly if a call fails, or the count of the nodes is a `u16`
and all nodes name one public key. -/
theorem genKeys_sound_iff (decodeError : String → Option ErrorMsg) (decode : String → Except String PubKey)
    (room_id : String) (request : KeyGenReq) (exchange : Nat → Option Fetched) :
    GenKeysSound decodeError decode room_id request exchange ↔ FailsOrAgrees decode request exchange := by
  have heq := genKeys_eq decodeError decode room_id request exchange
  dsimp only at heq
  unfold GenKeysSound FailsOrAgrees
  rw [heq]
  by_cases hnone : errors ((request.calls room_id).map (keyResult decodeError decode exchange)) = []
  · have hall := mt errors_ne_nil_iff.mpr (not_not.mpr hnone)
    rw [if_neg (by simp [hnone])]
    constructor
    · rintro (⟨calls, res, hres, hsound⟩ | ⟨calls, e, herror⟩)
      · cases hres
        exact Or.inr (agrees_of_keysSound hsound)
      · cases herror
    · rintro (hfail | ⟨hlt, hagree⟩)
      · exact (hall hfail).elim
      · exact Or.inl ⟨_, _, rfl, keysSound_of_agrees hlt hagree hnone⟩
  · rw [if_pos (List.length_pos_iff.mpr hnone)]
    exact ⟨fun _ => Or.inl (errors_ne_nil_iff.mp hnone), fun _ => Or.inr ⟨_, _, rfl⟩⟩

/-- As many nodes as a `u16` has values count as none, and nobody is called. -/
theorem not_sound_of_length (hlen : request.nodes.length = U16.size) :
    ¬ GenKeysSound decodeError decode room_id request exchange := by
  have hcalls : request.calls room_id = [] := by
    rw [KeyGenReq.calls, KeyGenReq.parties, hlen, Nat.mod_self]
    rfl
  have heq := genKeys_eq decodeError decode room_id request exchange
  rw [hcalls] at heq
  rintro (⟨calls, res, hres, hsound⟩ | ⟨calls, e, herror⟩)
  · rw [heq] at hres
    cases hres
    have hzero := congrArg List.length hsound.calls_eq
    rw [List.length_mapIdx, hlen] at hzero
    exact absurd hzero (by decide)
  · rw [heq] at herror
    cases herror

/-- The JSON of a key. -/
def PubKey.body (key : PubKey) : String :=
  "\x7b\"index\":" ++ toString key.index ++ ",\"key\":\"" ++ key.key ++ "\",\"pub_key\":\"" ++ key.pub_key ++
    "\",\"parties\":" ++ toString key.parties ++ ",\"threshold\":" ++ toString key.threshold ++ "\x7d"

/-- A decoder that knows the bodies of some values. -/
def decodeFrom {α : Type} (body : α → String) (values : List α) (text : String) : Except String α :=
  match values.find? fun a => body a == text with
  | some a => .ok a
  | none => .error "expected value at line 1 column 1"

def firstKey : PubKey := ⟨1, "share 1", "02aa", 2, 1⟩

def secondKey : PubKey := ⟨2, "share 2", "02bb", 2, 1⟩

/-- Two nodes that name different public keys. -/
def twoKeys (i : Nat) : Option Fetched :=
  if i = 1 then some (.response 200 firstKey.body) else some (.response 200 secondKey.body)

def decodeKeys : String → Except String PubKey := decodeFrom PubKey.body [firstKey, secondKey]

/-- The key of the last node is returned for both, and for 65536 nodes nobody is asked. -/
theorem last_key_wins :
    genKeys (fun _ => none) decodeKeys "room" ⟨1, ["http://a", "http://b"]⟩ twoKeys =
      some ([⟨"room", 1, 2, 1, "http://a"⟩, ⟨"room", 1, 2, 2, "http://b"⟩],
        .ok ⟨"02bb", [⟨1, 2, 1, "http://a"⟩, ⟨2, 2, 1, "http://b"⟩]⟩) ∧
    ¬ GenKeysSound (fun _ => none) decodeKeys "room" ⟨1, ["http://a", "http://b"]⟩ twoKeys ∧
    ¬ GenKeysSound (fun _ => none) decodeKeys "room" ⟨1, List.replicate 65536 "http://a"⟩ twoKeys := by
  have hrun : genKeys (fun _ => none) decodeKeys "room" ⟨1, ["http://a", "http://b"]⟩ twoKeys =
      some ([⟨"room", 1, 2, 1, "http://a"⟩, ⟨"room", 1, 2, 2, "http://b"⟩],
        .ok ⟨"02bb", [⟨1, 2, 1, "http://a"⟩, ⟨2, 2, 1, "http://b"⟩]⟩) := by decide +kernel
  refine ⟨hrun, ?_, ?_⟩
  · rintro (⟨calls, res, hres, hsound⟩ | ⟨calls, e, herror⟩)
    · rw [hrun] at hres
      cases hres
      have hfirst : Answered decodeKeys (twoKeys 1) firstKey := ⟨_, rfl, by decide +kernel⟩
      have hsecond : Answered decodeKeys (twoKeys 2) secondKey := ⟨_, rfl, by decide +kernel⟩
      have hagree := (agrees_of_keysSound hsound).2 1 2 firstKey
        secondKey (by decide) (by decide) (by decide) (by decide) hfirst hsecond
      exact absurd hagree (by decide)
    · rw [hrun] at herror
      cases herror
  · exact not_sound_of_length (List.length_replicate ..)

end KeyGeneration

/-! ### Signing -/

instance : Std.Total PubKeyIndex.Le := ⟨fun a b => Nat.le_total a.index b.index⟩

instance : IsTrans PubKeyIndex PubKeyIndex.Le := ⟨fun _ _ _ => Nat.le_trans⟩

/-- The sorted nodes do not depend on the order in the request, if no two have one index. -/
theorem KeySignReq.sorted_eq {request request' : KeySignReq} (hperm : request'.nodes.Perm request.nodes)
    (hnodup : (request.nodes.map PubKeyIndex.index).Nodup) : request'.sorted = request.sorted := by
  have hanti : ∀ a b, a ∈ request'.sorted → b ∈ request.sorted → a.Le b → b.Le a → a = b := by
    intro a b ha hb hab hba
    rw [KeySignReq.sorted, List.mem_insertionSort] at ha hb
    exact List.inj_on_of_nodup_map hnodup (hperm.subset ha) hb (Nat.le_antisymm hab hba)
  refine List.Perm.eq_of_pairwise hanti (List.pairwise_insertionSort _ _) (List.pairwise_insertionSort _ _) ?_
  exact (List.perm_insertionSort _ _).trans (hperm.trans (List.perm_insertionSort _ _).symm)

section Signing

variable {decodeError : String → Option ErrorMsg} {debug : List String → String}
  {decode : String → Except String Sig} {exchange : Nat → Option Fetched} {request : KeySignReq}
  {room_id : String}

theorem signResult_ok_iff {call : SignCall} {fetched : Option Fetched} {ret : Sig × String} :
    signResult decodeError decode call fetched = .ok ret ↔
      ∃ sig, Answered decode fetched sig ∧ ret = (sig, call.node) := labelled_ok_iff

/-- What the caller of `sign_message` and the nodes see of a request that is not too long. -/
structure Signs (decode : String → Except String Sig) (room_id : String) (request : KeySignReq)
    (exchange : Nat → Option Fetched) (calls : List SignCall)
    (result : Option (Except ApiError SignedMessage)) : Prop where
  /-- Every listed node is called once, with the list of all indices, in ascending order. -/
  calls_perm : calls.Perm (request.nodes.map (request.call room_id))
  calls_ascending : calls.Pairwise fun a b => a.index ≤ b.index
  parties_perm : request.parties.Perm (request.nodes.map PubKeyIndex.index)
  ascending : request.parties.Pairwise (· ≤ ·)
  no_panic : request.nodes ≠ [] → result ≠ none
  failure : (∃ i < calls.length, ∀ sig, ¬ Answered decode (exchange i) sig) →
    ∃ text, result = some (.error (.unknown text))
  /-- The signature is that of the node with the lowest index. -/
  success : ∀ signed, result = some (.ok signed) →
    (∀ i < calls.length, ∃ sig, Answered decode (exchange i) sig) ∧
    ∃ key ∈ request.nodes, (∀ other ∈ request.nodes, key.index ≤ other.index) ∧
      calls[0]? = some (request.call room_id key) ∧
      ∃ sig, Answered decode (exchange 0) sig ∧ signed = ⟨request.pub_key, request.message, sig.signature⟩

variable (decodeError decode room_id request exchange) in
/-- The results of the joined futures of `sign_message`. -/
def signResults : List (Except String (Sig × String)) :=
  (request.sorted.map (request.call room_id)).mapIdx fun i call => signResult decodeError decode call (exchange i)

theorem signMessage_eq (hshort : request.message.utf8ByteSize ≤ 64) :
    signMessage decodeError debug decode room_id request exchange =
      (request.sorted.map (request.call room_id),
        if 0 < (errors (signResults decodeError decode exchange request room_id)).length then
          some (.error (.unknown (debug (errors (signResults decodeError decode exchange request room_id)))))
        else (oks (signResults decodeError decode exchange request room_id)).head?.map fun item =>
          .ok ⟨request.pub_key, request.message, item.1.signature⟩) := by
  unfold signMessage
  rw [if_neg (Nat.not_lt.mpr hshort)]
  simp only [foldl_signatures_push, List.nil_append, List.head?_map, Option.map_map]
  rw [← signResults]
  split_ifs <;> rfl

theorem mem_signResults {r : Except String (Sig × String)} :
    r ∈ signResults decodeError decode exchange request room_id ↔
      ∃ i, ∃ h : i < (request.sorted.map (request.call room_id)).length,
        signResult decodeError decode (request.sorted.map (request.call room_id))[i] (exchange i) = r :=
  List.mem_mapIdx

/-- Without errors every call has an answer. -/
theorem answered_of_errors_nil (hnone : errors (signResults decodeError decode exchange request room_id) = [])
    {i : Nat} (hi : i < (request.sorted.map (request.call room_id)).length) :
    ∃ sig, Answered decode (exchange i) sig := by
  obtain ⟨ret, hret⟩ := (errors_eq_nil_iff _).mp hnone _ (mem_signResults.mpr ⟨i, hi, rfl⟩)
  obtain ⟨sig, hsig, -⟩ := signResult_ok_iff.mp hret
  exact ⟨sig, hsig⟩

/-- The first value is the answer to the first call. -/
theorem answered_of_head (hnone : errors (signResults decodeError decode exchange request room_id) = [])
    {item : Sig × String} (h : (oks (signResults decodeError decode exchange request room_id)).head? = some item) :
    Answered decode (exchange 0) item.1 := by
  have hhead : (signResults decodeError decode exchange request room_id).head? = some (.ok item) := by
    rw [eq_map_oks hnone, List.head?_map, h]
    rfl
  rw [List.head?_eq_getElem?, signResults, List.getElem?_mapIdx, Option.map_eq_some_iff] at hhead
  obtain ⟨call, -, hcall⟩ := hhead
  obtain ⟨sig, hsig, rfl⟩ := signResult_ok_iff.mp hcall
  exact hsig

/-- The first of the sorted nodes has the lowest index. -/
theorem lowest_of_sorted {key : PubKeyIndex} {nodes : List PubKeyIndex} (h : request.sorted = key :: nodes) :
    key ∈ request.nodes ∧ ∀ other ∈ request.nodes, key.index ≤ other.index := by
  have hmem : ∀ other, other ∈ request.nodes ↔ other ∈ key :: nodes := by
    intro other
    rw [← h, KeySignReq.sorted, List.mem_insertionSort]
  have hsorted : request.sorted.Pairwise PubKeyIndex.Le := List.pairwise_insertionSort _ _
  rw [h, List.pairwise_cons] at hsorted
  refine ⟨(hmem key).mpr List.mem_cons_self, fun other hother => ?_⟩
  obtain rfl | hother := List.mem_cons.mp ((hmem other).mp hother)
  · exact Nat.le_refl _
  · exact hsorted.1 other hother

theorem signMessage_signs (hshort : request.message.utf8ByteSize ≤ 64) :
    Signs decode room_id request exchange (signMessage decodeError debug decode room_id request exchange).1
      (signMessage decodeError debug decode room_id request exchange).2 := by
  have hperm : request.sorted.Perm request.nodes := List.perm_insertionSort _ _
  rw [signMessage_eq hshort]
  constructor
  · exact hperm.map _
  · exact List.pairwise_map.mpr (List.pairwise_insertionSort PubKeyIndex.Le request.nodes)
  · exact hperm.map _
  · exact List.pairwise_map.mpr (List.pairwise_insertionSort PubKeyIndex.Le request.nodes)
  · intro hnodes
    dsimp only
    split_ifs with herrors
    · exact Option.some_ne_none _
    · have hnone : errors (signResults decodeError decode exchange request room_id) = [] := by simpa using herrors
      have hlen := congrArg List.length (eq_map_oks hnone)
      rw [signResults, List.length_mapIdx, List.length_map, hperm.length_eq, ← signResults, List.length_map] at hlen
      intro hempty
      rw [Option.map_eq_none_iff, List.head?_eq_none_iff] at hempty
      rw [hempty] at hlen
      exact hnodes (List.length_eq_zero_iff.mp hlen)
  · rintro ⟨i, hi, hno⟩
    have herrors : errors (signResults decodeError decode exchange request room_id) ≠ [] := by
      intro hnone
      obtain ⟨sig, hsig⟩ := answered_of_errors_nil hnone hi
      exact hno sig hsig
    exact ⟨_, if_pos (List.length_pos_iff.mpr herrors)⟩
  · intro signed hsigned
    dsimp only at hsigned
    split_ifs at hsigned with herrors
    · cases hsigned
    · have hnone : errors (signResults decodeError decode exchange request room_id) = [] := by simpa using herrors
      obtain ⟨item, hitem, hok⟩ := Option.map_eq_some_iff.mp hsigned
      cases hok
      refine ⟨fun i hi => answered_of_errors_nil hnone hi, ?_⟩
      cases hsorted : request.sorted with
      | nil =>
        -- There is no signature to index.
        simp [signResults, hsorted] at hitem
      | cons key nodes =>
        obtain ⟨hmem, hlowest⟩ := lowest_of_sorted hsorted
        exact ⟨key, hmem, hlowest, rfl, item.1, answered_of_head hnone hitem, rfl⟩

end Signing

/-- What a signing of the gateway guarantees: a message over 64 bytes is refused before any call, and
otherwise it is a signing as in `Signs` that does not depend on the order of distinct indices. -/
theorem signMessage_spec (decodeError : String → Option ErrorMsg) (debug : List String → String)
    (decode : String → Except String Sig) (room_id : String) (request : KeySignReq)
    (exchange : Nat → Option Fetched) :
    (64 < request.message.utf8ByteSize → ∃ text,
      signMessage decodeError debug decode room_id request exchange = ([], some (.error (.badRequest text)))) ∧
    (request.message.utf8ByteSize ≤ 64 →
      Signs decode room_id request exchange (signMessage decodeError debug decode room_id request exchange).1
        (signMessage decodeError debug decode room_id request exchange).2) ∧
    ∀ nodes : List PubKeyIndex, nodes.Perm request.nodes → (request.nodes.map PubKeyIndex.index).Nodup →
      signMessage decodeError debug decode room_id { request with nodes } exchange =
        signMessage decodeError debug decode room_id request exchange := by
  refine ⟨fun hlong => ⟨_, if_pos hlong⟩, signMessage_signs, fun nodes hperm hnodup => ?_⟩
  have hsorted : KeySignReq.sorted { request with nodes } = request.sorted :=
    KeySignReq.sorted_eq hperm hnodup
  have hcall : KeySignReq.call { request with nodes } room_id = request.call room_id := by
    funext key
    rw [KeySignReq.call, KeySignReq.call, KeySignReq.parties, KeySignReq.parties, hsorted]
  simp only [signMessage, hsorted, hcall]

/-- The JSON of the signature of a node that took part with node 2. -/
def Sig.body (sig : Sig) : String :=
  "\x7b\"pub_key\":\"" ++ sig.pub_key ++ "\",\"parties\":[1,2],\"signature\":\"" ++ sig.signature ++ "\"\x7d"

def firstSig : Sig := ⟨"02aa", [1, 2], "aaaa"⟩

def secondSig : Sig := ⟨"02bb", [1, 2], "bbbb"⟩

def twoSigs (i : Nat) : Option Fetched :=
  if i = 0 then some (.response 200 firstSig.body) else some (.response 200 secondSig.body)

def decodeSigs : String → Except String Sig := decodeFrom Sig.body [firstSig, secondSig]

/-- A node of a signing. -/
def someNode (index : Nat) : PubKeyIndex := ⟨index, 2, 1, "http://a"⟩

/-- A long message is posted to nobody, nodes that disagree are not noticed, and without nodes there is no
signature to index. -/
theorem signing_unsound :
    signMessage (fun _ => none) (String.intercalate ", ") decodeSigs "room"
        ⟨"02aa", String.ofList (List.replicate 65 'a'), [someNode 1]⟩ twoSigs =
      ([], some (.error (.badRequest "the message length over 64 bytes 65"))) ∧
    (signMessage (fun _ => none) (String.intercalate ", ") decodeSigs "room"
        ⟨"02aa", "68656c6c6f", [someNode 2, someNode 1]⟩ twoSigs).2 =
      some (.ok ⟨"02aa", "68656c6c6f", "aaaa"⟩) ∧
    Answered decodeSigs (twoSigs 1) secondSig ∧ secondSig.pub_key = "02bb" ∧ secondSig.signature = "bbbb" ∧
    (signMessage (fun _ => none) (String.intercalate ", ") decodeSigs "room"
        ⟨"02aa", "68656c6c6f", []⟩ twoSigs).2 = none := by
  refine ⟨by decide +kernel, by decide +kernel, ⟨_, rfl, by decide +kernel⟩, rfl, rfl, by decide +kernel⟩

end Gateway

end Gg20
