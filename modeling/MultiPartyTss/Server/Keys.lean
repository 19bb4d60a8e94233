import MultiPartyTss.Gg18.SignSafety
import MultiPartyTss.Gg20.Sign
import MultiPartyTss.Lib.Table
import MultiPartyTss.Server.Config

/-!
# Stored keys

The table of key shares, and the requests that fill and read it: `key_gen_key` runs a key generation and
stores the share, and `key_sign_message` looks a share up and signs with it. Any number of requests of any
number of servers run over one table; a request suspends in the protocols, and the database takes its
statements one by one. An `INSERT` draws its number from the sequence before it looks for a conflict.
-/

namespace Server

open Gg18 (KeygenLibrary SignLibrary rawPk)
open Gg20 (ConnectionPool SignMachines)
open Gg20.Gateway (ApiError)

/-! ### The table -/

structure Key where
  id : Nat
  idx : Int
  t : Int
  n : Int
  pub_key : String
  body : String
  verified : Bool
  deriving DecidableEq

structure NewKey where
  pub_key : String
  body : String
  idx : Int
  t : Int
  n : Int

/-- The row with its number and its default. -/
def NewKey.row (new_key : NewKey) (id : Nat) : Key :=
  ⟨id, new_key.idx, new_key.t, new_key.n, new_key.pub_key, new_key.body, false⟩

/-- The columns of the unique index. -/
def Key.unique (key : Key) : String × Int := (key.pub_key, key.idx)

abbrev Keys : Type := Table Key

namespace Keys

/-- `nextval` of the sequence of a `SERIAL` column. -/
def nextval (keys : Keys) : Except String (Nat × Keys) :=
  if keys.last_id < 2147483647 then .ok keys.next
  else .error "nextval: reached maximum value of sequence \"keys_id_seq\" (2147483647)"

/-- `create_key`, once it has its number. -/
def createKey (new_key : NewKey) (id : Nat) (keys : Keys) : Nat × Keys := keys.insertNew Key.unique (new_key.row id)

def findByPubKey (keys : Keys) (pub_key : String) (idx : Option Int) : Option Key :=
  keys.first Key.id fun key => decide (key.pub_key = pub_key) && idx.all fun idx => decide (key.idx = idx)

end Keys

/-! ### Requests -/

structure KeyGenReq where
  index : Nat
  parties : Nat
  threshold : Nat
  deriving DecidableEq

structure PubKeySignReq where
  index : Option Nat
  pub_key : String
  message : String
  parties : List Nat
  deriving DecidableEq

/-- The body of an answer of `key_gen_key`. -/
structure KeyBody where
  key : String
  pub_key : String
  index : Nat
  threshold : Nat
  parties : Nat
  deriving DecidableEq

/-- The body of an answer of `key_sign_message`. -/
structure SignatureBody where
  pub_key : String
  signature : String
  parties : List Nat
  deriving DecidableEq

/-- The places where a handler may panic. -/
inductive Panic where
  /-- `Url::parse(..).unwrap()`. -/
  | address
  /-- `primary_pool`. -/
  | pool
  /-- `party_key_compress_pub_hex`. -/
  | pubHex
  /-- `check_sig`, in `sign`. -/
  | check
  deriving DecidableEq

/-- How far a request has come. -/
inductive Handler where
  /-- In `keygen`. -/
  | generating (req : KeyGenReq)
  | generated (req : KeyGenReq) (pub_key local_key : String)
  /-- With a connection to store the key. -/
  | storing (req : KeyGenReq) (pub_key local_key : String)
  /-- In the `INSERT`, with a number. -/
  | numbered (req : KeyGenReq) (pub_key local_key : String) (id : Nat)
  | keysAnswered (req : KeyGenReq) (answer : Except ApiError KeyBody)
  | looking (req : PubKeySignReq)
  /-- With a connection to look the key up. -/
  | connected (req : PubKeySignReq)
  /-- In `sign`. -/
  | signing (req : PubKeySignReq) (key : Key)
  | signAnswered (req : PubKeySignReq) (answer : Except ApiError SignatureBody)
  | panicked (site : Panic)

/-- The texts of keys. -/
structure KeyTexts {F G : Type} (M : SignMachines F G) where
  /-- `serde_json::to_string`. -/
  serialize : M.LocalKey → Option String
  toBytesCompressed : G → List UInt8
  /-- `PublicKey::parse_slice` of compressed bytes, and `serialize_compressed`. -/
  parseCompressed : List UInt8 → Option (List UInt8)

namespace KeyTexts

variable {F G : Type} {M : SignMachines F G} (T : KeyTexts M)

def partyKeyCompressPubHex (y_sum : G) : Option String :=
  (T.parseCompressed (T.toBytesCompressed y_sum)).map fun pk => String.ofList (Hex.encode pk)

/-- `keygen`, where `run` is what the protocol comes to; `none` is a panic. -/
def keygen (run : Except String M.LocalKey) : Outcome String (String × String) :=
  match run with
  | .error e => some (.error e)
  | .ok local_key =>
    match T.partyKeyCompressPubHex (M.publicKey local_key) with
    | none => none
    | some pk_hex =>
      match T.serialize local_key with
      | none => some (.error "serialize output")
      | some serialize_output => some (.ok (pk_hex, serialize_output))

end KeyTexts

/-- The table and the requests. -/
structure KeyStore where
  table : Keys
  handler : Nat → Option Handler

namespace KeyStore

def start : KeyStore := ⟨⟨[], 0⟩, fun _ => none⟩

def set (s : KeyStore) (i : Nat) (h : Handler) : KeyStore :=
  { s with handler := Function.update s.handler i (some h) }

inductive Action {F G : Type} (M : SignMachines F G) where
  | postKeys (i : Nat) (req : KeyGenReq)
  | postSign (i : Nat) (req : PubKeySignReq)
  /-- The key generation of `i` ends. -/
  | generate (i : Nat) (run : Except String M.LocalKey)
  /-- `ConnectionPool::get`; `false` is `DatabaseUnavailable`. -/
  | connect (i : Nat) (available : Bool)
  | nextval (i : Nat)
  | create (i : Nat)
  | find (i : Nat)
  /-- The statement of `i` fails without an effect. -/
  | fail (i : Nat) (e : String)
  /-- The `INSERT` of `i` succeeds, but `i` does not learn of it. -/
  | lose (i : Nat) (e : String)
  /-- The signing of `i` ends. -/
  | sign (i : Nat) (offline : M.LocalKey → Except String M.CompletedOfflineStage)
      (online : M.PartialSignature → Except String (List M.PartialSignature))

/-- The request that the action is about. -/
def Action.request {F G : Type} {M : SignMachines F G} : Action M → Nat
  | .postKeys i _ | .postSign i _ | .generate i _ | .connect i _ | .nextval i | .create i | .find i | .fail i _
  | .lose i _ | .sign i _ _ => i

section Steps

variable {F G : Type} {L : KeygenLibrary F G} (S : SignLibrary L) {M : SignMachines F G} (T : KeyTexts M)
  (from_hex : String → Option Int) {Url : Type} (env : Environment Url) (config : Config) (store : StoreBuilder)

/-- The first lines of both handlers. -/
def post (answer : ApiError → Handler) (go : Handler) : Handler :=
  match gg20Address env config with
  | none => .panicked .address
  | some (.error e) => answer e
  | some (.ok _) => go

def newKey (req : KeyGenReq) (pub_key local_key : String) : NewKey :=
  ⟨pub_key, local_key, req.index, req.threshold, req.parties⟩

def storeFailed (req : KeyGenReq) (e : String) : Handler :=
  .keysAnswered req (.error (.unknown ("failed to store key: " ++ e)))

def step (s : KeyStore) : Action M → Option KeyStore
  | .postKeys i req =>
    if s.handler i = none then
      some (s.set i (post env config (fun e => .keysAnswered req (.error e)) (.generating req)))
    else none
  | .postSign i req =>
    if s.handler i = none then
      some (s.set i (post env config (fun e => .signAnswered req (.error e)) (.looking req)))
    else none
  | .generate i run =>
    match s.handler i with
    | some (.generating req) =>
      match T.keygen run with
      | none => some (s.set i (.panicked .pubHex))
      | some (.error e) =>
        some (s.set i (.keysAnswered req (.error (.unknown ("failed to generate key: " ++ e)))))
      | some (.ok (pub_key, local_key)) => some (s.set i (.generated req pub_key local_key))
    | _ => none
  | .connect i available =>
    match s.handler i, store.primaryPool with
    | some (.generated _ _ _), none | some (.looking _), none => some (s.set i (.panicked .pool))
    | some (.generated req pub_key local_key), some _ =>
      if available then some (s.set i (.storing req pub_key local_key))
      else some (s.set i (.keysAnswered req (.error (.unknown "failed to connect database: database unavailable"))))
    | some (.looking req), some _ =>
      if available then some (s.set i (.connected req))
      else some (s.set i (.signAnswered req (.error (.unknown "failed to connect database: database unavailable"))))
    | _, _ => none
  | .nextval i =>
    match s.handler i with
    | some (.storing req pub_key local_key) =>
      match s.table.nextval with
      | .error e => some (s.set i (storeFailed req e))
      | .ok (id, table) => some ({ s with table := table }.set i (.numbered req pub_key local_key id))
    | _ => none
  | .create i =>
    match s.handler i with
    | some (.numbered req pub_key local_key id) =>
      some ({ s with table := (s.table.createKey (newKey req pub_key local_key) id).2 }.set i
        (.keysAnswered req (.ok ⟨local_key, pub_key, req.index, req.threshold, req.parties⟩)))
    | _ => none
  | .find i =>
    match s.handler i with
    | some (.connected req) =>
      match s.table.findByPubKey req.pub_key (req.index.map Int.ofNat) with
      | none => some (s.set i (.signAnswered req (.error (.badRequest "failed to find key"))))
      | some key => some (s.set i (.signing req key))
    | _ => none
  | .fail i e =>
    match s.handler i with
    | some (.storing req _ _) | some (.numbered req _ _ _) => some (s.set i (storeFailed req e))
    | some (.connected req) => some (s.set i (.signAnswered req (.error (.badRequest "failed to find key"))))
    | _ => none
  | .lose i e =>
    match s.handler i with
    | some (.numbered req pub_key local_key id) =>
      some ({ s with table := (s.table.createKey (newKey req pub_key local_key) id).2 }.set i (storeFailed req e))
    | _ => none
  | .sign i offline online =>
    match s.handler i with
    | some (.signing req key) =>
      match Gg20.Sign.sign S M from_hex key.body req.message offline online with
      | none => some (s.set i (.panicked .check))
      | some (.error e) => some (s.set i (.signAnswered req (.error (.unknown e))))
      | some (.ok signature) => some (s.set i (.signAnswered req (.ok ⟨req.pub_key, signature, req.parties⟩)))
    | _ => none

end Steps

end KeyStore

end Server
