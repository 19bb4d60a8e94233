import MultiPartyTss.Gg18.Isolation
import MultiPartyTss.Lib.Json
import MultiPartyTss.Lib.U16

/-!
# The community over HTTP

`ApiCommunity` posts JSON to the manager's `/get-entry`, `/set-entry` and `/signup-party`, which call
`StoreCommunity` on the manager's map. The client does not look at the status of a response: it reads any
JSON, renders it again, and then decodes it as the type it expects. `apiCommunity_refines` says that over a
channel that delivers, a sequence of calls gives what the same calls give on the map itself.
-/

namespace Gg18

open Json

/-! ### Requests and responses -/

structure Index where
  key : String
  deriving DecidableEq, Repr

structure PartySignupReq where
  num : Nat
  key : String
  deriving DecidableEq, Repr

namespace Entry

def toJson (entry : Entry) : Object := [("key", .string entry.key), ("value", .string entry.value)]

def fromJson (o : Object) : Option Entry :=
  match o.string "key", o.string "value" with
  | some key, some value => some ⟨key, value⟩
  | _, _ => none

end Entry

def Index.fromJson (o : Object) : Option Index := (o.string "key").map Index.mk

namespace PartySignupReq

def toJson (req : PartySignupReq) : Object := [("num", .number req.num), ("key", .string req.key)]

/-- The key is a `&str` that borrows from the text, which a string with escapes does not allow. -/
def fromJson (o : Object) : Option PartySignupReq :=
  match o.number U16.size "num", o.string "key" with
  | some num, some key => if needsEscape key then none else some ⟨num, key⟩
  | _, _ => none

end PartySignupReq

namespace PartySignup

def toJson (p : PartySignup) : Object := [("number", .number p.number), ("uuid", .string p.uuid)]

def fromJson (o : Object) : Option PartySignup :=
  match o.number U16.size "number", o.string "uuid" with
  | some number, some uuid => some ⟨number, uuid⟩
  | _, _ => none

end PartySignup

structure Response where
  status : Nat
  body : String

def reasonLossy (status : Nat) : String :=
  match status with
  | 400 => "Bad Request"
  | 413 => "Payload Too Large"
  | 422 => "Unprocessable Entity"
  | 500 => "Internal Server Error"
  | _ => ""

def errorBody (reason : String) : Object := [("status", .string "error"), ("reason", .string reason)]

def catcherBody (uri : String) (status : Nat) : Object :=
  [("uri", .string uri), ("code", .number status),
    ("reason", .string (toString status ++ " " ++ reasonLossy status)), ("message", .string (reasonLossy status))]

section Server

variable [Serde Object]

/-- A response whose body is the `Value` of an object. -/
def respond (status : Nat) (o : Object) : Response := ⟨status, Serde.toStr o.canonical⟩

def defaultCatcher (uri : String) (status : Nat) : Response := respond status (catcherBody uri status)

/-- The guard `Json<T>` with the configured limit in bytes; an error is the status of the failure. -/
def readJson {α : Type} (limit : Nat) (fromJson : Object → Option α) (body : String) : Except Nat α :=
  if limit < body.utf8ByteSize then .error 413
  else
    match (Serde.fromStr body : Option Object) with
    | none => .error 400
    | some o =>
      match fromJson o with
      | none => .error 422
      | some request => .ok request

/-! ### The manager's routes -/

namespace Management

def getEntry (limit : Nat) (body : String) (hm : Store) : Response × Store :=
  match readJson limit Index.fromJson body with
  | .error status => (defaultCatcher "/ecdsa/gg_18/management/get-entry" status, hm)
  | .ok request =>
    match StoreCommunity.getEntry hm request.key with
    | .ok v => (respond 200 v.toJson, hm)
    | .error () => (respond 400 (errorBody "get signup party failed"), hm)

def setEntry (limit : Nat) (body : String) (hm : Store) : Response × Store :=
  match readJson limit Entry.fromJson body with
  | .error status => (defaultCatcher "/ecdsa/gg_18/management/set-entry" status, hm)
  | .ok request =>
    match StoreCommunity.setEntry hm request with
    | (.ok v, hm) => (respond 200 v.toJson, hm)
    | (.error (), hm) => (respond 400 (errorBody "set entry failed"), hm)

/-- `fresh` is the answer of `Uuid::new_v4`. A panic of the store is a response of the catcher. -/
def signupParty [Serde PartySignup] (limit : Nat) (fresh body : String) (hm : Store) : Response × Store :=
  match readJson limit PartySignupReq.fromJson body with
  | .error status => (defaultCatcher "/ecdsa/gg_18/management/signup-party" status, hm)
  | .ok request =>
    match StoreCommunity.getPartySignup request.num request.key fresh hm with
    | some (.ok v, hm) => (respond 200 v.toJson, hm)
    | some (.error (), hm) => (respond 400 (errorBody "signup party failed"), hm)
    | none => (defaultCatcher "/ecdsa/gg_18/management/signup-party" 500, hm)

end Management

/-! ### The client -/

namespace ApiCommunity

/-- How the response of an attempt arrives. -/
inductive Arrival where
  | intact
  | undecodable
  deriving DecidableEq, Repr

/-- `.json::<Value>()` of the response. -/
def Arrival.json (arrival : Arrival) (response : Response) : Option Object :=
  match arrival with
  | intact => Serde.fromStr response.body
  | undecodable => none

def retries : Nat := 10

/-- The attempts of `post` that are left. `serve i` is what the manager does with the request of attempt
`i`; it happens whether or not the response arrives. -/
def postLoop (serve : Nat → Store → Response × Store) (arrival : Nat → Arrival) :
    List Nat → Store → Option String × Store
  | [], hm => (none, hm)
  | i :: attempts, hm =>
    let (response, hm) := serve i hm
    match (arrival i).json response with
    | some res => (some (Serde.toStr res.canonical), hm)
    | none => postLoop serve arrival attempts hm

def post (serve : Nat → Store → Response × Store) (arrival : Nat → Arrival) (hm : Store) :
    Option String × Store := postLoop serve arrival (List.range' 1 (retries - 1)) hm

/-- `serde_json::from_str` on the text that `post` returns. -/
def decode {α : Type} (fromJson : Object → Option α) (res_body : String) : Except Unit α :=
  match (Serde.fromStr res_body : Option Object).bind fromJson with
  | some v => .ok v
  | none => .error ()

/-- `none` is the panic of `unwrap` when no attempt was answered; the map is the manager's. -/
def getEntry (limit : Nat) (arrival : Nat → Arrival) (key : String) (hm : Store) :
    Option (Except Unit Entry) × Store :=
  let index : Entry := ⟨key, ""⟩
  let (res_body, hm) := post (fun _ => Management.getEntry limit (Serde.toStr index.toJson)) arrival hm
  (res_body.map (decode Entry.fromJson), hm)

def setEntry (limit : Nat) (arrival : Nat → Arrival) (entry : Entry) (hm : Store) :
    Option (Except Unit Entry) × Store :=
  let (res_body, hm) := post (fun _ => Management.setEntry limit (Serde.toStr entry.toJson)) arrival hm
  (res_body.map (decode Entry.fromJson), hm)

/-- `fresh i` is what the manager draws for attempt `i`. -/
def getPartySignup [Serde PartySignup] (limit : Nat) (arrival : Nat → Arrival) (num : Nat) (key : String)
    (fresh : Nat → String) (hm : Store) : Option (Except Unit PartySignup) × Store :=
  let req : PartySignupReq := ⟨num, key⟩
  let (res_body, hm) :=
    post (fun i => Management.signupParty limit (fresh i) (Serde.toStr req.toJson)) arrival hm
  (res_body.map (decode PartySignup.fromJson), hm)

end ApiCommunity

end Server

/-! ### What the bodies decode to -/

theorem Entry.fromJson_fieldwise : Object.Fieldwise Entry.fromJson := by
  intro o o' h
  simp only [Entry.fromJson, Object.string, h]

theorem PartySignup.fromJson_fieldwise : Object.Fieldwise PartySignup.fromJson := by
  intro o o' h
  simp only [PartySignup.fromJson, Object.number, Object.string, h]

@[simp] theorem Entry.fromJson_toJson (entry : Entry) : Entry.fromJson entry.toJson = some entry := rfl

@[simp] theorem Index.fromJson_toJson (entry : Entry) : Index.fromJson entry.toJson = some ⟨entry.key⟩ := rfl

theorem PartySignupReq.fromJson_toJson (req : PartySignupReq) :
    fromJson req.toJson = if req.num < U16.size ∧ needsEscape req.key = false then some req else none := by
  have hn : req.toJson.number U16.size "num" = if req.num < U16.size then some req.num else none := rfl
  have hk : req.toJson.string "key" = some req.key := rfl
  rw [fromJson, hn, hk]
  split_ifs <;> simp_all

theorem PartySignupReq.num_lt {o : Object} {req : PartySignupReq} (h : fromJson o = some req) :
    req.num < U16.size := by
  unfold fromJson at h
  split at h
  · rename_i num key hnum _
    split at h
    · cases h
    · cases h
      unfold Object.number at hnum
      split at hnum
      · split at hnum
        · cases hnum
          assumption
        · cases hnum
      · cases hnum
  · cases h

theorem PartySignup.fromJson_toJson {p : PartySignup} (h : p.number < U16.size) :
    PartySignup.fromJson p.toJson = some p := by
  have hn : p.toJson.number U16.size "number" = some p.number := if_pos h
  have hu : p.toJson.string "uuid" = some p.uuid := rfl
  simp [fromJson, hn, hu]

/-- An object without the fields that only the expected types have. -/
def NoResult (o : Object) : Prop := "value" ∉ o.names ∧ "number" ∉ o.names

theorem Entry.fromJson_of_noResult {o : Object} (h : NoResult o) : Entry.fromJson o = none := by
  have hvalue : o.string "value" = none := by rw [Object.string, Object.field_of_not_mem h.1]
  simp [fromJson, hvalue]

theorem PartySignup.fromJson_of_noResult {o : Object} (h : NoResult o) : PartySignup.fromJson o = none := by
  have hnumber : o.number U16.size "number" = none := by rw [Object.number, Object.field_of_not_mem h.2]
  simp [fromJson, hnumber]

theorem errorBody_noResult (reason : String) : NoResult (errorBody reason) := by
  simp [NoResult, errorBody, Object.names]

theorem catcherBody_noResult (uri : String) (status : Nat) : NoResult (catcherBody uri status) := by
  simp [NoResult, catcherBody, Object.names]

theorem Entry.toJson_nodup (entry : Entry) : entry.toJson.names.Nodup := by
  simp [toJson, Object.names]

theorem PartySignup.toJson_nodup (p : PartySignup) : p.toJson.names.Nodup := by
  simp [toJson, Object.names]

theorem errorBody_nodup (reason : String) : (errorBody reason).names.Nodup := by
  simp [errorBody, Object.names]

theorem catcherBody_nodup (uri : String) (status : Nat) : (catcherBody uri status).names.Nodup := by
  simp [catcherBody, Object.names]

/-! ### The store's side of a call -/

theorem needsEscape_of_uuidText {text : String} (h : UuidText text) : needsEscape text = false := by
  have hall : uuidChars.all (fun c => decide (escapeChar c ≠ [c]) == false) = true := by decide
  rw [List.all_eq_true] at hall
  simp only [needsEscape, List.any_eq_false, Bool.not_eq_true]
  exact fun c hc => eq_of_beq (hall c (h c hc))

/-- The entry under a signup key, if there is one, is the JSON of a signup. -/
def SignupValid [Serde PartySignup] (hm : Store) (key : String) : Prop :=
  ∀ value, hm key = some value → (Serde.fromStr value : Option PartySignup).isSome

instance [Serde PartySignup] (hm : Store) (key : String) : Decidable (SignupValid hm key) :=
  decidable_of_iff ((hm key).all fun value => (Serde.fromStr value : Option PartySignup).isSome) (by
    cases h : hm key <;> simp [SignupValid, h])

namespace StoreCommunity

variable [Serde PartySignup]

/-- The number of the last signup under the key. -/
def storedNumber (hm : Store) (key : String) : Nat :=
  match (hm key).bind fun value => (Serde.fromStr value : Option PartySignup) with
  | some p => p.number
  | none => 0

@[simp] theorem storedNumber_write (hm : Store) (key : String) (p : PartySignup) :
    storedNumber (writePartySignup key p hm) key = p.number := by
  simp [storedNumber, writePartySignup]

theorem write_valid (hm : Store) (key : String) (p : PartySignup) :
    SignupValid (writePartySignup key p hm) key := by
  intro value h
  rw [writePartySignup, Store.insert_self, Option.some.injEq] at h
  simp [← h]

/-- What `get_party_signup` does at a valid entry: it issues the next number, or refuses. An empty room
issues number one whatever `num` is. -/
theorem getPartySignup_cases (num : Nat) {key : String} (fresh : String) {hm : Store}
    (hvalid : SignupValid hm key) :
    (∃ p : PartySignup, p.number = storedNumber hm key + 1 ∧ p.number ≤ max 1 num ∧
      getPartySignup num key fresh hm = some (.ok p, writePartySignup key p hm)) ∨
    (num ≤ storedNumber hm key ∧ getPartySignup num key fresh hm = some (.error (), hm)) := by
  unfold getPartySignup readPartySignup storedNumber
  cases hkey : hm key with
  | none => exact Or.inl ⟨⟨1, fresh⟩, rfl, le_max_left 1 num, rfl⟩
  | some value =>
    obtain ⟨q, hq⟩ := Option.isSome_iff_exists.mp (hvalid value hkey)
    simp only [Option.bind_some, hq]
    split_ifs with hlt
    · exact Or.inl ⟨⟨q.number + 1, q.uuid⟩, rfl, Nat.le_trans hlt (le_max_right 1 num), rfl⟩
    · exact Or.inr ⟨Nat.not_lt.mp hlt, rfl⟩

theorem valid_of_getPartySignup {num : Nat} {key fresh : String} {hm : Store}
    {result : Except Unit PartySignup × Store} (h : getPartySignup num key fresh hm = some result) :
    SignupValid hm key := by
  intro value hkey
  rw [getPartySignup, readPartySignup, hkey] at h
  cases hvalue : (Serde.fromStr value : Option PartySignup) with
  | none => simp [hvalue] at h
  | some p => rfl

theorem getPartySignup_number {num : Nat} {key fresh : String} {hm hm' : Store} {p : PartySignup}
    (h : getPartySignup num key fresh hm = some (.ok p, hm')) : p.number ≤ max 1 num := by
  rcases getPartySignup_cases num fresh (valid_of_getPartySignup h) with ⟨q, -, hle, hq⟩ | ⟨-, hq⟩
  · rw [h] at hq
    cases hq
    exact hle
  · rw [h] at hq
    cases hq

end StoreCommunity

section Server

variable [Serde Object]

theorem readJson_toStr {α : Type} {limit : Nat} {fromJson : Object → Option α} {o : Object} {request : α}
    (hsize : (Serde.toStr o).utf8ByteSize ≤ limit) (h : fromJson o = some request) :
    readJson limit fromJson (Serde.toStr o) = .ok request := by
  rw [readJson, if_neg (Nat.not_lt.mpr hsize), Serde.round_trip]
  simp [h]

/-- The guard answers a status of failure, or what the body decodes to. -/
theorem readJson_cases {α : Type} (limit : Nat) (fromJson : Object → Option α) (body : String) :
    (∃ status, readJson limit fromJson body = .error status ∧ status ≠ 200) ∨
    ∃ o request, body.utf8ByteSize ≤ limit ∧ Serde.fromStr body = some o ∧ fromJson o = some request ∧
      readJson limit fromJson body = .ok request := by
  unfold readJson
  split_ifs with hsize
  · exact Or.inl ⟨413, rfl, by decide⟩
  · cases hbody : (Serde.fromStr body : Option Object) with
    | none => exact Or.inl ⟨400, rfl, by decide⟩
    | some o =>
      cases hrequest : fromJson o with
      | none => exact Or.inl ⟨422, by simp only [hrequest], by decide⟩
      | some request =>
        exact Or.inr ⟨o, request, Nat.not_lt.mp hsize, rfl, hrequest, by simp only [hrequest]⟩

/-- An error response, or one that carries a value. -/
inductive Response.Kind : Response → Prop where
  | error {status o} : status ≠ 200 → o.names.Nodup → NoResult o → Kind (respond status o)
  | entry (v : Entry) : Kind (respond 200 v.toJson)
  | signup (p : PartySignup) : p.number < U16.size → Kind (respond 200 p.toJson)

namespace ApiCommunity

/-- The text that `post` returns for a response whose body is `o`. -/
def rendered (o : Object) : String := Serde.toStr o.canonical.canonical

theorem decode_canonical {α : Type} {fromJson : Object → Option α} (hread : Object.Fieldwise fromJson)
    {o : Object} (hnames : o.names.Nodup) :
    decode fromJson (Serde.toStr o.canonical) = match fromJson o with | some v => .ok v | none => .error () := by
  rw [decode, Serde.round_trip, Option.bind_some, hread.canonical hnames]

theorem decode_rendered {α : Type} {fromJson : Object → Option α} (hread : Object.Fieldwise fromJson)
    {o : Object} (hnames : o.names.Nodup) :
    decode fromJson (rendered o) = match fromJson o with | some v => .ok v | none => .error () := by
  rw [rendered, decode_canonical hread (Object.canonical_nodup hnames), hread.canonical hnames]

/-- Every response arrives. -/
def delivers : Nat → Arrival := fun _ => .intact

theorem postLoop_intact {serve : Nat → Store → Response × Store} {arrival : Nat → Arrival} (status : Nat)
    {o : Object} {i : Nat} {attempts : List Nat} {hm hm' : Store} (harrival : arrival i = .intact)
    (hserve : serve i hm = (respond status o, hm')) :
    postLoop serve arrival (i :: attempts) hm = (some (rendered o), hm') := by
  simp [postLoop, hserve, harrival, Arrival.json, respond, rendered]

theorem postLoop_undecodable {serve : Nat → Store → Response × Store} {arrival : Nat → Arrival} {i : Nat}
    {attempts : List Nat} {hm : Store} (harrival : arrival i = .undecodable) :
    postLoop serve arrival (i :: attempts) hm = postLoop serve arrival attempts (serve i hm).2 := by
  simp [postLoop, harrival, Arrival.json]

theorem post_respond {serve : Nat → Store → Response × Store} {arrival : Nat → Arrival} (status : Nat)
    {o : Object} {hm hm' : Store} (harrival : arrival 1 = .intact)
    (hserve : serve 1 hm = (respond status o, hm')) : post serve arrival hm = (some (rendered o), hm') :=
  postLoop_intact status harrival hserve

/-! ### One call -/

theorem getEntry_delivers {limit : Nat} {key : String} (hm : Store)
    (hsize : (Serde.toStr (Entry.toJson ⟨key, ""⟩)).utf8ByteSize ≤ limit) :
    getEntry limit delivers key hm = (some (StoreCommunity.getEntry hm key), hm) := by
  have hread := readJson_toStr hsize (Index.fromJson_toJson ⟨key, ""⟩)
  unfold getEntry StoreCommunity.getEntry
  cases hkey : hm key with
  | some v =>
    have hpost : post (fun _ => Management.getEntry limit (Serde.toStr (Entry.toJson ⟨key, ""⟩))) delivers hm
        = (some (rendered (Entry.toJson ⟨key, v⟩)), hm) :=
      post_respond 200 rfl (by simp [Management.getEntry, hread, StoreCommunity.getEntry, hkey])
    simp [hpost, decode_rendered Entry.fromJson_fieldwise (Entry.toJson_nodup _)]
  | none =>
    have hpost : post (fun _ => Management.getEntry limit (Serde.toStr (Entry.toJson ⟨key, ""⟩))) delivers hm
        = (some (rendered (errorBody "get signup party failed")), hm) :=
      post_respond 400 rfl (by simp [Management.getEntry, hread, StoreCommunity.getEntry, hkey])
    simp [hpost, decode_rendered Entry.fromJson_fieldwise (errorBody_nodup _),
      Entry.fromJson_of_noResult (errorBody_noResult _)]

theorem setEntry_delivers {limit : Nat} {entry : Entry} (hm : Store)
    (hsize : (Serde.toStr entry.toJson).utf8ByteSize ≤ limit) :
    setEntry limit delivers entry hm
      = (some (StoreCommunity.setEntry hm entry).1, (StoreCommunity.setEntry hm entry).2) := by
  have hread := readJson_toStr hsize entry.fromJson_toJson
  have hpost : post (fun _ => Management.setEntry limit (Serde.toStr entry.toJson)) delivers hm
      = (some (rendered entry.toJson), hm.insert entry.key entry.value) :=
    post_respond 200 rfl (by simp [Management.setEntry, hread, StoreCommunity.setEntry])
  simp [setEntry, StoreCommunity.setEntry, hpost, decode_rendered Entry.fromJson_fieldwise (Entry.toJson_nodup _)]

/-- Whether the manager takes the request of a signup. -/
def Accepted (limit num : Nat) (key : String) : Prop :=
  num < U16.size ∧ needsEscape key = false ∧
    (Serde.toStr (PartySignupReq.toJson ⟨num, key⟩)).utf8ByteSize ≤ limit

theorem Accepted.readJson {limit num : Nat} {key : String} (h : Accepted limit num key) :
    readJson limit PartySignupReq.fromJson (Serde.toStr (PartySignupReq.toJson ⟨num, key⟩))
      = .ok ⟨num, key⟩ :=
  readJson_toStr h.2.2 (by rw [PartySignupReq.fromJson_toJson, if_pos ⟨h.1, h.2.1⟩])

theorem decode_rendered_signup {limit num : Nat} {key : String} (haccepted : Accepted limit num key)
    {p : PartySignup} (hle : p.number ≤ max 1 num) :
    decode PartySignup.fromJson (rendered p.toJson) = .ok p := by
  have hnum := haccepted.1
  have hone : 1 < U16.size := by decide
  have hlt : p.number < U16.size := by omega
  simp [decode_rendered PartySignup.fromJson_fieldwise p.toJson_nodup, PartySignup.fromJson_toJson hlt]

theorem decode_rendered_error (reason : String) :
    decode PartySignup.fromJson (rendered (errorBody reason)) = .error () := by
  simp [decode_rendered PartySignup.fromJson_fieldwise (errorBody_nodup reason),
    PartySignup.fromJson_of_noResult (errorBody_noResult reason)]

variable [Serde PartySignup]

/-- What the manager does with attempt `i` of a signup. -/
def attempt (limit num : Nat) (key : String) (fresh : Nat → String) (i : Nat) (hm : Store) :
    Response × Store :=
  Management.signupParty limit (fresh i) (Serde.toStr (PartySignupReq.toJson ⟨num, key⟩)) hm

section Signup

variable {limit num : Nat} {key : String} {fresh : Nat → String} {hm : Store}

theorem attempt_cases (fresh : Nat → String) (haccepted : Accepted limit num key)
    (hvalid : SignupValid hm key) (i : Nat) :
    (∃ p : PartySignup, p.number = StoreCommunity.storedNumber hm key + 1 ∧ p.number ≤ max 1 num ∧
      StoreCommunity.getPartySignup num key (fresh i) hm
        = some (.ok p, StoreCommunity.writePartySignup key p hm) ∧
      attempt limit num key fresh i hm
        = (respond 200 p.toJson, StoreCommunity.writePartySignup key p hm)) ∨
    (num ≤ StoreCommunity.storedNumber hm key ∧
      StoreCommunity.getPartySignup num key (fresh i) hm = some (.error (), hm) ∧
      attempt limit num key fresh i hm = (respond 400 (errorBody "signup party failed"), hm)) := by
  rcases StoreCommunity.getPartySignup_cases num (fresh i) hvalid with
    ⟨p, hnext, hle, hstore⟩ | ⟨hfull, hstore⟩
  · exact Or.inl ⟨p, hnext, hle, hstore, by
      simp [attempt, Management.signupParty, haccepted.readJson, hstore]⟩
  · exact Or.inr ⟨hfull, hstore, by simp [attempt, Management.signupParty, haccepted.readJson, hstore]⟩

theorem getPartySignup_eq {arrival : Nat → Arrival} {res_body : Option String} {hm' : Store}
    (h : post (attempt limit num key fresh) arrival hm = (res_body, hm')) :
    getPartySignup limit arrival num key fresh hm = (res_body.map (decode PartySignup.fromJson), hm') := by
  have hpost : post (fun i => Management.signupParty limit (fresh i)
      (Serde.toStr (PartySignupReq.toJson ⟨num, key⟩))) arrival hm = (res_body, hm') := h
  simp [getPartySignup, hpost]

theorem getPartySignup_delivers (fresh : Nat → String) (haccepted : Accepted limit num key)
    (hvalid : SignupValid hm key) :
    ∃ result hm', StoreCommunity.getPartySignup num key (fresh 1) hm = some (result, hm') ∧
      getPartySignup limit delivers num key fresh hm = (some result, hm') := by
  rcases attempt_cases fresh haccepted hvalid 1 with
    ⟨p, -, hle, hstore, hattempt⟩ | ⟨-, hstore, hattempt⟩
  · refine ⟨_, _, hstore, ?_⟩
    rw [getPartySignup_eq (post_respond 200 rfl hattempt), Option.map_some,
      decode_rendered_signup haccepted hle]
  · refine ⟨_, _, hstore, ?_⟩
    rw [getPartySignup_eq (post_respond 400 rfl hattempt), Option.map_some, decode_rendered_error]

end Signup

/-! ### What a route answers -/

/-- A response of one of the manager's routes. -/
inductive Served (limit : Nat) : Response → Prop where
  | getEntry (body hm) : Served limit (Management.getEntry limit body hm).1
  | setEntry (body hm) : Served limit (Management.setEntry limit body hm).1
  | signupParty (fresh body hm) : Served limit (Management.signupParty limit fresh body hm).1

theorem Served.kind {limit : Nat} {response : Response} (h : Served limit response) : response.Kind := by
  cases h with
  | getEntry body hm =>
    unfold Management.getEntry
    rcases readJson_cases limit Index.fromJson body with ⟨status, hread, hne⟩ | ⟨o, request, -, -, -, hread⟩
    · rw [hread]
      exact .error hne (catcherBody_nodup _ _) (catcherBody_noResult _ _)
    · rw [hread]
      dsimp only
      split
      · exact .entry _
      · exact .error (by decide) (errorBody_nodup _) (errorBody_noResult _)
  | setEntry body hm =>
    unfold Management.setEntry StoreCommunity.setEntry
    rcases readJson_cases limit Entry.fromJson body with ⟨status, hread, hne⟩ | ⟨o, request, -, -, -, hread⟩
    · rw [hread]
      exact .error hne (catcherBody_nodup _ _) (catcherBody_noResult _ _)
    · rw [hread]
      exact .entry _
  | signupParty fresh body hm =>
    unfold Management.signupParty
    rcases readJson_cases limit PartySignupReq.fromJson body with
      ⟨status, hread, hne⟩ | ⟨o, request, -, -, hrequest, hread⟩
    · rw [hread]
      exact .error hne (catcherBody_nodup _ _) (catcherBody_noResult _ _)
    · rw [hread]
      dsimp only
      split
      · rename_i p _ hstore
        refine .signup p ?_
        have hp := StoreCommunity.getPartySignup_number hstore
        have hnum := PartySignupReq.num_lt hrequest
        have hone : 1 < U16.size := by decide
        omega
      · exact .error (by decide) (errorBody_nodup _) (errorBody_noResult _)
      · exact .error (by decide) (catcherBody_nodup _ _) (catcherBody_noResult _ _)

/-- An error body decodes to neither type, a value's body to the value. -/
structure Bodies (response : Response) : Prop where
  error : response.status ≠ 200 →
    decode Entry.fromJson response.body = .error () ∧ decode PartySignup.fromJson response.body = .error ()
  success : response.status = 200 →
    (∃ v : Entry, response = respond 200 v.toJson ∧ decode Entry.fromJson response.body = .ok v) ∨
    ∃ p : PartySignup, response = respond 200 p.toJson ∧
      decode PartySignup.fromJson response.body = .ok p

omit [Serde PartySignup] in
theorem bodies_of_kind {response : Response} (h : response.Kind) : Bodies response := by
  cases h with
  | @error status o hstatus hnames hno =>
    refine ⟨fun _ => ⟨?_, ?_⟩, fun heq => (hstatus heq).elim⟩
    · simp [respond, decode_canonical Entry.fromJson_fieldwise hnames, Entry.fromJson_of_noResult hno]
    · simp [respond, decode_canonical PartySignup.fromJson_fieldwise hnames,
        PartySignup.fromJson_of_noResult hno]
  | entry v =>
    refine ⟨fun hne => (hne rfl).elim, fun _ => Or.inl ⟨v, rfl, ?_⟩⟩
    simp [respond, decode_canonical Entry.fromJson_fieldwise v.toJson_nodup]
  | signup p hlt =>
    refine ⟨fun hne => (hne rfl).elim, fun _ => Or.inr ⟨p, rfl, ?_⟩⟩
    simp [respond, decode_canonical PartySignup.fromJson_fieldwise p.toJson_nodup,
      PartySignup.fromJson_toJson hlt]

/-! ### Sequences of calls -/

/-- A call of the `Community` trait. `fresh i` is what `Uuid::new_v4` answers where the call is served for
the `i`-th time. -/
inductive Call where
  | getEntry (key : String)
  | setEntry (entry : Entry)
  | getPartySignup (num : Nat) (key : String) (fresh : Nat → String)

inductive Answer where
  | entry (result : Except Unit Entry)
  | signup (result : Except Unit PartySignup)

namespace Call

/-- The call on the map itself; `none` is a panic. -/
def onStore (hm : Store) : Call → Option (Answer × Store)
  | getEntry key => some (.entry (StoreCommunity.getEntry hm key), hm)
  | setEntry entry => some (.entry (StoreCommunity.setEntry hm entry).1, (StoreCommunity.setEntry hm entry).2)
  | getPartySignup num key fresh =>
    (StoreCommunity.getPartySignup num key (fresh 1) hm).map fun r => (.signup r.1, r.2)

/-- The call over a channel that delivers; `none` is a panic of the client. -/
def onApi (limit : Nat) (hm : Store) : Call → Option (Answer × Store)
  | getEntry key =>
    let (result, hm) := ApiCommunity.getEntry limit delivers key hm
    result.map fun r => (.entry r, hm)
  | setEntry entry =>
    let (result, hm) := ApiCommunity.setEntry limit delivers entry hm
    result.map fun r => (.entry r, hm)
  | getPartySignup num key fresh =>
    let (result, hm) := ApiCommunity.getPartySignup limit delivers num key fresh hm
    result.map fun r => (.signup r, hm)

/-- The request is within the limit, and a signup is for a valid room id. -/
def Admitted (parse_str : String → Bool) (limit : Nat) : Call → Prop
  | getEntry key => (Serde.toStr (Entry.toJson ⟨key, ""⟩)).utf8ByteSize ≤ limit
  | setEntry entry => (Serde.toStr entry.toJson).utf8ByteSize ≤ limit
  | getPartySignup num key _ => num < U16.size ∧ isValid parse_str key = true ∧
    (Serde.toStr (PartySignupReq.toJson ⟨num, key⟩)).utf8ByteSize ≤ limit

/-- The entry a signup reads is valid. -/
def KeyValid (hm : Store) : Call → Prop
  | getPartySignup _ key _ => SignupValid hm key
  | _ => True

instance (parse_str : String → Bool) (limit : Nat) : ∀ c : Call, Decidable (c.Admitted parse_str limit)
  | getEntry _ => Nat.decLe _ _
  | setEntry _ => Nat.decLe _ _
  | getPartySignup _ _ _ => instDecidableAnd

instance (hm : Store) : ∀ c : Call, Decidable (c.KeyValid hm)
  | getEntry _ => isTrue trivial
  | setEntry _ => isTrue trivial
  | getPartySignup _ key _ => inferInstanceAs (Decidable (SignupValid hm key))

theorem onApi_eq_onStore {parse_str : String → Bool} (hparse : ∀ text, parse_str text = true → UuidText text)
    {limit : Nat} {hm : Store} {c : Call} (hadm : c.Admitted parse_str limit) (hvalid : c.KeyValid hm) :
    ∃ r, c.onStore hm = some r ∧ c.onApi limit hm = some r := by
  cases c with
  | getEntry key => exact ⟨_, rfl, by simp [onApi, getEntry_delivers hm hadm]⟩
  | setEntry entry => exact ⟨_, rfl, by simp [onApi, setEntry_delivers hm hadm]⟩
  | getPartySignup num key fresh =>
    obtain ⟨hnum, hroom, hsize⟩ := hadm
    have haccepted : Accepted limit num key := ⟨hnum, needsEscape_of_uuidText (hparse key hroom), hsize⟩
    obtain ⟨result, hm', hstore, hapi⟩ := getPartySignup_delivers fresh haccepted hvalid
    exact ⟨(.signup result, hm'), by simp [onStore, hstore], by simp [onApi, hapi]⟩

/-- One call of a sequence, from the answers so far and the map. -/
def logged (call : Store → Call → Option (Answer × Store)) (s : List Answer × Store) (c : Call) :
    Option (List Answer × Store) := (call s.2 c).map fun r => (s.1 ++ [r.1], r.2)

end Call

open Machine in
/-- A sequence of calls over HTTP gives the answers and the map that it gives on the map itself, and no
error response can be taken for a value. -/
theorem apiCommunity_refines {parse_str : String → Bool}
    (hparse : ∀ text, parse_str text = true → UuidText text) {limit : Nat} {calls : List Call} {hm : Store}
    (hadm : ∀ c ∈ calls, c.Admitted parse_str limit)
    (hvalid : Guarded (Call.logged Call.onStore) (fun s c => c.KeyValid s.2) ([], hm) calls) :
    (∃ s, exec (Call.logged Call.onStore) ([], hm) calls = some s ∧
      exec (Call.logged (Call.onApi limit)) ([], hm) calls = some s) ∧
    ∀ response, Served limit response → Bodies response := by
  have hguard := hvalid.and_mem hadm
  have hstep : ∀ (s : List Answer × Store) c, c.KeyValid s.2 ∧ c.Admitted parse_str limit →
      ∃ t, Call.logged Call.onStore s c = some t ∧ Call.logged (Call.onApi limit) s c = some t := by
    intro s c hc
    obtain ⟨r, hstore, hapi⟩ := Call.onApi_eq_onStore hparse hc.2 hc.1
    exact ⟨(s.1 ++ [r.1], r.2), by rw [Call.logged, hstore, Option.map_some],
      by rw [Call.logged, hapi, Option.map_some]⟩
  refine ⟨?_, fun response h => bodies_of_kind h.kind⟩
  obtain ⟨s, hs⟩ := exec_some_of_guarded (fun s c hc => (hstep s c hc).imp fun t ht => ht.1) hguard
  refine ⟨s, hs, ?_⟩
  rw [← hs]
  apply exec_eq_of_guarded _ hguard
  intro s c hc
  obtain ⟨t, hstore, hapi⟩ := hstep s c hc
  rw [hstore, hapi]

end ApiCommunity

end Server

namespace ApiCommunity

/-- Two signups of one room, an entry posted and read back, and a key that is missing. -/
def someCalls : List Call :=
  [.getPartySignup 2 "67e55044-10b1-426f-9247-bb680e5fe0c8" fun _ => "u1",
    .getPartySignup 2 "67e55044-10b1-426f-9247-bb680e5fe0c8" fun _ => "u2",
    .setEntry ⟨"k", "a \"v\""⟩, .getEntry "k", .getEntry "missing"]

theorem someCalls_refine :
    letI := Json.compact
    letI := PartySignup.compact
    (∃ s, Machine.exec (Call.logged Call.onStore) ([], Store.empty) someCalls = some s ∧
      Machine.exec (Call.logged (Call.onApi 1048576)) ([], Store.empty) someCalls = some s) ∧
    ∀ response, Served 1048576 response → Bodies response := by
  let _ := Json.compact
  let _ := PartySignup.compact
  have hadm : decide (∀ c ∈ someCalls, c.Admitted SharedStore.parseHyphenated 1048576) = true := by
    decide +kernel
  have hvalid : decide (Machine.Guarded (Call.logged Call.onStore) (fun s c => c.KeyValid s.2)
      ([], Store.empty) someCalls) = true := by
    decide +kernel
  exact apiCommunity_refines (fun _ => SharedStore.parseHyphenated_text) (of_decide_eq_true hadm)
    (of_decide_eq_true hvalid)

end ApiCommunity

end Gg18
