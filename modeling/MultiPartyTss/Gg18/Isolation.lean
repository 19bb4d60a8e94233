import MultiPartyTss.Gg18.Reassembly
import MultiPartyTss.Gg18.SignAlgebra

/-!
# Sessions that share one store

Any number of key generations and signings over one map, each with a room id of its own, under which its
members sign up, and a uuid of its own, which is in the keys of its rounds. `Write` is a write of one of
them; its key tells which it is (`Write.key_inj`), for a room id has no letter `o` and every round name has.
So over any interleaving no member writes what another has written, and what a member polls is what the
named member of its own session wrote (`sessions_isolated`).
-/

namespace Gg18

open Proc Slots Network

variable {F G : Type} {L : KeygenLibrary F G} {σ μ : Type}

/-- `is_valid` of `Token`, over `Uuid::parse_str`. -/
def isValid (parse_str : String → Bool) (key : String) : Bool := parse_str key

/-! ### Keys -/

/-- A write of session `s`. -/
inductive Write (σ : Type) where
  | signup (s : σ)
  | broadcast (s : σ) (party_num : Nat) (round : String)
  | sendP2p (s : σ) (party_from party_to : Nat) (round : String)

/-- The rounds of key generations and signings. -/
def roundNames : List String := (keygenRounds ++ signRounds).map Round.name

theorem roundName_of_mem {round : String} (h : round ∈ roundNames) : RoundName round ∧ 'o' ∈ round.toList := by
  revert round
  decide

namespace Write

def key (room_id uuid : σ → String) : Write σ → String
  | signup s => room_id s
  | broadcast s party_num round => broadcastKey party_num round (uuid s)
  | sendP2p s party_from party_to round => p2pKey party_from party_to round (uuid s)

def Named : Write σ → Prop
  | signup _ => True
  | broadcast _ _ round | sendP2p _ _ _ round => round ∈ roundNames

variable {room_id uuid : σ → String}

/-- A round key has the letter `o`. -/
theorem signup_of_uuidText {w : Write σ} (hw : w.Named) (h : UuidText (w.key room_id uuid)) :
    ∃ s, w = .signup s := by
  have hletter : ∀ {round k : String} {i : Nat} {s : σ}, round ∈ roundNames → KeyOf i round (uuid s) k →
      ¬ UuidText k := by
    intro round k i s hround hkey htext
    have ho := htext 'o' (hkey.letter (roundName_of_mem hround).2)
    revert ho
    decide
  cases w with
  | signup s => exact ⟨s, rfl⟩
  | broadcast s party_num round => exact (hletter hw (Or.inl rfl) h).elim
  | sendP2p s party_from party_to round => exact (hletter hw (Or.inr ⟨party_to, rfl⟩) h).elim

theorem signup_of_room {w : Write σ} (hrooms : ∀ s, UuidText (room_id s)) (hw : w.Named) {s : σ}
    (h : w.key room_id uuid = room_id s) : ∃ s', w = .signup s' := by
  apply signup_of_uuidText hw
  rw [h]
  exact hrooms s

/-- Different writes have different keys. -/
theorem key_inj (hrooms : ∀ s, UuidText (room_id s)) (hroom : Function.Injective room_id)
    (huuid : Function.Injective uuid) {w w' : Write σ} (hw : w.Named) (hw' : w'.Named)
    (h : w.key room_id uuid = w'.key room_id uuid) : w = w' := by
  cases w with
  | signup s =>
    obtain ⟨s', rfl⟩ := signup_of_room hrooms hw' h.symm
    rw [hroom h]
  | broadcast s i round =>
    cases w' with
    | signup s' =>
      obtain ⟨_, hne⟩ := signup_of_room hrooms hw h
      simp at hne
    | broadcast s' i' round' =>
      obtain ⟨rfl, rfl, hs⟩ := broadcastKey_fields (roundName_of_mem hw).1 (roundName_of_mem hw').1 h
      rw [huuid hs]
    | sendP2p s' a b round' => exact (broadcastKey_ne_p2pKey (roundName_of_mem hw).1 h).elim
  | sendP2p s a b round =>
    cases w' with
    | signup s' =>
      obtain ⟨_, hne⟩ := signup_of_room hrooms hw h
      simp at hne
    | broadcast s' i round' => exact (broadcastKey_ne_p2pKey (roundName_of_mem hw').1 h.symm).elim
    | sendP2p s' a' b' round' =>
      obtain ⟨rfl, rfl, rfl, hs⟩ := p2pKey_fields (roundName_of_mem hw).1 (roundName_of_mem hw').1 h
      rw [huuid hs]

/-- A write of the member of `s` with this number. -/
inductive Own (s : σ) (number : Nat) : Write σ → Prop where
  | broadcast {round} : round ∈ roundNames → Own s number (.broadcast s number round)
  | sendP2p {i round} : round ∈ roundNames → Own s number (.sendP2p s number i round)

theorem Own.named {s : σ} {number : Nat} {w : Write σ} (h : w.Own s number) : w.Named := by
  cases h with
  | broadcast hround => exact hround
  | sendP2p hround => exact hround

theorem Own.unique {s s' : σ} {number number' : Nat} {w : Write σ} (h : w.Own s number)
    (h' : w.Own s' number') : s = s' ∧ number = number' := by
  cases h with
  | broadcast =>
    cases h' with
    | broadcast => exact ⟨rfl, rfl⟩
  | sendP2p =>
    cases h' with
    | sendP2p => exact ⟨rfl, rfl⟩

theorem Own.not_uuidText {s : σ} {number : Nat} {w : Write σ} (h : w.Own s number) :
    ¬ UuidText (w.key room_id uuid) := by
  intro htext
  obtain ⟨s', rfl⟩ := signup_of_uuidText h.named htext
  cases h

/-- A write for everyone or for the member of `s` with number `i`, by another member. -/
inductive For (s : σ) (i : Nat) : Write σ → Nat → Prop where
  | broadcast {sender round} : round ∈ roundNames → sender ≠ i → For s i (.broadcast s sender round) sender
  | sendP2p {sender round} : round ∈ roundNames → sender ≠ i → For s i (.sendP2p s sender i round) sender

/-- It is a write of the sender. -/
theorem For.own {s : σ} {i sender : Nat} {w : Write σ} (h : w.For s i sender) : w.Own s sender := by
  cases h with
  | broadcast hround => exact .broadcast hround
  | sendP2p hround => exact .sendP2p hround

end Write

/-! ### Members -/

/-- A future of `keygen` or of `sign`, with the slot of its signup. -/
inductive Member (L : KeygenLibrary F G) where
  | keygen (a : KeygenInput L)
  | sign (a : SignInput L)

namespace Member

def signup : Member L → PartySignup
  | keygen a => a.signup
  | sign a => a.signup

def number (a : Member L) : Nat := a.signup.number

def uuid (a : Member L) : String := a.signup.uuid

def count : Member L → Nat
  | keygen a => a.count
  | sign a => a.count

def rounds : Member L → List Round
  | keygen _ => keygenRounds
  | sign _ => signRounds

theorem rounds_wellNamed (a : Member L) : WellNamed a.rounds := by
  cases a with
  | keygen a => exact keygenRounds_wellNamed
  | sign a => exact signRounds_wellNamed

theorem mem_roundNames {a : Member L} {r : Round} (hr : r ∈ a.rounds) : r.name ∈ roundNames := by
  cases a with
  | keygen a => exact List.mem_map_of_mem (List.mem_append_left _ hr)
  | sign a => exact List.mem_map_of_mem (List.mem_append_right _ hr)

section Process

variable (S : SignLibrary L) [Serde AEAD] [Serde Nat] [Serde F] [DecidableEq G] [Field F] [AddCommGroup G]
  [Module F G]

def process : Member L → PartyProc (KeygenNote F ⊕ SignNote S) String
  | keygen a => a.process.mapNote Sum.inl
  | sign a => (a.process S).mapNote Sum.inr

theorem process_follows (a : Member L) :
    (a.process S).Follows (exchangePlan a.number a.count a.uuid a.rounds) := by
  cases a with
  | keygen a => exact (keygen_follows L a).mapNote
  | sign a => exact (sign_follows a).mapNote

end Process

end Member

/-- The sessions that share a store. -/
structure Sessions (σ μ : Type) (L : KeygenLibrary F G) where
  room_id : σ → String
  uuid : σ → String
  member : σ → μ → Option (Member L)

namespace Sessions

/-- A room id of its own that `Token` accepts, a uuid of its own and different numbers. -/
structure Separate (parse_str : String → Bool) (sessions : Sessions σ μ L) : Prop where
  rooms_valid : ∀ s, isValid parse_str (sessions.room_id s) = true
  rooms_distinct : Function.Injective sessions.room_id
  uuids_distinct : Function.Injective sessions.uuid
  uuid_eq : ∀ s m a, sessions.member s m = some a → a.uuid = sessions.uuid s
  numbers_distinct : ∀ s m m' a b, sessions.member s m = some a → sessions.member s m' = some b →
    a.number = b.number → m = m'

def plan (sessions : Sessions σ μ L) (p : σ × μ) : List (Op String) :=
  match sessions.member p.1 p.2 with
  | some a => exchangePlan a.number a.count a.uuid a.rounds
  | none => []

end Sessions

/-! ### Runs -/

/-- The members over the map, and every value that a member has read, with its key. -/
structure SharedStore (σ μ : Type) (S : SignLibrary L) where
  net : Net (σ × μ) String String (KeygenNote F ⊕ SignNote S) String
  reads : List ((σ × μ) × String × String)

namespace SharedStore

inductive Action (σ μ : Type) where
  /-- The write section of the signup of a member, which then starts. -/
  | signup (p : σ × μ)
  /-- The next write or poll of a member. -/
  | move (p : σ × μ)

def start (S : SignLibrary L) : SharedStore σ μ S := ⟨Net.start fun _ => none, []⟩

section Step

variable {S : SignLibrary L} [Serde AEAD] [Serde Nat] [Serde F] [Serde PartySignup] [DecidableEq G] [Field F]
  [AddCommGroup G] [Module F G] [DecidableEq σ] [DecidableEq μ]

def step (sessions : Sessions σ μ L) (s : SharedStore σ μ S) : Action σ μ → Option (SharedStore σ μ S)
  | .signup p =>
    match sessions.member p.1 p.2 with
    | some a =>
      if (s.net.party p).isNone then
        some ⟨{ s.net with store :=
          StoreCommunity.writePartySignup (sessions.room_id p.1) a.signup s.net.store }.spawn p (a.process S),
          s.reads⟩
      else none
    | none => none
  | .move p => (s.net.move p).map fun net => ⟨net, s.reads ++ (s.net.reading p).toList.map fun kv => (p, kv)⟩

end Step

/-! ### The plans of the members -/

section Plans

variable {sessions : Sessions σ μ L} {parse_str : String → Bool}

/-- The keys of the rooms. -/
def reserved (k : String) : Bool := decide (UuidText k)

theorem plan_of_some {p : σ × μ} {a : Member L} (h : sessions.member p.1 p.2 = some a) :
    sessions.plan p = exchangePlan a.number a.count a.uuid a.rounds := by
  simp [Sessions.plan, h]

theorem mem_plan {p : σ × μ} {op : Op String} (h : op ∈ sessions.plan p) :
    ∃ a, sessions.member p.1 p.2 = some a ∧ op ∈ exchangePlan a.number a.count a.uuid a.rounds := by
  cases ha : sessions.member p.1 p.2 with
  | none => simp [Sessions.plan, ha] at h
  | some a => exact ⟨a, rfl, plan_of_some ha ▸ h⟩

/-- What a member writes is its own. -/
theorem plan_own (hsep : sessions.Separate parse_str) {p : σ × μ} {k : String}
    (hk : k ∈ writes (sessions.plan p)) :
    ∃ (a : Member L) (w : Write σ), sessions.member p.1 p.2 = some a ∧ w.Own p.1 a.number ∧
      w.key sessions.room_id sessions.uuid = k := by
  obtain ⟨a, ha, hput⟩ := mem_plan (mem_writes.mp hk)
  obtain ⟨round, hround, -, hkey⟩ := exchange_writes a.rounds_wellNamed (mem_writes.mpr hput)
  obtain ⟨r, hr, hwritten⟩ := List.mem_filterMap.mp hround
  have hname : round ∈ roundNames := by
    have hmem := Member.mem_roundNames hr
    cases r with
    | share => exact Option.some.inj hwritten ▸ hmem
    | send => exact Option.some.inj hwritten ▸ hmem
    | receive => simp [Round.written] at hwritten
  have huuid := hsep.uuid_eq p.1 p.2 a ha
  obtain rfl | ⟨i, rfl⟩ := hkey
  · exact ⟨a, .broadcast p.1 a.number round, ha, .broadcast hname, by rw [Write.key, huuid]⟩
  · exact ⟨a, .sendP2p p.1 a.number i round, ha, .sendP2p hname, by rw [Write.key, huuid]⟩

/-- What a member polls is a write for it of another member of its session. -/
theorem plan_for (hsep : sessions.Separate parse_str) {p : σ × μ} {k : String} (hk : .poll k ∈ sessions.plan p) :
    ∃ (a : Member L) (w : Write σ) (sender : Nat), sessions.member p.1 p.2 = some a ∧ w.For p.1 a.number sender ∧
      w.key sessions.room_id sessions.uuid = k := by
  obtain ⟨a, ha, hpoll⟩ := mem_plan hk
  obtain ⟨r, hr, i, hi, hkey⟩ := exchange_polls hpoll
  have hname := Member.mem_roundNames hr
  have hne := (mem_others.mp hi).2
  have huuid := hsep.uuid_eq p.1 p.2 a ha
  obtain rfl | rfl := hkey
  · exact ⟨a, .broadcast p.1 i r.name, i, ha, .broadcast hname hne, by rw [Write.key, huuid]⟩
  · exact ⟨a, .sendP2p p.1 i a.number r.name, i, ha, .sendP2p hname hne, by rw [Write.key, huuid]⟩

theorem rooms_text (hsep : sessions.Separate parse_str)
    (hparse : ∀ text, parse_str text = true → UuidText text) (s : σ) : UuidText (sessions.room_id s) :=
  hparse _ (hsep.rooms_valid s)

theorem plan_disciplined (hsep : sessions.Separate parse_str)
    (hparse : ∀ text, parse_str text = true → UuidText text) : Disciplined reserved sessions.plan := by
  have hkeys : ∀ {w w' : Write σ}, w.Named → w'.Named → w.key sessions.room_id sessions.uuid =
      w'.key sessions.room_id sessions.uuid → w = w' :=
    Write.key_inj (rooms_text hsep hparse) hsep.rooms_distinct hsep.uuids_distinct
  have hopen : ∀ p k, .put k ∈ sessions.plan p ∨ .poll k ∈ sessions.plan p → reserved k = false := by
    intro p k hk
    rw [reserved, decide_eq_false_iff_not]
    rcases hk with hk | hk
    · obtain ⟨a, w, -, hown, rfl⟩ := plan_own hsep (mem_writes.mpr hk)
      exact hown.not_uuidText
    · obtain ⟨a, w, sender, -, hfor, rfl⟩ := plan_for hsep hk
      exact hfor.own.not_uuidText
  refine ⟨fun p => ?_, fun p q k hp hq => ?_, fun p k hk => hopen p k (Or.inl hk),
    fun p k hk => hopen p k (Or.inr hk)⟩
  · cases ha : sessions.member p.1 p.2 with
    | none => simp [Sessions.plan, ha]
    | some a =>
      rw [plan_of_some ha]
      exact exchange_nodup _ _ _ a.rounds_wellNamed
  · obtain ⟨a, w, ha, hown, rfl⟩ := plan_own hsep hp
    obtain ⟨b, w', hb, hown', hkey⟩ := plan_own hsep hq
    obtain rfl := hkeys hown'.named hown.named hkey
    obtain ⟨hs, hnumber⟩ := hown.unique hown'
    exact Prod.ext hs (hsep.numbers_distinct p.1 p.2 q.2 a b ha (hs ▸ hb) hnumber)

end Plans

/-! ### What holds in every state -/

section Invariant

variable {S : SignLibrary L} [Serde PartySignup]

/-- The member of session `i` with number `sender` wrote `v` under `k`. -/
def SentBy (sessions : Sessions σ μ L) (s : SharedStore σ μ S) (i : σ) (sender : Nat) (k v : String) : Prop :=
  ∃ m a party, sessions.member i m = some a ∧ a.number = sender ∧ s.net.party (i, m) = some party ∧
    (k, v) ∈ party.wrote

/-- The sessions do not disturb each other. -/
structure Isolated (sessions : Sessions σ μ L) (s : SharedStore σ μ S) : Prop where
  own : ∀ p party kv, s.net.party p = some party → kv ∈ party.wrote →
    ∃ (a : Member L) (w : Write σ), sessions.member p.1 p.2 = some a ∧ w.Own p.1 a.number ∧
      w.key sessions.room_id sessions.uuid = kv.1
  once : ∀ p party, s.net.party p = some party → (party.wrote.map Prod.fst).Nodup
  apart : ∀ p q party other kv kv', s.net.party p = some party → s.net.party q = some other →
    kv ∈ party.wrote → kv' ∈ other.wrote → kv.1 = kv'.1 → p = q
  kept : ∀ p party kv, s.net.party p = some party → kv ∈ party.wrote → s.net.store kv.1 = some kv.2
  rooms : ∀ i v, s.net.store (sessions.room_id i) = some v →
    ∃ m a, sessions.member i m = some a ∧ v = Serde.toStr a.signup
  read : ∀ p kv, (p, kv) ∈ s.reads →
    ∃ (a : Member L) (w : Write σ) (sender : Nat), sessions.member p.1 p.2 = some a ∧
      w.For p.1 a.number sender ∧ w.key sessions.room_id sessions.uuid = kv.1 ∧
      SentBy sessions s p.1 sender kv.1 kv.2
  broadcasts : ∀ (p : σ × μ) a, sessions.member p.1 p.2 = some a → ∀ round ∈ roundNames, ∀ ans,
    (pollForBroadcasts a.number a.count round a.uuid : PartyProc Unit (List String)).eval s.net.store = some ans →
      List.Forall₂ (fun i v => SentBy sessions s p.1 i (broadcastKey i round a.uuid) v)
        (others a.number (List.range' 1 a.count)) ans
  sends : ∀ (p : σ × μ) a, sessions.member p.1 p.2 = some a → ∀ round ∈ roundNames, ∀ ans,
    (pollForP2p a.number a.count round a.uuid : PartyProc Unit (List String)).eval s.net.store = some ans →
      List.Forall₂ (fun i v => SentBy sessions s p.1 i (p2pKey i a.number round a.uuid) v)
        (others a.number (List.range' 1 a.count)) ans

structure Inv (sessions : Sessions σ μ L) (s : SharedStore σ μ S) : Prop where
  consistent : Consistent reserved sessions.plan s.net
  read : ∀ p kv, (p, kv) ∈ s.reads →
    .poll kv.1 ∈ sessions.plan p ∧ visible reserved s.net.store kv.1 = some kv.2
  rooms : ∀ i v, s.net.store (sessions.room_id i) = some v →
    ∃ m a, sessions.member i m = some a ∧ v = Serde.toStr a.signup

variable {sessions : Sessions σ μ L} {parse_str : String → Bool} {s t : SharedStore σ μ S}

theorem start_inv : Inv sessions (start S : SharedStore σ μ S) :=
  ⟨start_consistent fun _ x hx => (Option.some_ne_none x hx.symm).elim,
    fun _ _ h => (List.not_mem_nil h).elim, fun _ v h => (Option.some_ne_none v h.symm).elim⟩

/-- What is in the map under the key of a write is from the member whose write it is. -/
theorem Inv.sentBy (h : Inv sessions s) (hsep : sessions.Separate parse_str)
    (hparse : ∀ text, parse_str text = true → UuidText text) {i : σ} {sender : Nat} {w : Write σ}
    (hw : w.Own i sender) {v : String} (hv : s.net.store (w.key sessions.room_id sessions.uuid) = some v) :
    SentBy sessions s i sender (w.key sessions.room_id sessions.uuid) v := by
  have hvisible : visible reserved s.net.store (w.key sessions.room_id sessions.uuid) = some v :=
    visible_some.mpr ⟨decide_eq_false hw.not_uuidText, hv⟩
  obtain ⟨q, party, hq, hmem⟩ := h.consistent.author _ v hvisible
  obtain ⟨a, w', ha, hown, hkey⟩ := plan_own hsep (h.consistent.wrote_plan hq hmem)
  obtain rfl := Write.key_inj (rooms_text hsep hparse) hsep.rooms_distinct hsep.uuids_distinct hown.named
    hw.named hkey
  obtain ⟨rfl, hnumber⟩ := hown.unique hw
  exact ⟨q.2, a, party, ha, hnumber, hq, hmem⟩

theorem Inv.isolated (h : Inv sessions s) (hsep : sessions.Separate parse_str)
    (hparse : ∀ text, parse_str text = true → UuidText text) : Isolated sessions s := by
  have hplan : Disciplined reserved sessions.plan := plan_disciplined hsep hparse
  refine ⟨fun p party kv hp hkv => plan_own hsep (h.consistent.wrote_plan hp hkv),
    fun p party hp => h.consistent.wrote_nodup hplan hp, fun p q party other kv kv' hp hq hkv hkv' hsame => ?_,
    fun p party kv hp hkv => (visible_some.mp (h.consistent.stored hp hkv)).2, h.rooms, fun p kv hread => ?_,
    fun p a ha round hround ans hans => ?_, fun p a ha round hround ans hans => ?_⟩
  · exact hplan.apart p q kv.1 (h.consistent.wrote_plan hp hkv) (hsame ▸ h.consistent.wrote_plan hq hkv')
  · obtain ⟨hpoll, hvisible⟩ := h.read p kv hread
    obtain ⟨a, w, sender, ha, hfor, hkey⟩ := plan_for hsep hpoll
    refine ⟨a, w, sender, ha, hfor, hkey, ?_⟩
    have hstore := (visible_some.mp hvisible).2
    rw [← hkey] at hstore ⊢
    exact h.sentBy hsep hparse hfor.own hstore
  · rw [hsep.uuid_eq p.1 p.2 a ha] at hans ⊢
    exact (pollLoop_eval_some hans).imp fun i v hv =>
      h.sentBy (w := .broadcast p.1 i round) hsep hparse (.broadcast hround) hv
  · rw [hsep.uuid_eq p.1 p.2 a ha] at hans ⊢
    exact (pollLoop_eval_some hans).imp fun i v hv =>
      h.sentBy (w := .sendP2p p.1 i a.number round) hsep hparse (.sendP2p hround) hv

end Invariant

section Runs

variable {S : SignLibrary L} [Serde AEAD] [Serde Nat] [Serde F] [Serde PartySignup] [DecidableEq G] [Field F]
  [AddCommGroup G] [Module F G] [DecidableEq σ] [DecidableEq μ] {sessions : Sessions σ μ L}
  {parse_str : String → Bool} {s t : SharedStore σ μ S}

theorem step_signup {p : σ × μ} (hstep : step sessions s (.signup p) = some t) :
    ∃ a, sessions.member p.1 p.2 = some a ∧ s.net.party p = none ∧
      t = ⟨{ s.net with
          store := Function.update s.net.store (sessions.room_id p.1) (some (Serde.toStr a.signup)) }.spawn p
        (a.process S), s.reads⟩ := by
  cases ha : sessions.member p.1 p.2 with
  | none => simp [step, ha] at hstep
  | some a =>
    simp only [step, ha] at hstep
    split_ifs at hstep with hnone
    refine ⟨a, rfl, Option.isNone_iff_eq_none.mp hnone, ?_⟩
    rw [← Store.insert_eq_update]
    exact (Option.some.inj hstep).symm

theorem signup_inv {p : σ × μ} (hsep : sessions.Separate parse_str)
    (hparse : ∀ text, parse_str text = true → UuidText text) (h : Inv sessions s)
    (hstep : step sessions s (.signup p) = some t) : Inv sessions t := by
  obtain ⟨a, ha, hnone, rfl⟩ := step_signup hstep
  have hroom : reserved (sessions.room_id p.1) = true := decide_eq_true (rooms_text hsep hparse p.1)
  refine ⟨?_, fun q kv hread => ?_, fun i v hv => ?_⟩
  · refine (h.consistent.writeReserved hroom _).spawn hnone (fun _ _ => rfl) ?_
    rw [plan_of_some ha]
    exact a.process_follows S
  · obtain ⟨hpoll, hvisible⟩ := h.read q kv hread
    refine ⟨hpoll, ?_⟩
    show visible reserved (Function.update s.net.store _ _) kv.1 = some kv.2
    rwa [visible_writeReserved hroom]
  · change Function.update s.net.store (sessions.room_id p.1) _ (sessions.room_id i) = some v at hv
    by_cases hi : i = p.1
    · subst hi
      rw [Function.update_self] at hv
      exact ⟨p.2, a, ha, (Option.some.inj hv).symm⟩
    · rw [Function.update_of_ne (fun heq => hi (hsep.rooms_distinct heq))] at hv
      exact h.rooms i v hv

theorem move_inv {p : σ × μ} (hsep : sessions.Separate parse_str)
    (hparse : ∀ text, parse_str text = true → UuidText text) (h : Inv sessions s)
    (hstep : step sessions s (.move p) = some t) : Inv sessions t := by
  obtain ⟨net, hmove, rfl⟩ := Option.map_eq_some_iff.mp hstep
  have hplan : Disciplined reserved sessions.plan := plan_disciplined hsep hparse
  refine ⟨move_consistent hplan h.consistent hmove, fun q kv hread => ?_, fun i v hv => ?_⟩
  · have hbefore : .poll kv.1 ∈ sessions.plan q ∧ visible reserved s.net.store kv.1 = some kv.2 := by
      rcases List.mem_append.mp hread with hold | hnew
      · exact h.read q kv hold
      · obtain ⟨kv', hreading, heq⟩ := List.mem_map.mp hnew
        obtain ⟨rfl, rfl⟩ := Prod.mk.inj heq
        exact h.consistent.reading hplan (Option.mem_toList.mp hreading)
    exact ⟨hbefore.1, move_visible hplan h.consistent hmove hbefore.2⟩
  · rw [move_reserved hplan h.consistent hmove (decide_eq_true (rooms_text hsep hparse i))] at hv
    exact h.rooms i v hv

theorem exec_inv (hsep : sessions.Separate parse_str) (hparse : ∀ text, parse_str text = true → UuidText text)
    {actions : List (Action σ μ)} (hrun : Machine.exec (step sessions) (start S) actions = some s) :
    Inv sessions s := by
  refine Machine.exec_invariant (I := Inv sessions) (fun s a t h hstep => ?_) start_inv hrun
  cases a with
  | signup p => exact signup_inv hsep hparse h hstep
  | move p => exact move_inv hsep hparse h hstep

/-- Different writes of any sessions have different keys. In every run each write is one of its member, made
once and kept, and whatever is polled is what the named member of the same session wrote. -/
theorem sessions_isolated (S : SignLibrary L) (parse_str : String → Bool)
    (hparse : ∀ text, parse_str text = true → UuidText text) (sessions : Sessions σ μ L)
    (hsep : sessions.Separate parse_str) :
    (∀ w w' : Write σ, w.Named → w'.Named →
      w.key sessions.room_id sessions.uuid = w'.key sessions.room_id sessions.uuid → w = w') ∧
    ∀ (actions : List (Action σ μ)) (s : SharedStore σ μ S),
      Machine.exec (step sessions) (start S) actions = some s → Isolated sessions s :=
  ⟨fun _ _ hw hw' h => Write.key_inj (rooms_text hsep hparse) hsep.rooms_distinct hsep.uuids_distinct hw hw' h,
    fun _ _ hrun => (exec_inv hsep hparse hrun).isolated hsep hparse⟩

end Runs

/-! ### A key generation and a signing -/

/-- Hyphenated uuids. -/
def parseHyphenated (text : String) : Bool :=
  text.length == 36 && text.toList.all fun c => decide (c ∈ "0123456789abcdefABCDEF-".toList)

theorem parseHyphenated_text {text : String} (h : parseHyphenated text = true) : UuidText text := by
  have hchars : UuidText "0123456789abcdefABCDEF-" := by decide
  rw [parseHyphenated, Bool.and_eq_true, List.all_eq_true] at h
  exact fun c hc => hchars c (of_decide_eq_true (h.2 c hc))

/-- Session `true` is a key generation with members 1 and 2, session `false` a signing. -/
def smallSessions : Sessions Bool Nat KeygenLibrary.small :=
  letI := Serde.numeric Nat
  letI := Serde.numeric (ZMod 3)
  let uuid := fun s => if s then "00000000-0000-4000-8000-000000000001" else "00000000-0000-4000-8000-000000000002"
  { room_id := fun s => if s then "00000000-0000-4000-8000-000000000003" else "00000000-0000-4000-8000-000000000004"
    uuid := uuid
    member := fun s m =>
      if m = 1 ∨ m = 2 then
        some (if s then .keygen ⟨⟨1, 2⟩, fun _ => m, ⟨m, uuid s⟩⟩
          else .sign ⟨.release, 1, Serde.toStr (smallOutput (3 - m)), "message", fun _ => (m - 1 : Nat),
            ⟨m, uuid s⟩⟩)
      else none }

theorem smallSessions_separate : smallSessions.Separate parseHyphenated where
  rooms_valid := by decide
  rooms_distinct := by decide
  uuids_distinct := by decide
  uuid_eq := by
    intro s m a ha
    simp only [smallSessions] at ha
    split_ifs at ha with hm hs <;> cases ha
    · simp [smallSessions, Member.uuid, Member.signup, hs]
    · simp [smallSessions, Member.uuid, Member.signup, hs]
  numbers_distinct := by
    intro s m m' a b ha hb hnumber
    simp only [smallSessions] at ha hb
    split_ifs at ha hb <;> cases ha <;> cases hb <;> exact hnumber

/-- Both sessions in the middle of a run in which every member has read something. -/
theorem two_sessions_isolated :
    letI := AEAD.plain
    letI := PartySignup.compact
    letI := Serde.numeric Nat
    letI := Serde.numeric (ZMod 3)
    ∃ (actions : List (Action Bool Nat)) (s : SharedStore Bool Nat SignLibrary.small),
      Machine.exec (step smallSessions) (start SignLibrary.small) actions = some s ∧
      s.reads.map Prod.fst = [(true, 1), (false, 1), (true, 2), (false, 2)] ∧ Isolated smallSessions s := by
  let _ := AEAD.plain
  let _ := PartySignup.compact
  let _ := Serde.numeric Nat
  let _ := Serde.numeric (ZMod 3)
  let members := [(true, 1), (false, 1), (true, 2), (false, 2)]
  have hrun : (Machine.exec (step smallSessions) (start SignLibrary.small)
      (members.map .signup ++ members.map .move ++ members.map .move)).map (fun s => s.reads.map Prod.fst) =
        some members := by
    decide +kernel
  obtain ⟨s, hs, hreads⟩ := Option.map_eq_some_iff.mp hrun
  exact ⟨_, s, hs, hreads, (sessions_isolated SignLibrary.small parseHyphenated (fun _ => parseHyphenated_text)
    smallSessions smallSessions_separate).2 _ s hs⟩

end SharedStore

end Gg18
