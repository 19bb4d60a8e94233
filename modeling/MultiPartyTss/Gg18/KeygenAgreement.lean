import Mathlib.Data.List.Perm.Subperm
import MultiPartyTss.Gg18.KeygenRun

/-!
# Centralized key generation

`gen_keys` makes one fresh store and joins `parties` futures of `keygen` on it. Each signs up under the
room id and then runs the process of `Keygen`. `get_party_signup` does not suspend, so a signup is one
step; after it, every write and every attempt of a poll is a step of its own, in any order.

`GenKeys.keygens_agree`: the signups give the numbers `1, 2, …` in one session, and all futures that
finish return the same vectors and the same public key, made of the contributions of parties `1..=n`.
-/

namespace Gg18

open Proc Slots Network

/-- What `Uuid::new_v4().to_string()` gives. -/
structure Uuid where
  text : String
  length_eq : text.length = 36

variable {F G : Type} {L : KeygenLibrary F G}

structure GenKeys (L : KeygenLibrary F G) where
  net : Net Nat String String (KeygenNote F) String
  /-- The futures that have signed up, with their slots, oldest first. -/
  signed : List (Nat × PartySignup)

namespace GenKeys

inductive Action where
  /-- Future `f` signs up; `fresh` is its `Uuid::new_v4`, if it needs one. -/
  | signup (f : Nat) (fresh : Uuid)
  /-- The next step of future `f`. -/
  | move (f : Nat)

def start (L : KeygenLibrary F G) : GenKeys L := ⟨Net.start fun _ => none, []⟩

/-- What future `f` runs `keygen` with, once it has signed up. -/
def input (params : Parameters) (coins : Nat → Draw → L.Seed) (s : GenKeys L) (f : Nat) :
    Option (KeygenInput L) :=
  (s.signed.lookup f).map fun party_signup => ⟨params, coins f, party_signup⟩

/-- A failed signup is a panic of the future. -/
def step [Serde AEAD] [Serde PartySignup] [Field F] [AddCommGroup G] [Module F G] (params : Parameters)
    (coins : Nat → Draw → L.Seed) (room_id : Uuid) (s : GenKeys L) : Action → Option (GenKeys L)
  | .signup f fresh =>
    if f < params.share_count ∧ (s.net.party f).isNone then
      match StoreCommunity.getPartySignup params.share_count room_id.text fresh.text s.net.store with
      | some (.ok party_signup, hm) =>
        some ⟨{ s.net with store := hm }.spawn f (keygen L params (coins f) party_signup),
          s.signed ++ [(f, party_signup)]⟩
      | some (.error (), hm) => some ⟨{ s.net with store := hm }.spawn f .fail, s.signed⟩
      | none => some ⟨s.net.spawn f .fail, s.signed⟩
    else none
  | .move f => (s.net.move f).map fun net => ⟨net, s.signed⟩

/-! ### The slots -/

section Slots

variable {params : Parameters} {coins : Nat → Draw → L.Seed} {uuid : String} {s : GenKeys L}

/-- The futures that have signed up have the numbers `1, 2, …` of session `uuid`. -/
structure Slotted (params : Parameters) (uuid : String) (s : GenKeys L) : Prop where
  futures : (s.signed.map Prod.fst).Nodup
  known : ∀ f ∈ s.signed.map Prod.fst, f < params.share_count
  numbers : s.signed.map Prod.snd = (List.range' 1 s.signed.length).map fun k => ⟨k, uuid⟩
  joined : ∀ f, s.net.party f = none ↔ f ∉ s.signed.map Prod.fst

/-- Distinct futures below `n` are at most `n`. -/
theorem length_le_of_futures {fs : List Nat} {n : Nat} (hnodup : fs.Nodup) (hlt : ∀ f ∈ fs, f < n) :
    fs.length ≤ n := by
  have hsub : fs ⊆ List.range n := fun f hf => List.mem_range.mpr (hlt f hf)
  have hle := (List.Nodup.subperm hnodup hsub).length_le
  rwa [List.length_range] at hle

theorem Slotted.length_le (h : Slotted params uuid s) : s.signed.length ≤ params.share_count := by
  have hle := length_le_of_futures h.futures h.known
  rwa [List.length_map] at hle

/-- Another future finds a slot left. -/
theorem Slotted.length_lt (h : Slotted params uuid s) {f : Nat} (hf : f < params.share_count)
    (hnew : f ∉ s.signed.map Prod.fst) : s.signed.length < params.share_count := by
  have hle := length_le_of_futures (List.nodup_cons.mpr ⟨hnew, h.futures⟩)
    (List.forall_mem_cons.mpr ⟨hf, h.known⟩)
  rwa [List.length_cons, List.length_map] at hle

/-- Once all futures have signed up, all numbers are given out. -/
theorem Slotted.complete (h : Slotted params uuid s)
    (hall : ∀ f, f < params.share_count → s.net.party f ≠ none) :
    s.signed.length = params.share_count := by
  apply Nat.le_antisymm h.length_le
  have hsub : List.range params.share_count ⊆ s.signed.map Prod.fst := by
    intro f hf
    by_contra hnew
    exact hall f (List.mem_range.mp hf) ((h.joined f).mpr hnew)
  have hle := (List.Nodup.subperm List.nodup_range hsub).length_le
  rwa [List.length_range, List.length_map] at hle

theorem lookup_of_not_mem {f : Nat} (h : f ∉ s.signed.map Prod.fst) : s.signed.lookup f = none := by
  rw [List.lookup_eq_none_iff]
  intro e he
  rw [bne_iff_ne]
  rintro rfl
  exact h (List.mem_map_of_mem he)

theorem input_concat_self {net : Net Nat String String (KeygenNote F) String} {f : Nat} {slot : PartySignup}
    (h : f ∉ s.signed.map Prod.fst) :
    input params coins ⟨net, s.signed ++ [(f, slot)]⟩ f = some ⟨params, coins f, slot⟩ := by
  rw [input, List.lookup_append, lookup_of_not_mem h, Option.none_or, List.lookup_cons_self, Option.map_some]

theorem input_concat_of_ne {net : Net Nat String String (KeygenNote F) String} {f g : Nat}
    {slot : PartySignup} (h : g ≠ f) :
    input params coins ⟨net, s.signed ++ [(f, slot)]⟩ g = s.input params coins g := by
  have hnone : [(f, slot)].lookup g = none := by simp [h]
  rw [input, List.lookup_append, hnone, Option.or_none, input]

/-- The slot of a future has its number from the order of the signups. -/
theorem Slotted.input_some (h : Slotted params uuid s) {f : Nat} {a : KeygenInput L}
    (ha : s.input params coins f = some a) :
    ∃ i < s.signed.length, (s.signed.map Prod.fst)[i]? = some f ∧ a = ⟨params, coins f, ⟨i + 1, uuid⟩⟩ := by
  obtain ⟨party_signup, hlookup, rfl⟩ := Option.map_eq_some_iff.mp ha
  obtain ⟨before, after, hsigned, -⟩ := List.lookup_eq_some_iff.mp hlookup
  have hlen : before.length < s.signed.length := by
    rw [hsigned]
    simp
  have hget : s.signed[before.length]? = some (f, party_signup) := by
    rw [hsigned]
    simp
  have hslot := congrArg (fun slots => slots[before.length]?) h.numbers
  simp only [List.getElem?_map, hget, Option.map_some, List.getElem?_range' hlen, Option.some.injEq] at hslot
  refine ⟨before.length, hlen, by rw [List.getElem?_map, hget, Option.map_some], ?_⟩
  rw [hslot, show 1 + 1 * before.length = before.length + 1 by omega]

end Slots

/-! ### The invariant -/

section Invariant

variable [Serde AEAD] [Serde PartySignup] [Field F] [AddCommGroup G] [Module F G]

variable (params : Parameters) (coins : Nat → Draw → L.Seed) (room_id : Uuid)

structure GenInv (uuid : Uuid) (s : GenKeys L) : Prop where
  slots : Slotted params uuid.text s
  stored : s.net.store room_id.text = StoreCommunity.issuedEntry s.signed.length uuid.text
  session : KeygenSession (fun k => k == room_id.text) (s.input params coins) params.share_count uuid.text s.net

variable {params coins room_id} {uuid : Uuid} {s t : GenKeys L}

omit [Serde PartySignup] in
/-- The signups say which numbers the parties have. -/
theorem Slotted.session (h : Slotted params uuid.text s)
    (started : ∀ f party, s.net.party f = some party →
      ∃ a, s.input params coins f = some a ∧ party.init = a.process)
    (consistent : Consistent (fun k => k == room_id.text)
      (sessionPlan (fun f => (s.input params coins f).map KeygenInput.number) params.share_count uuid.text
        keygenRounds) s.net) :
    KeygenSession (fun k => k == room_id.text) (s.input params coins) params.share_count uuid.text s.net := by
  refine ⟨fun f a ha => ?_, fun f a ha => ?_, fun f a ha => ?_, fun f g a b ha hb hnumber => ?_, started,
    consistent⟩
  · obtain ⟨i, -, -, rfl⟩ := h.input_some ha
    rfl
  · obtain ⟨i, -, -, rfl⟩ := h.input_some ha
    rfl
  · obtain ⟨i, hi, -, rfl⟩ := h.input_some ha
    have hle := h.length_le
    exact ⟨Nat.le_add_left 1 i, by show i + 1 ≤ _; omega⟩
  · obtain ⟨i, -, hf, rfl⟩ := h.input_some ha
    obtain ⟨i', -, hg, rfl⟩ := h.input_some hb
    obtain rfl : i = i' := Nat.succ.inj hnumber
    exact Option.some.inj (hf.symm.trans hg)

theorem start_inv : GenInv params coins room_id room_id (start L) := by
  have hslots : Slotted params room_id.text (start L) :=
    ⟨List.nodup_nil, fun f hf => (List.not_mem_nil hf).elim, rfl,
      fun f => ⟨fun _ => List.not_mem_nil, fun _ => rfl⟩⟩
  refine ⟨hslots, rfl, hslots.session (fun f party hf => ?_) (start_consistent fun f x hx => ?_)⟩
  · exact (Option.some_ne_none party hf.symm).elim
  · exact (Option.some_ne_none x hx.symm).elim

omit [Serde AEAD] [Serde PartySignup] in
theorem reserved_room {uuid : Uuid} (k : String) (hk : uuid.text.length < k.length) :
    (k == room_id.text) = false := by
  rw [beq_eq_false_iff_ne]
  rintro rfl
  rw [uuid.length_eq, room_id.length_eq] at hk
  exact Nat.lt_irrefl 36 hk

theorem move_inv (h : GenInv params coins room_id uuid s) {f : Nat}
    (hstep : step params coins room_id s (.move f) = some t) : GenInv params coins room_id uuid t := by
  obtain ⟨net, hmove, rfl⟩ := Option.map_eq_some_iff.mp hstep
  refine ⟨⟨h.slots.futures, h.slots.known, h.slots.numbers, fun g => ?_⟩, ?_,
    h.session.move reserved_room hmove⟩
  · have hinit := move_init hmove g
    rw [← h.slots.joined g, ← Option.map_eq_none_iff (f := Party.init), hinit, Option.map_eq_none_iff]
  · have hsame := move_reserved (h.session.disciplined reserved_room) h.session.consistent hmove
      (beq_self_eq_true room_id.text)
    exact hsame.trans h.stored

/-- A signup gives the next number, and the first one starts the session. -/
theorem signup_step (h : GenInv params coins room_id uuid s) {f : Nat} {fresh : Uuid}
    (hstep : step params coins room_id s (.signup f fresh) = some t) :
    f < params.share_count ∧ f ∉ s.signed.map Prod.fst ∧
      ∃ slot : PartySignup, slot = ⟨s.signed.length + 1, (if s.signed.length = 0 then fresh else uuid).text⟩ ∧
        t = ⟨{ s.net with store := StoreCommunity.writePartySignup room_id.text slot s.net.store }.spawn f
          (keygen L params (coins f) slot), s.signed ++ [(f, slot)]⟩ := by
  simp only [step] at hstep
  split_ifs at hstep with hguard
  obtain ⟨hf, hnone⟩ := hguard
  have hnew := (h.slots.joined f).mp (Option.isNone_iff_eq_none.mp hnone)
  have hread := StoreCommunity.readPartySignup_issued fresh.text h.stored (h.slots.length_lt hf hnew)
  rw [StoreCommunity.getPartySignup, hread] at hstep
  refine ⟨hf, hnew, _, rfl, ?_⟩
  rw [apply_ite Uuid.text]
  exact (Option.some.inj hstep).symm

theorem signup_inv (h : GenInv params coins room_id uuid s) {f : Nat} {fresh : Uuid}
    (hstep : step params coins room_id s (.signup f fresh) = some t) :
    GenInv params coins room_id (if s.signed.length = 0 then fresh else uuid) t := by
  obtain ⟨hf, hnew, slot, hslot, rfl⟩ := signup_step h hstep
  generalize huuid : (if s.signed.length = 0 then fresh else uuid) = uuid' at hslot ⊢
  -- before the first signup there is nothing of the old session
  have hnumbers : s.signed.map Prod.snd = (List.range' 1 s.signed.length).map fun k => ⟨k, uuid'.text⟩ := by
    rw [← huuid]
    split_ifs with hzero
    · rw [List.length_eq_zero_iff] at hzero
      rw [hzero]
      rfl
    · exact h.slots.numbers
  have hplan : ∀ g, g ≠ f →
      sessionPlan (fun g => (input params coins ⟨s.net, s.signed ++ [(f, slot)]⟩ g).map KeygenInput.number)
        params.share_count uuid'.text keygenRounds g =
      sessionPlan (fun g => (s.input params coins g).map KeygenInput.number) params.share_count uuid.text
        keygenRounds g := by
    intro g hg
    rw [sessionPlan, sessionPlan, input_concat_of_ne hg]
    cases ha : s.input params coins g with
    | none => rfl
    | some a =>
      obtain ⟨i, hi, -, -⟩ := h.slots.input_some ha
      rw [← huuid, if_neg (by omega)]
  have hslots : Slotted params uuid'.text
      (⟨{ s.net with store := StoreCommunity.writePartySignup room_id.text slot s.net.store }.spawn f
        (keygen L params (coins f) slot), s.signed ++ [(f, slot)]⟩ : GenKeys L) := by
    refine ⟨?_, ?_, ?_, fun g => ?_⟩
    · rw [List.map_append, List.nodup_append]
      refine ⟨h.slots.futures, List.nodup_singleton f, ?_⟩
      rintro g hg g' hg' rfl
      obtain rfl := List.mem_singleton.mp hg'
      exact hnew hg
    · rw [List.map_append, List.forall_mem_append]
      exact ⟨h.slots.known, List.forall_mem_singleton.mpr hf⟩
    · rw [List.map_append, hnumbers, List.length_append, List.length_singleton, List.range'_concat,
        List.map_append, hslot, Nat.one_mul, Nat.add_comm 1]
      rfl
    · rw [List.map_append, List.mem_append, List.map_singleton, List.mem_singleton]
      by_cases hg : g = f
      · subst hg
        simp [Net.spawn]
      · rw [Net.spawn, setParty_of_ne _ _ hg]
        simpa [hg] using h.slots.joined g
  refine ⟨hslots, ?_, hslots.session (fun g party hg => ?_) ?_⟩
  · rw [List.length_append, List.length_singleton, hslot]
    exact StoreCommunity.writePartySignup_issued room_id.text s.signed.length uuid'.text s.net.store
  · by_cases hgf : g = f
    · subst hgf
      rw [Net.spawn, setParty_self, Option.some.injEq] at hg
      subst hg
      exact ⟨_, input_concat_self hnew, rfl⟩
    · rw [Net.spawn, setParty_of_ne _ _ hgf] at hg
      obtain ⟨a, ha, hinit⟩ := h.session.started g party hg
      exact ⟨a, (input_concat_of_ne hgf).trans ha, hinit⟩
  · have hwritten : Consistent (fun k => k == room_id.text)
        (sessionPlan (fun f => (s.input params coins f).map KeygenInput.number) params.share_count uuid.text
          keygenRounds)
        { s.net with store := StoreCommunity.writePartySignup room_id.text slot s.net.store } := by
      rw [StoreCommunity.writePartySignup, Store.insert_eq_update]
      exact h.session.consistent.writeReserved (beq_self_eq_true room_id.text) _
    refine hwritten.spawn ((h.slots.joined f).mpr hnew) hplan ?_
    rw [sessionPlan, input_concat_self hnew]
    have hfollows := keygen_follows L ⟨params, coins f, slot⟩
    rw [hslot] at hfollows ⊢
    exact hfollows

theorem exec_inv {actions : List Action}
    (hrun : Machine.exec (step params coins room_id) (start L) actions = some s) :
    ∃ uuid, GenInv params coins room_id uuid s := by
  refine Machine.exec_invariant (I := fun s => ∃ uuid, GenInv params coins room_id uuid s) ?_
    ⟨room_id, start_inv⟩ hrun
  rintro s action t ⟨uuid, h⟩ hstep
  cases action with
  | signup f fresh => exact ⟨_, signup_inv h hstep⟩
  | move f => exact ⟨uuid, move_inv h hstep⟩

/-! ### Agreement -/

/-- In every state of the futures of `gen_keys`: those that have signed up have the numbers `1, 2, …` in
one session, and are all of `1..=n` once all have; and those that have finished return the same sharings,
Paillier keys and public key, which are the contributions of parties `1..=n` in order. -/
theorem keygens_agree (params : Parameters) (coins : Nat → Draw → L.Seed) (room_id : Uuid)
    (actions : List Action) (s : GenKeys L)
    (hrun : Machine.exec (step params coins room_id) (start L) actions = some s) :
    ∃ uuid : Uuid, Slotted params uuid.text s ∧
      ((∀ f < params.share_count, s.net.party f ≠ none) → s.signed.length = params.share_count) ∧
      (∀ f party, s.net.party f = some party →
        ∃ a, s.input params coins f = some a ∧ party.init = a.process) ∧
      KeygenSession.Agreed (s.input params coins) params.share_count uuid.text s.net ∧
      ∀ f g text text' (out out' : L.Output), s.net.output f = some text → s.net.output g = some text' →
        Serde.fromStr text = some out → Serde.fromStr text' = some out' → out.2.2.2 = out'.2.2.2 := by
  obtain ⟨uuid, hinv⟩ := exec_inv hrun
  have hagreed := hinv.session.agreement
  refine ⟨uuid, hinv.slots, hinv.slots.complete, hinv.session.started, hagreed, ?_⟩
  intro f g text text' out out' hf hg hout hout'
  obtain ⟨party, hparty, -⟩ := output_eq_some.mp hf
  obtain ⟨other, hother, -⟩ := output_eq_some.mp hg
  obtain ⟨a, ha, -⟩ := hinv.session.started f party hparty
  obtain ⟨b, hb, -⟩ := hinv.session.started g other hother
  exact hagreed.same_output ha hf hb hg hout hout'

end Invariant

/-- Two futures that move in turn both finish, and agree. -/
theorem two_futures_agree :
    letI := PartySignup.compact
    letI := AEAD.plain
    ∃ (parsed : Uuid) (actions : List Action) (s : GenKeys KeygenLibrary.small),
      Machine.exec (step ⟨1, 2⟩ (fun f _ => f + 1) parsed) (start _) actions = some s ∧
      (s.net.output 0).isSome ∧ (s.net.output 1).isSome ∧
      ∃ uuid : Uuid, Slotted ⟨1, 2⟩ uuid.text s ∧
        KeygenSession.Agreed (s.input ⟨1, 2⟩ fun f _ => f + 1) 2 uuid.text s.net := by
  let _ := PartySignup.compact
  let _ := AEAD.plain
  have hrun : ((Machine.exec (step (L := KeygenLibrary.small) ⟨1, 2⟩ (fun f _ => f + 1)
      ⟨"00000000-0000-4000-8000-000000000000", by decide⟩) (start _)
      (.signup 0 ⟨"00000000-0000-4000-8000-000000000001", by decide⟩ ::
        .signup 1 ⟨"00000000-0000-4000-8000-000000000002", by decide⟩ ::
        (List.range 28).map fun i => .move (i % 2))).map fun s =>
      ((s.net.output 0).isSome, (s.net.output 1).isSome)) = some (true, true) := by
    decide +kernel
  obtain ⟨s, hs, hfinished⟩ := Option.map_eq_some_iff.mp hrun
  obtain ⟨uuid, hslots, -, -, hagreed, -⟩ := keygens_agree _ _ _ _ s hs
  exact ⟨_, _, s, hs, congrArg Prod.fst hfinished, congrArg Prod.snd hfinished, uuid, hslots, hagreed⟩

end GenKeys

end Gg18
