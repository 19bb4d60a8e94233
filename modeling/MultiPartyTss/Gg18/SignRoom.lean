import MultiPartyTss.Gg18.SignProgress

/-!
# Who is admitted to a signing

The joiners of a room, in the order in which they sign up, and the signers that their signups admit. The
rounds count `threshold + 1` signers, but the room admits up to `parties` of them, and the request handler
checks only that there are `threshold` keys. `admitted_number`: the joiners admitted are
`1..=min(joiners, max(parties, 1))`, so they are the signers that the rounds count on exactly if that number
is `threshold + 1` (`admission_iff`).
-/

namespace Gg18

open Proc Slots Network

variable {F G : Type} {L : KeygenLibrary F G}

/-- The check of `signatures` on the number of keys. -/
def checkKeys (keys threshold : Nat) : Except String Unit :=
  if keys < threshold then .error ("should provide " ++ Nat.repr (threshold + 1) ++ " keys") else .ok ()

/-- A signing as it is requested. Joiner `i` is the `i`-th to sign up. -/
structure SignRequest (L : KeygenLibrary F G) where
  build : U16.Build
  parties : Nat
  threshold : Nat
  joiners : Nat
  key : Nat → String
  msg : String
  coins : Nat → SignDraw → L.Seed
  room_id : String

/-- The joiners of a room: `joined` of them have tried to sign up. -/
structure SignRoom (S : SignLibrary L) where
  net : Net Nat String String (SignNote S) String
  joined : Nat
  admitted : List PartySignup

namespace SignRoom

inductive Action where
  /-- The next joiner signs up; `fresh` is its `Uuid::new_v4`, if it needs one. -/
  | join (fresh : String)
  /-- A signer makes its next write or poll. -/
  | move (p : Nat)
  deriving DecidableEq, Repr

def start (S : SignLibrary L) : SignRoom S := ⟨⟨fun _ => none, fun _ => none⟩, 0, []⟩

section Step

variable {S : SignLibrary L} [Serde Nat] [Serde F] [Serde PartySignup] [DecidableEq G] [Field F] [AddCommGroup G]
  [Module F G]

def step (r : SignRequest L) (s : SignRoom S) : Action → Option (SignRoom S)
  | .join fresh =>
    if s.joined < r.joiners then
      match (Serde.fromStr (r.key (s.joined + 1)) : Option L.Output) with
      -- the key does not parse
      | none => some { s with joined := s.joined + 1 }
      | some _ =>
        match StoreCommunity.getPartySignup r.parties r.room_id fresh s.net.store with
        | some (.ok slot, hm) =>
          some ⟨{ s.net with store := hm }.spawn (s.joined + 1)
            (sign S r.build r.threshold (r.key (s.joined + 1)) r.msg (r.coins (s.joined + 1)) slot),
            s.joined + 1, s.admitted ++ [slot]⟩
        -- the `unwrap` of a refused signup
        | _ => some { s with joined := s.joined + 1 }
    else none
  | .move p => (s.net.move p).map fun net => { s with net := net }

end Step

section Property

variable (S : SignLibrary L) [Serde Nat] [Serde F] [Serde PartySignup] [DecidableEq G] [Field F] [AddCommGroup G]
  [Module F G] (r : SignRequest L)

/-- Somebody is unfinished, and whoever is polls an entry that nobody will ever write. -/
def Starved (s : SignRoom S) : Prop :=
  (∃ p party, s.net.party p = some party ∧ party.cur.Unfinished) ∧
    ∀ p party, s.net.party p = some party → party.cur.Unfinished →
      ∃ k, party.cur.Awaits k ∧
        ∀ actions t, Machine.exec (step r) s actions = some t → t.net.store k = none

/-- In every run the joiners admitted are the signers `1..=threshold+1`; each has an entry of its own in
`signers_vec`, and they do not starve. -/
structure AdmitsSigners : Prop where
  numbers : ∀ actions s, Machine.exec (step r) (start S) actions = some s → s.joined = r.joiners →
    s.admitted.map PartySignup.number = List.range' 1 (r.threshold + 1)
  in_bounds : ∀ actions s, Machine.exec (step r) (start S) actions = some s → ∀ slot ∈ s.admitted,
    ∀ (party_id : Nat) (round0_ans_vec : List String) (signers_vec : List Nat),
      formatSigners r.build slot.number party_id round0_ans_vec r.threshold = some signers_vec →
        slot.number - 1 < signers_vec.length
  no_starvation : ∀ actions s, Machine.exec (step r) (start S) actions = some s → s.joined = r.joiners →
    ¬ Starved S r s

end Property

/-! ### The invariant -/

/-- The shares of the joiners can be read. -/
def Readable (r : SignRequest L) : Prop :=
  ∀ i, 1 ≤ i → i ≤ r.joiners → ∃ output : L.Output, Serde.fromStr (r.key i) = some output

/-- How many of the first `joined` joiners are admitted. -/
def places (r : SignRequest L) (joined : Nat) : Nat := min joined (max r.parties 1)

theorem places_of_lt {r : SignRequest L} {joined : Nat} (h : joined < max r.parties 1) :
    places r joined = joined := Nat.min_eq_left (Nat.le_of_lt h)

section Invariant

variable {S : SignLibrary L} [Serde PartySignup] {r : SignRequest L} {s : SignRoom S}

/-- After `s.joined` signups, in session `uuid`. -/
structure Inv (r : SignRequest L) (uuid : String) (s : SignRoom S) : Prop where
  fresh : s.joined = 0 → s = start S
  within : s.joined ≤ r.joiners
  admitted : s.admitted = (List.range' 1 (places r s.joined)).map fun k => ⟨k, uuid⟩
  stored : s.net.store r.room_id = StoreCommunity.issuedEntry (places r s.joined) uuid
  present : ∀ p, (∃ party, s.net.party p = some party) ↔ 1 ≤ p ∧ p ≤ places r s.joined
  apart : ∀ p party, s.net.party p = some party → Avoids r.room_id party.cur

theorem start_inv (uuid : String) : Inv r uuid (start S) := by
  refine ⟨fun _ => rfl, Nat.zero_le _, ?_, ?_, fun p => ?_,
    fun p party hp => (Option.some_ne_none party hp.symm).elim⟩
  · simp [start, places]
  · simp [start, places, StoreCommunity.issuedEntry]
  · constructor
    · intro hp
      obtain ⟨party, hparty⟩ := hp
      exact (Option.some_ne_none party hparty.symm).elim
    · simp only [start, places, Nat.zero_min]
      omega

/-- A signup gives the next number, or finds no place left. -/
theorem signup_of_inv {uuid : String} (fresh : String) (h : Inv r uuid s) :
    (s.joined < max r.parties 1 ∧ StoreCommunity.readPartySignup r.parties r.room_id fresh s.net.store =
        some (.ok ⟨s.joined + 1, if s.joined = 0 then fresh else uuid⟩)) ∨
      (max r.parties 1 ≤ s.joined ∧
        StoreCommunity.readPartySignup r.parties r.room_id fresh s.net.store = some (.error ())) := by
  have hstored := h.stored
  by_cases hlt : s.joined < max r.parties 1
  · left
    refine ⟨hlt, ?_⟩
    rw [places_of_lt hlt] at hstored
    by_cases hzero : s.joined = 0
    · rw [hzero] at hstored
      simp [StoreCommunity.readPartySignup, hstored, StoreCommunity.issuedEntry, hzero]
    · exact StoreCommunity.readPartySignup_issued fresh hstored (by omega)
  · right
    rw [Nat.not_lt] at hlt
    refine ⟨hlt, ?_⟩
    rw [places, Nat.min_eq_right hlt] at hstored
    exact StoreCommunity.readPartySignup_full fresh hstored (by omega) (by omega)

end Invariant

/-! ### What a step does -/

theorem signRounds_named : RoundsNamed signRounds := by decide

variable {S : SignLibrary L} [Serde Nat] [Serde F] [Serde PartySignup] [DecidableEq G] [Field F] [AddCommGroup G]
  [Module F G] {r : SignRequest L} {s t : SignRoom S}

theorem step_join {uuid fresh : String} (hreadable : Readable r) (h : Inv r uuid s)
    (hstep : step r s (.join fresh) = some t) :
    s.joined < r.joiners ∧
      ((s.joined < max r.parties 1 ∧
        ∃ slot : PartySignup, slot = ⟨s.joined + 1, if s.joined = 0 then fresh else uuid⟩ ∧
          t = ⟨{ s.net with store := StoreCommunity.writePartySignup r.room_id slot s.net.store }.spawn
            (s.joined + 1)
            (sign S r.build r.threshold (r.key (s.joined + 1)) r.msg (r.coins (s.joined + 1)) slot),
            s.joined + 1, s.admitted ++ [slot]⟩) ∨
      (max r.parties 1 ≤ s.joined ∧ t = { s with joined := s.joined + 1 })) := by
  simp only [step] at hstep
  split_ifs at hstep with hlt
  obtain ⟨output, houtput⟩ := hreadable (s.joined + 1) (Nat.le_add_left 1 _) hlt
  refine ⟨hlt, ?_⟩
  obtain ⟨hplace, hread⟩ | ⟨hfull, hread⟩ := signup_of_inv fresh h
  · simp only [houtput, StoreCommunity.getPartySignup, hread, Option.some.injEq] at hstep
    exact Or.inl ⟨hplace, _, rfl, hstep.symm⟩
  · simp only [houtput, StoreCommunity.getPartySignup, hread, Option.some.injEq] at hstep
    exact Or.inr ⟨hfull, hstep.symm⟩

omit [Serde PartySignup] in
/-- A signer never writes the entry of its room. -/
theorem sign_avoids (hroom : UuidText r.room_id) (p : Nat) (slot : PartySignup) :
    Avoids r.room_id (sign S r.build r.threshold (r.key p) r.msg (r.coins p) slot) := by
  refine ⟨_, sign_follows ⟨r.build, r.threshold, r.key p, r.msg, r.coins p, slot⟩, fun hmem => ?_⟩
  exact exchange_ne_room signRounds_named hroom (Or.inl hmem) rfl

theorem move_inv {uuid : String} {p : Nat} (h : Inv r uuid s) (hstep : step r s (.move p) = some t) :
    Inv r uuid t := by
  obtain ⟨net, hmove, rfl⟩ := Option.map_eq_some_iff.mp hstep
  obtain ⟨hsame, hapart⟩ := move_avoids h.apart hmove
  refine ⟨fun hzero => ?_, h.within, h.admitted, hsame.trans h.stored,
    fun q => (move_present hmove).trans (h.present q), hapart⟩
  -- nobody can move in the first state
  rw [h.fresh hzero] at hmove
  simp [start, Net.move] at hmove

theorem join_inv {uuid fresh : String} (hroom : UuidText r.room_id) (hreadable : Readable r) (h : Inv r uuid s)
    (hstep : step r s (.join fresh) = some t) : Inv r (if s.joined = 0 then fresh else uuid) t := by
  obtain ⟨hlt, ⟨hplace, slot, hslot, rfl⟩ | ⟨hfull, rfl⟩⟩ := step_join hreadable h hstep
  · generalize huuid : (if s.joined = 0 then fresh else uuid) = uuid' at hslot ⊢
    have hplaces : places r (s.joined + 1) = s.joined + 1 := Nat.min_eq_left hplace
    have hadmitted : s.admitted = (List.range' 1 s.joined).map fun k => ⟨k, uuid'⟩ := by
      rw [h.admitted, places_of_lt hplace, ← huuid]
      by_cases hzero : s.joined = 0
      · rw [hzero]
        rfl
      · rw [if_neg hzero]
    refine ⟨fun hzero => (Nat.succ_ne_zero _ hzero).elim, hlt, ?_, ?_, fun p => ?_, fun p party hp => ?_⟩
    · rw [hplaces, hadmitted, hslot, List.range'_concat, List.map_append, Nat.one_mul, Nat.add_comm 1]
      rfl
    · rw [hplaces, hslot]
      exact StoreCommunity.writePartySignup_issued r.room_id s.joined uuid' s.net.store
    · rw [hplaces]
      have hpresent := h.present p
      rw [places_of_lt hplace] at hpresent
      by_cases heq : p = s.joined + 1
      · rw [heq, Net.spawn, setParty_self]
        simp
      · rw [Net.spawn, setParty_of_ne _ _ heq]
        exact hpresent.trans (by omega)
    · by_cases heq : p = s.joined + 1
      · subst heq
        rw [Net.spawn, setParty_self, Option.some.injEq] at hp
        subst hp
        exact sign_avoids hroom _ _
      · rw [Net.spawn, setParty_of_ne _ _ heq] at hp
        exact h.apart p party hp
  · have hplaces : places r (s.joined + 1) = places r s.joined := by
      rw [places, places, Nat.min_eq_right (by omega), Nat.min_eq_right hfull]
    rw [if_neg (by omega)]
    exact ⟨fun hzero => (Nat.succ_ne_zero _ hzero).elim, hlt, by rw [hplaces]; exact h.admitted,
      by rw [hplaces]; exact h.stored, fun p => by rw [hplaces]; exact h.present p, h.apart⟩

theorem exec_inv (hroom : UuidText r.room_id) (hreadable : Readable r) {actions : List Action}
    (hrun : Machine.exec (step r) (start S) actions = some s) : ∃ uuid, Inv r uuid s := by
  refine Machine.exec_invariant (I := fun s => ∃ uuid, Inv r uuid s) (fun s a t h hstep => ?_)
    ⟨"", start_inv ""⟩ hrun
  obtain ⟨uuid, h⟩ := h
  cases a with
  | join fresh => exact ⟨_, join_inv hroom hreadable h hstep⟩
  | move p => exact ⟨uuid, move_inv h hstep⟩

/-- The joiners can all sign up. -/
theorem exists_joined (hreadable : Readable r) (hroom : UuidText r.room_id) {j : Nat} (hj : j ≤ r.joiners) :
    ∃ actions s, Machine.exec (step r) (start S) actions = some s ∧ s.joined = j := by
  induction j with
  | zero => exact ⟨[], start S, rfl, rfl⟩
  | succ j ih =>
    obtain ⟨actions, s, hrun, hjoined⟩ := ih (by omega)
    obtain ⟨uuid, h⟩ := exec_inv hroom hreadable hrun
    have hlt : s.joined < r.joiners := by omega
    have hjoin : (step r s (.join "")).map SignRoom.joined = some (s.joined + 1) := by
      obtain ⟨output, houtput⟩ := hreadable (s.joined + 1) (Nat.le_add_left 1 _) hlt
      obtain ⟨-, hread⟩ | ⟨-, hread⟩ := signup_of_inv "" h <;>
        simp only [step, if_pos hlt, houtput, StoreCommunity.getPartySignup, hread, Option.map_some]
    obtain ⟨t, hstep, ht⟩ := Option.map_eq_some_iff.mp hjoin
    refine ⟨actions ++ [.join ""], t, ?_, by omega⟩
    rw [Machine.exec_append, hrun, Option.bind_some, Machine.exec_cons, hstep]
    rfl

/-! ### Nobody starves -/

theorem not_starved (h : Progress s.net) : ¬ Starved S r s := by
  intro hstarved
  obtain ⟨⟨p, party, hp, hunfinished⟩, hall⟩ := hstarved
  obtain ⟨q, other, hq, hready⟩ := h p party hp hunfinished
  obtain ⟨k, hawaits, hnever⟩ := hall q other hq hready.unfinished
  have hnone := hnever [] s rfl
  have hsome := hready.awaits hawaits
  rw [hnone] at hsome
  exact Bool.noConfusion hsome

/-- The entries of the room: its signups, and what the signers write. -/
def Expected (r : SignRequest L) (T : SignTranscript S r.threshold r.key r.msg r.coins) (uuid k v : String) :
    Prop := k = r.room_id ∨ T.Expected uuid k v

def plan (r : SignRequest L) (uuid : String) : Nat → List (Op String) :=
  sessionPlan (parties (r.threshold + 1) fun p => p) (r.threshold + 1) uuid (signPlan r.threshold)

omit [Serde Nat] [Serde PartySignup] in
theorem signPlan_named (t : Nat) : RoundsNamed (signPlan t) := by
  intro r hr
  have hsub : r ∈ signRounds := by
    unfold signPlan at hr
    split_ifs at hr
    · rwa [List.take_append_drop] at hr
    · rw [List.append_nil] at hr
      exact List.mem_of_mem_take hr
  exact signRounds_named r hsub

omit [Serde PartySignup] in
theorem signer_completes {T : SignTranscript S r.threshold r.key r.msg r.coins} (hroom : UuidText r.room_id)
    (ht : r.threshold + 1 < U16.size)
    (hlength : ∀ sign_keys alpha_vec beta_vec delta_i,
      S.phase2DeltaI sign_keys alpha_vec beta_vec = some delta_i → alpha_vec.length = beta_vec.length)
    {p : Nat} (hp : 1 ≤ p ∧ p ≤ r.threshold + 1) (uuid : String) :
    (sign S r.build r.threshold (r.key p) r.msg (r.coins p) ⟨p, uuid⟩).Completes (Expected r T uuid)
      (¬ r.threshold + 2 < U16.size) (plan r uuid p) fun _ => True := by
  rw [plan, sessionPlan_of_some (parties_of_bounds hp)]
  have hmem : p ∈ signers r.threshold := List.mem_range'_1.mpr (by omega)
  have hsigner : (sign S r.build r.threshold (r.key p) r.msg (r.coins p) ⟨p, uuid⟩).Completes (T.Expected uuid)
      (¬ r.threshold + 2 < U16.size) (exchangePlan p (r.threshold + 1) uuid (signPlan r.threshold))
      fun _ => True := T.sign_completes hmem ht hlength
  refine hsigner.expect (fun k v hE => Or.inr hE) fun k v hk hE => hE.resolve_left ?_
  exact exchange_ne_room (signPlan_named _) hroom (Or.inr hk)

theorem exec_settled {T : SignTranscript S r.threshold r.key r.msg r.coins} (hroom : UuidText r.room_id)
    (hreadable : Readable r) (ht : r.threshold + 1 < U16.size)
    (hlength : ∀ sign_keys alpha_vec beta_vec delta_i,
      S.phase2DeltaI sign_keys alpha_vec beta_vec = some delta_i → alpha_vec.length = beta_vec.length)
    (hplaces : places r r.joiners = r.threshold + 1) {actions : List Action}
    (hrun : Machine.exec (step r) (start S) actions = some s) :
    ∃ uuid, Inv r uuid s ∧ Settled (Expected r T uuid) (¬ r.threshold + 2 < U16.size) (plan r uuid) s.net := by
  have hstart : ∀ uuid, Settled (Expected r T uuid) (¬ r.threshold + 2 < U16.size) (plan r uuid) (start S).net :=
    fun uuid => ⟨fun k v hk => (Option.some_ne_none v hk.symm).elim,
      fun p party hp => (Option.some_ne_none party hp.symm).elim⟩
  refine Machine.exec_invariant
    (I := fun s => ∃ uuid, Inv r uuid s ∧
      Settled (Expected r T uuid) (¬ r.threshold + 2 < U16.size) (plan r uuid) s.net)
    (fun s a t h hstep => ?_) ⟨"", start_inv "", hstart ""⟩ hrun
  obtain ⟨uuid, h, hsettled⟩ := h
  cases a with
  | join fresh =>
    refine ⟨_, join_inv hroom hreadable h hstep, ?_⟩
    obtain ⟨hlt, ⟨hplace, slot, rfl, rfl⟩ | ⟨hfull, rfl⟩⟩ := step_join hreadable h hstep
    · have hbefore : Settled (Expected r T (if s.joined = 0 then fresh else uuid)) (¬ r.threshold + 2 < U16.size)
          (plan r (if s.joined = 0 then fresh else uuid)) s.net := by
        by_cases hzero : s.joined = 0
        · rw [h.fresh hzero]
          exact hstart _
        · rwa [if_neg hzero]
      have hnumber : s.joined + 1 ≤ r.threshold + 1 := by
        rw [← hplaces, places]
        omega
      have hwritten := hbefore.writeExpected (k := r.room_id)
        (v := Serde.toStr (⟨s.joined + 1, if s.joined = 0 then fresh else uuid⟩ : PartySignup)) (Or.inl rfl)
      rw [← Store.insert_eq_update] at hwritten
      exact hwritten.spawn (signer_completes hroom ht hlength ⟨Nat.le_add_left 1 _, hnumber⟩ _)
    · rwa [if_neg (by omega)]
  | move p =>
    obtain ⟨net, hmove, rfl⟩ := Option.map_eq_some_iff.mp hstep
    exact ⟨uuid, move_inv h hstep, move_settled hsettled hmove⟩

/-- With places for `threshold + 1` joiners nobody starves. -/
theorem no_starvation (T : SignTranscript S r.threshold r.key r.msg r.coins) (hroom : UuidText r.room_id)
    (hreadable : Readable r) (ht : r.threshold + 1 < U16.size)
    (hlength : ∀ sign_keys alpha_vec beta_vec delta_i,
      S.phase2DeltaI sign_keys alpha_vec beta_vec = some delta_i → alpha_vec.length = beta_vec.length)
    (hplaces : places r r.joiners = r.threshold + 1) {actions : List Action}
    (hrun : Machine.exec (step r) (start S) actions = some s) (hjoined : s.joined = r.joiners) :
    ¬ Starved S r s := by
  obtain ⟨uuid, h, hsettled⟩ := exec_settled (T := T) hroom hreadable ht hlength hplaces hrun
  refine not_starved (hsettled.progress (fun p hp => ?_) (parties_scheduled (signPlan_supplied r.threshold)))
  rw [h.present, hjoined, hplaces]
  obtain ⟨op, hop⟩ := List.exists_mem_of_ne_nil _ hp
  obtain ⟨i, hi, -⟩ := mem_sessionPlan hop
  exact (parties_some hi).1

/-- The numbers of those who are admitted. -/
theorem admitted_number (hroom : UuidText r.room_id) (hreadable : Readable r) {actions : List Action}
    (hrun : Machine.exec (step r) (start S) actions = some s) :
    s.admitted.map PartySignup.number = List.range' 1 (places r s.joined) := by
  obtain ⟨uuid, h⟩ := exec_inv hroom hreadable hrun
  rw [h.admitted, List.map_map]
  exact List.map_id _

/-- In the order `1..=threshold+1` of the signers everyone has an entry. -/
theorem in_bounds (hroom : UuidText r.room_id) (hreadable : Readable r) (ht : r.threshold + 1 < U16.size)
    (hplaces : places r r.joiners = r.threshold + 1) {actions : List Action}
    (hrun : Machine.exec (step r) (start S) actions = some s) {slot : PartySignup} (hslot : slot ∈ s.admitted)
    {party_id : Nat} {round0_ans_vec : List String} {signers_vec : List Nat}
    (hsigners : formatSigners r.build slot.number party_id round0_ans_vec r.threshold = some signers_vec) :
    slot.number - 1 < signers_vec.length := by
  have hmem : slot.number ∈ s.admitted.map PartySignup.number := List.mem_map_of_mem hslot
  rw [admitted_number hroom hreadable hrun, List.mem_range'_1, places] at hmem
  rw [formatSigners_length ht hsigners]
  obtain ⟨uuid, h⟩ := exec_inv hroom hreadable hrun
  have hwithin := h.within
  rw [places] at hplaces
  omega

/-- The joiners admitted are the signers exactly if the room has places for `threshold + 1` of them. For a
request with its keys checked and with places for all of them: if it has `threshold + 1` keys. -/
theorem admission_iff (S : SignLibrary L) (r : SignRequest L) (hroom : UuidText r.room_id)
    (hreadable : Readable r) (hparties : r.parties < U16.size)
    (hlength : ∀ sign_keys alpha_vec beta_vec delta_i,
      S.phase2DeltaI sign_keys alpha_vec beta_vec = some delta_i → alpha_vec.length = beta_vec.length)
    (hsigners : min r.joiners (max r.parties 1) = r.threshold + 1 →
      Nonempty (SignTranscript S r.threshold r.key r.msg r.coins)) :
    (AdmitsSigners S r ↔ min r.joiners (max r.parties 1) = r.threshold + 1) ∧
      (checkKeys r.joiners r.threshold = .ok () → r.joiners ≤ r.parties →
        (AdmitsSigners S r ↔ r.joiners = r.threshold + 1)) := by
  have hiff : AdmitsSigners S r ↔ min r.joiners (max r.parties 1) = r.threshold + 1 := by
    constructor
    · intro hadmits
      obtain ⟨actions, s, hrun, hjoined⟩ := exists_joined (S := S) hreadable hroom (Nat.le_refl r.joiners)
      have hnumbers := hadmits.numbers actions s hrun hjoined
      rw [admitted_number hroom hreadable hrun, hjoined] at hnumbers
      simpa [places] using congrArg List.length hnumbers
    · intro hplaces
      obtain ⟨T⟩ := hsigners hplaces
      have hone : 1 < U16.size := by decide
      have ht : r.threshold + 1 < U16.size := by omega
      refine ⟨fun actions s hrun hjoined => ?_, fun actions s hrun slot hslot _ _ _ hvec => ?_,
        fun actions s hrun hjoined => ?_⟩
      · rw [admitted_number hroom hreadable hrun, hjoined, places, hplaces]
      · exact in_bounds hroom hreadable ht hplaces hrun hslot hvec
      · exact no_starvation T hroom hreadable ht hlength hplaces hrun hjoined
  refine ⟨hiff, fun _ hkeys => hiff.trans ?_⟩
  have hmin : min r.joiners (max r.parties 1) = r.joiners := by omega
  rw [hmin]

/-! ### One key, two keys -/

/-- The first `joiners` keys of two, for a signing with threshold 1. -/
def small (joiners : Nat) : SignRequest KeygenLibrary.small :=
  letI := Serde.numeric Nat
  letI := Serde.numeric (ZMod 3)
  { build := .release
    parties := joiners
    threshold := 1
    joiners := joiners
    key := fun p => Serde.toStr (smallOutput (3 - p))
    msg := "message"
    coins := fun p _ => (p - 1 : Nat)
    room_id := "00000000-0000-4000-8000-000000000000" }

omit [Serde Nat] [Serde PartySignup] in
theorem small_room (joiners : Nat) : UuidText (small joiners).room_id := by
  show UuidText "00000000-0000-4000-8000-000000000000"
  decide

omit [Serde Nat] [Serde PartySignup] in
/-- The keys of both parties. -/
theorem small_signers :
    letI := PartySignup.compact
    letI := Serde.numeric Nat
    letI := Serde.numeric (ZMod 3)
    AdmitsSigners SignLibrary.small (small 2) := by
  let _ := PartySignup.compact
  let _ := Serde.numeric Nat
  let _ := Serde.numeric (ZMod 3)
  have h := admission_iff SignLibrary.small (small 2) (small_room 2) (fun i _ _ => ⟨_, Serde.round_trip _⟩)
    (by decide)
    (fun sign_keys alpha_vec beta_vec delta_i hdelta =>
      (SignLibrary.small_laws.phase2_delta sign_keys alpha_vec beta_vec delta_i hdelta).1)
    fun _ => ⟨SignTranscript.small⟩
  exact h.1.mpr rfl

omit [Serde Nat] [Serde PartySignup] in
/-- One key passes the check for threshold 1. Its signer writes its number and then polls for ever. -/
theorem one_key_starves :
    letI := PartySignup.compact
    letI := Serde.numeric Nat
    letI := Serde.numeric (ZMod 3)
    checkKeys 1 1 = .ok () ∧ ¬ AdmitsSigners SignLibrary.small (small 1) ∧
      ∃ actions s, Machine.exec (step (small 1)) (start SignLibrary.small) actions = some s ∧
        Starved SignLibrary.small (small 1) s := by
  let _ := PartySignup.compact
  let _ := Serde.numeric Nat
  let _ := Serde.numeric (ZMod 3)
  let actions : List Action := [.join "session", .move 1]
  let k := broadcastKey 2 "round0" "session"
  have hrun : (Machine.exec (step (small 1)) (start SignLibrary.small) actions).map
      (fun s => (s.joined, (s.net.party 1).bind fun party => party.cur.polled, s.net.store k)) =
        some (1, some k, none) := by
    decide +kernel
  obtain ⟨s, hs, hvalues⟩ := Option.map_eq_some_iff.mp hrun
  simp only [Prod.mk.injEq, Option.bind_eq_some_iff] at hvalues
  obtain ⟨hjoined, ⟨party, hparty, hpolled⟩, hk⟩ := hvalues
  obtain ⟨uuid, hinv⟩ := exec_inv (small_room 1) (fun i _ _ => ⟨_, Serde.round_trip _⟩) hs
  have honly : ∀ p other, s.net.party p = some other → p = 1 ∧ other = party := by
    intro p other hp
    have hplaces := (hinv.present p).mp ⟨other, hp⟩
    rw [hjoined, places] at hplaces
    obtain rfl : p = 1 := by omega
    exact ⟨rfl, Option.some.inj (hp.symm.trans hparty)⟩
  obtain ⟨next, hcur⟩ := polled_eq_some.mp hpolled
  -- the one signer polls the same entry again
  have hstep : ∀ a t, step (small 1) s a = some t → t = s := by
    intro a t ht
    cases a with
    | join fresh => simp [step, hjoined, small] at ht
    | move p =>
      obtain ⟨net, hmove, rfl⟩ := Option.map_eq_some_iff.mp ht
      cases hp : s.net.party p with
      | none => simp [Net.move, hp] at hmove
      | some other =>
        obtain ⟨rfl, rfl⟩ := honly p other hp
        simp only [Net.move, hparty, hcur, hk, Option.some.injEq] at hmove
        rw [← hmove]
  have hstarved : Starved SignLibrary.small (small 1) s := by
    refine ⟨⟨1, party, hparty, by rw [hcur]; trivial⟩, fun p other hp _ => ?_⟩
    obtain ⟨rfl, rfl⟩ := honly p other hp
    refine ⟨k, by rw [hcur]; rfl, fun later t ht => ?_⟩
    have hsame : t = s := Machine.exec_invariant (I := fun t => t = s)
      (fun t a t' h hstep' => hstep a t' (h ▸ hstep')) rfl ht
    rw [hsame, hk]
  exact ⟨rfl, fun h => h.no_starvation actions s hs hjoined hstarved, actions, s, hs, hstarved⟩

end SignRoom

end Gg18
