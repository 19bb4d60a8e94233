import MultiPartyTss.Gg20.ConnectionPool
import MultiPartyTss.Gg20.OnlineStage
import MultiPartyTss.Lib.Census

/-!
# Connections during a signing

`key_sign_message` gets a connection to look its share up and has it until it answers, while it waits in `sign`
for the other signers. Here the signers of one room, which nobody else uses, are requests at servers that have a
pool each, beside whatever else the servers do with their connections. The `sign` of a signer may also end early,
with its stream or with a call that fails; the connection is returned then.

Unless that happens, nobody completes before all have broadcast (`OnlineStage.Inv`), so when the first signer
completes, all of them have their connections. `signing_needs_connections`: without an early end a signing
completes only if each server has a connection for every one of its signers; otherwise who has joined the room has
its connection until some `sign` ends early, and a server whose connections are all gone in this way gives out
none before.
-/

namespace Server

open Gg20 (ConnectionPool Db Msg OnlineStage Phase)
open Gg20.ConnectionPool (Sized create_sized outAfter out_of_step step_sized)

/-- A request for a signature. -/
inductive SignRequest where
  | posted
  /-- In `r2d2::Pool::get`. -/
  | waiting
  | holding
  | over
  deriving DecidableEq, Repr

/-- The signers of a room at their servers. -/
structure Occupancy (n : Nat) (M Site : Type) where
  stage : OnlineStage n M
  pool : Site → ConnectionPool
  request : Fin n → SignRequest

namespace Occupancy

variable {n : Nat} {M Site : Type} [DecidableEq Site]

inductive Action (n : Nat) (Site : Type) where
  | get (v : Fin n)
  | checkout (v : Fin n)
  | timeout (v : Fin n)
  /-- A step of `sign`. -/
  | sign (v : Fin n)
  /-- The `sign` of a signer in the room ends early. -/
  | fail (v : Fin n)
  /-- The handler returns, with the connection. -/
  | answer (v : Fin n) (live : Bool)
  /-- Another request of the server, or the database. -/
  | pool (a : Site) (e : ConnectionPool.Event)

def start (size : Site → Nat) (accepting : Bool) (db : Db) : Occupancy n M Site :=
  ⟨.start n M db, fun a => .create (size a) accepting, fun _ => .posted⟩

def set (s : Occupancy n M Site) (a : Site) (p : ConnectionPool) (v : Fin n) (r : SignRequest) :
    Occupancy n M Site :=
  { s with pool := Function.update s.pool a p, request := Function.update s.request v r }

/-- The stream of `v` ends or fails, the manager shuts down, or a call of `v` fails: `sign` returns, and the
subscription is dropped. Before the room there is nothing to drop. -/
def breakOff (stage : OnlineStage n M) (v : Fin n) : Option (OnlineStage n M) :=
  match stage.signer v with
  | .issuing subscription _ | .sending subscription _ _ | .collecting subscription _ _ =>
    some (stage.set (stage.db.setRoom subscription.room (stage.db.heap subscription.room).dropSubscriber) v .failed)
  | .joining | .finished _ _ | .failed => none

section Step

variable (site : Fin n → Site)

/-- The number of signers at a server whose request is as given. -/
def having (s : Occupancy n M Site) (a : Site) (r : SignRequest) : Nat :=
  Census.count (fun v r' => site v = a ∧ r' = r) s.request

/-- The event is not about a signer of the room. -/
def Foreign (s : Occupancy n M Site) (a : Site) : ConnectionPool.Event → Prop
  | .checkout | .timeout => s.having site a .waiting < (s.pool a).waiting
  | .giveBack _ => s.having site a .holding < (s.pool a).out
  | _ => True

instance (s : Occupancy n M Site) (a : Site) : ∀ e, Decidable (s.Foreign site a e)
  | .checkout | .timeout | .giveBack _ => Nat.decLt _ _
  | .get | .establish | .close | .error _ | .database _ => isTrue trivial

variable [Serde (Msg M)] (build : U16.Build) (room_id : String) (body : Fin n → M)

def step (s : Occupancy n M Site) : Action n Site → Option (Occupancy n M Site)
  | .get v =>
    if s.request v = .posted then
      match (s.pool (site v)).getReady with
      | .error _ => some (s.set (site v) (s.pool (site v)) v .over)
      | .ok p => some (s.set (site v) { p with waiting := p.waiting + 1 } v .waiting)
    else none
  | .checkout v =>
    if s.request v = .waiting then
      ((s.pool (site v)).step .checkout).map fun p => s.set (site v) p v .holding
    else none
  | .timeout v =>
    if s.request v = .waiting then ((s.pool (site v)).step .timeout).map fun p => s.set (site v) p v .over
    else none
  | .sign v =>
    if s.request v = .holding then
      (s.stage.step build room_id body v).map fun stage => { s with stage := stage }
    else none
  | .fail v =>
    if s.request v = .holding then (breakOff s.stage v).map fun stage => { s with stage := stage } else none
  | .answer v live =>
    match s.request v, s.stage.signer v with
    -- before the room there are the lookup of the share and the offline stage, which may fail
    | .holding, .joining | .holding, .finished _ _ | .holding, .failed =>
      ((s.pool (site v)).step (.giveBack live)).map fun p => s.set (site v) p v .over
    | _, _ => none
  | .pool a e =>
    if s.Foreign site a e then
      ((s.pool a).step e).map fun p => { s with pool := Function.update s.pool a p }
    else none

end Step

/-! ### Who has a connection -/

variable {site : Fin n → Site} {size : Site → Nat} {s : Occupancy n M Site}

@[simp] theorem set_pool_self (a : Site) (p : ConnectionPool) (v : Fin n) (r : SignRequest) :
    (s.set a p v r).pool a = p := by simp [set]

theorem set_pool_of_ne {a b : Site} (p : ConnectionPool) (v : Fin n) (r : SignRequest) (h : b ≠ a) :
    (s.set a p v r).pool b = s.pool b := by simp [set, h]

theorem set_request_of_ne (a : Site) (p : ConnectionPool) {v w : Fin n} (r : SignRequest) (h : w ≠ v) :
    (s.set a p v r).request w = s.request w := by simp [set, h]

theorem having_set (site : Fin n → Site) (s : Occupancy n M Site) (a b : Site) (p : ConnectionPool) (v : Fin n)
    (r q : SignRequest) :
    (s.set a p v r).having site b q + (if site v = b ∧ s.request v = q then 1 else 0) =
      s.having site b q + if site v = b ∧ r = q then 1 else 0 :=
  Census.count_update v r

/-- The signers with a connection are among the callers that have one. -/
structure Held (site : Fin n → Site) (size : Site → Nat) (s : Occupancy n M Site) : Prop where
  sized : ∀ a, Sized (size a) (s.pool a)
  holding : ∀ a, s.having site a .holding ≤ (s.pool a).out

theorem start_held (accepting : Bool) (db : Db) : (start size accepting db : Occupancy n M Site).Held site size := by
  refine ⟨fun a => create_sized _ _, fun a => ?_⟩
  have hnone : (start size accepting db : Occupancy n M Site).having site a .holding = 0 :=
    Census.count_eq_zero fun v hv => by cases hv.2
  rw [hnone]
  exact Nat.zero_le _

/-- `v` gets a connection, returns it or goes on without one. -/
theorem Held.set (h : s.Held site size) {v : Fin n} {q : ConnectionPool} {r : SignRequest}
    (hsized : Sized (size (site v)) q)
    (hout : (s.pool (site v)).out + (if r = .holding then 1 else 0) ≤
      q.out + if s.request v = .holding then 1 else 0) : (s.set (site v) q v r).Held site size := by
  constructor
  · intro a
    by_cases ha : a = site v
    · rw [ha, set_pool_self]
      exact hsized
    · rw [set_pool_of_ne q v r ha]
      exact h.sized a
  · intro a
    have hset := having_set site s (site v) a q v r .holding
    have hle := h.holding a
    by_cases ha : a = site v
    · subst ha
      simp only [true_and] at hset
      rw [set_pool_self]
      omega
    · simp only [Ne.symm ha, false_and, if_false] at hset
      rw [set_pool_of_ne q v r ha]
      omega

section Steps

variable [Serde (Msg M)] {build : U16.Build} {room_id : String} {body : Fin n → M}

/-- What a step can do. -/
inductive Stepped (site : Fin n → Site) (build : U16.Build) (room_id : String) (body : Fin n → M)
    (s : Occupancy n M Site) : Occupancy n M Site → Prop where
  | refused {v} : s.request v = .posted →
      Stepped site build room_id body s (s.set (site v) (s.pool (site v)) v .over)
  | entered {v p} : s.request v = .posted → (s.pool (site v)).step .get = some p →
      Stepped site build room_id body s (s.set (site v) p v .waiting)
  | checkout {v p} : s.request v = .waiting → (s.pool (site v)).step .checkout = some p →
      Stepped site build room_id body s (s.set (site v) p v .holding)
  | timeout {v p} : s.request v = .waiting → (s.pool (site v)).step .timeout = some p →
      Stepped site build room_id body s (s.set (site v) p v .over)
  | sign {v stage} : s.request v = .holding → s.stage.step build room_id body v = some stage →
      Stepped site build room_id body s { s with stage := stage }
  | fail {v stage} : s.request v = .holding → breakOff s.stage v = some stage →
      Stepped site build room_id body s { s with stage := stage }
  | answer {v p live} : s.request v = .holding →
      s.stage.signer v = .joining ∨ s.stage.signer v = .failed ∨ ((s.stage.signer v).complete n).isSome →
      (s.pool (site v)).step (.giveBack live) = some p →
      Stepped site build room_id body s (s.set (site v) p v .over)
  | pool {a e p} : s.Foreign site a e → (s.pool a).step e = some p →
      Stepped site build room_id body s { s with pool := Function.update s.pool a p }

theorem stepped_of_step {t : Occupancy n M Site} {action : Action n Site}
    (hstep : step site build room_id body s action = some t) : Stepped site build room_id body s t := by
  cases action with
  | get v =>
    simp only [step] at hstep
    split_ifs at hstep with hposted
    split at hstep
    · cases hstep
      exact .refused hposted
    · rename_i p hready
      cases hstep
      exact .entered hposted (by simp [ConnectionPool.step, hready])
  | checkout v =>
    simp only [step] at hstep
    split_ifs at hstep with hwaiting
    obtain ⟨p, hp, rfl⟩ := Option.map_eq_some_iff.mp hstep
    exact .checkout hwaiting hp
  | timeout v =>
    simp only [step] at hstep
    split_ifs at hstep with hwaiting
    obtain ⟨p, hp, rfl⟩ := Option.map_eq_some_iff.mp hstep
    exact .timeout hwaiting hp
  | sign v =>
    simp only [step] at hstep
    split_ifs at hstep with hholding
    obtain ⟨stage, hstage, rfl⟩ := Option.map_eq_some_iff.mp hstep
    exact .sign hholding hstage
  | fail v =>
    simp only [step] at hstep
    split_ifs at hstep with hholding
    obtain ⟨stage, hstage, rfl⟩ := Option.map_eq_some_iff.mp hstep
    exact .fail hholding hstage
  | answer v live =>
    simp only [step] at hstep
    split at hstep
    · rename_i hholding hjoining
      obtain ⟨p, hp, rfl⟩ := Option.map_eq_some_iff.mp hstep
      exact .answer hholding (Or.inl hjoining) hp
    · rename_i hholding hfinished
      obtain ⟨p, hp, rfl⟩ := Option.map_eq_some_iff.mp hstep
      exact .answer hholding (Or.inr (Or.inr (by rw [hfinished]; rfl))) hp
    · rename_i hholding hfailed
      obtain ⟨p, hp, rfl⟩ := Option.map_eq_some_iff.mp hstep
      exact .answer hholding (Or.inr (Or.inl hfailed)) hp
    · cases hstep
  | pool a e =>
    simp only [step] at hstep
    split_ifs at hstep with hforeign
    obtain ⟨p, hp, rfl⟩ := Option.map_eq_some_iff.mp hstep
    exact .pool hforeign hp

omit [Serde (Msg M)] in
/-- Another request at a pool. -/
theorem Held.pool (h : s.Held site size) {a : Site} {e : ConnectionPool.Event} {p : ConnectionPool}
    (hforeign : s.Foreign site a e) (hp : (s.pool a).step e = some p) :
    ({ s with pool := Function.update s.pool a p } : Occupancy n M Site).Held site size := by
  have hout := out_of_step (h.sized a).not_always hp
  have hcard : s.having site a .holding ≤ p.out := by
    have hle := h.holding a
    rw [hout]
    cases e with
    | giveBack live =>
      have hlt : s.having site a .holding < (s.pool a).out := hforeign
      simp only [outAfter]
      omega
    | checkout => exact Nat.le_succ_of_le hle
    | get | timeout | establish | close | error | database => exact hle
  constructor
  · intro b
    by_cases hb : b = a
    · subst hb
      simpa using step_sized (h.sized b) hp
    · simpa [hb] using h.sized b
  · intro b
    change s.having site b .holding ≤ (Function.update s.pool a p b).out
    by_cases hb : b = a
    · subst hb
      simpa using hcard
    · simpa [hb] using h.holding b

theorem Stepped.held {t : Occupancy n M Site} (hstep : Stepped site build room_id body s t) (h : s.Held site size) :
    t.Held site size := by
  cases hstep with
  | refused hposted => exact h.set (h.sized _) (by simp [hposted])
  | entered hposted hp =>
    refine h.set (step_sized (h.sized _) hp) ?_
    simp [out_of_step (h.sized _).not_always hp, hposted, outAfter]
  | timeout hwaiting hp =>
    refine h.set (step_sized (h.sized _) hp) ?_
    simp [out_of_step (h.sized _).not_always hp, hwaiting, outAfter]
  | checkout hwaiting hp =>
    refine h.set (step_sized (h.sized _) hp) ?_
    simp [out_of_step (h.sized _).not_always hp, hwaiting, outAfter]
  | sign hholding hstage | fail hholding hstage => exact ⟨h.sized, h.holding⟩
  | @answer v p live hholding hover hp =>
    refine h.set (step_sized (h.sized _) hp) ?_
    rw [out_of_step (h.sized _).not_always hp, hholding, outAfter]
    simp only [reduceCtorEq, if_false, if_true]
    omega
  | pool hforeign hp => exact h.pool hforeign hp

end Steps

/-! ### Who has joined the room -/

section Joined

variable [Serde (Msg M)] {build : U16.Build} {room_id : String} {body : Fin n → M}

omit [DecidableEq Site] in
theorem not_failed_of_step {stage t : OnlineStage n M} {v : Fin n} (h : stage.step build room_id body v = some t) :
    stage.signer v ≠ .failed := by
  intro hfailed
  simp [OnlineStage.step, hfailed] at h

omit [DecidableEq Site] in
/-- A step of `v` takes it somewhere in the room. -/
theorem exists_set_of_step {stage t : OnlineStage n M} {v : Fin n} (h : stage.step build room_id body v = some t) :
    ∃ db phase, t = stage.set db v phase ∧ phase ≠ .joining := by
  unfold OnlineStage.step at h
  split at h
  · cases h
    exact ⟨_, _, rfl, nofun⟩
  · cases h
    exact ⟨_, _, rfl, nofun⟩
  · cases h
    exact ⟨_, _, rfl, nofun⟩
  · cases h
    exact ⟨_, _, rfl, nofun⟩
  · cases h
    exact ⟨_, _, rfl, nofun⟩
  · dsimp only at h
    split_ifs at h
    · cases h
      exact ⟨_, _, rfl, nofun⟩
    · split at h
      · cases h
      · cases h
        exact ⟨_, _, rfl, nofun⟩
      · split at h
        · cases h
          exact ⟨_, _, rfl, nofun⟩
        · cases h
          exact ⟨_, _, rfl, nofun⟩
  · cases h
  · cases h

omit [DecidableEq Site] [Serde (Msg M)] in
/-- Only a signer in the room, which has not failed before, breaks off. -/
theorem exists_set_of_breakOff {stage t : OnlineStage n M} {v : Fin n} (h : breakOff stage v = some t) :
    stage.signer v ≠ .failed ∧ ∃ db, t = stage.set db v .failed := by
  unfold breakOff at h
  cases hphase : stage.signer v <;> simp only [hphase, reduceCtorEq, Option.some.injEq] at h
  case issuing | sending | collecting => exact ⟨nofun, _, h.symm⟩

omit [DecidableEq Site] [Serde (Msg M)] in
theorem signer_set {stage : OnlineStage n M} {P : Phase M → Prop} {db : Db} {v w : Fin n} {phase : Phase M}
    (hv : P phase) (hw : P (stage.signer w)) : P ((stage.set db v phase).signer w) := by
  by_cases hwv : w = v
  · rw [hwv, OnlineStage.set_self]
    exact hv
  · rw [OnlineStage.set_of_ne db phase hwv]
    exact hw

/-- The `sign` of some signer has ended early. -/
def Broken (s : Occupancy n M Site) : Prop := ∃ v, s.stage.signer v = .failed

theorem Stepped.broken {t : Occupancy n M Site} (hstep : Stepped site build room_id body s t) (h : s.Broken) :
    t.Broken := by
  obtain ⟨w, hw⟩ := h
  have hne : ∀ {v}, s.stage.signer v ≠ .failed → w ≠ v := by
    rintro v hv rfl
    exact hv hw
  cases hstep with
  | sign hholding hsign =>
    have hv := not_failed_of_step hsign
    obtain ⟨db, phase, rfl, -⟩ := exists_set_of_step hsign
    exact ⟨w, (OnlineStage.set_of_ne db phase (hne hv)).trans hw⟩
  | fail hholding hfail =>
    obtain ⟨hv, db, rfl⟩ := exists_set_of_breakOff hfail
    exact ⟨w, (OnlineStage.set_of_ne db _ (hne hv)).trans hw⟩
  | refused | entered | checkout | timeout | answer | pool => exact ⟨w, hw⟩

/-- A signer that completes has heard of everybody else. -/
theorem sent_of_complete {stage : OnlineStage n M} {a : Nat} {order : List (Fin n)}
    (h : stage.Inv body room_id a order) {v : Fin n} {partial_signatures : List (Msg M)}
    (hv : (stage.signer v).complete n = some partial_signatures) (w : Fin n) : (stage.signer w).sent = true := by
  by_cases hw : w = v
  · subst hw
    cases hcur : stage.signer w <;> simp [hcur, Phase.complete, Phase.sent] at hv ⊢
  · obtain ⟨c, hgot, hcount⟩ := h.complete hv
    rw [hgot, OnlineStage.received, List.length_map] at hcount
    have hsub : ((order.take c).filter fun u => u ≠ v).toFinset ⊆ Finset.univ.erase v := by
      intro u hu
      simp only [List.mem_toFinset, List.mem_filter, decide_eq_true_eq] at hu
      exact Finset.mem_erase.mpr ⟨hu.2, Finset.mem_univ u⟩
    have hall := Finset.eq_of_subset_of_card_le hsub (by
      rw [List.toFinset_card_of_nodup ((h.nodup.sublist (List.take_sublist c order)).filter _), hcount,
        Finset.card_erase_of_mem (Finset.mem_univ v), Finset.card_fin])
    have hmem : w ∈ ((order.take c).filter fun u => u ≠ v).toFinset := by
      rw [hall]
      exact Finset.mem_erase.mpr ⟨hw, Finset.mem_univ w⟩
    rw [List.mem_toFinset] at hmem
    exact (h.sent w).mp (List.mem_of_mem_take (List.mem_of_mem_filter hmem))

/-- Nobody has completed, and who has joined has its connection. -/
structure Waits (n : Nat) (s : Occupancy n M Site) : Prop where
  incomplete : ∀ v, (s.stage.signer v).complete n = none
  holding : ∀ v, s.stage.signer v ≠ .joining → s.request v = .holding

/-- There is a connection for each signer. -/
def Fits (site : Fin n → Site) (size : Site → Nat) : Prop :=
  ∀ a, (Finset.univ.filter fun v => site v = a).card ≤ size a

omit [Serde (Msg M)] in
/-- Where all signers hold a connection, there is one for each. -/
theorem Held.fits (h : s.Held site size) (hall : ∀ v, s.request v = .holding) : Fits site size := by
  intro a
  have hcard : (Finset.univ.filter fun v => site v = a).card ≤ s.having site a .holding :=
    Census.card_le_count fun v hv => ⟨(Finset.mem_filter.mp hv).2, hall v⟩
  have hout := hcard.trans (h.holding a)
  have hle := (h.sized a).le
  omega

omit [Serde (Msg M)] in
theorem Waits.set (h : s.Waits n) {a : Site} {p : ConnectionPool} {v : Fin n} {r : SignRequest}
    (hv : s.stage.signer v = .joining) : (s.set a p v r).Waits n := by
  refine ⟨h.incomplete, fun w hw => ?_⟩
  have hne : w ≠ v := by
    rintro rfl
    exact hw hv
  rw [set_request_of_ne _ _ _ hne]
  exact h.holding w hw

omit [DecidableEq Site] [Serde (Msg M)] in
theorem Waits.joining (h : s.Waits n) {v : Fin n} (hv : s.request v ≠ .holding) : s.stage.signer v = .joining := by
  by_contra hne
  exact hv (h.holding v hne)

theorem sign_waits {stage : OnlineStage n M} {v : Fin n} {db : Db} (hheld : s.Held site size) (h : s.Waits n)
    (hv : s.request v = .holding) (hstep : s.stage.step build room_id body v = some stage)
    (hinv : ∃ order, stage.Inv body room_id db.allocated order) :
    Fits site size ∨ ({ s with stage := stage } : Occupancy n M Site).Waits n := by
  have hjoined : ∀ w, stage.signer w ≠ .joining → s.request w = .holding := by
    intro w hw
    obtain ⟨db', phase, rfl, -⟩ := exists_set_of_step hstep
    by_cases hwv : w = v
    · rw [hwv]
      exact hv
    · rw [OnlineStage.set_of_ne db' phase hwv] at hw
      exact h.holding w hw
  by_cases hnone : ∀ w, (stage.signer w).complete n = none
  · exact Or.inr ⟨hnone, hjoined⟩
  · -- the first signer that completes: everybody is there
    obtain ⟨w, hw⟩ := not_forall.mp hnone
    obtain ⟨partial_signatures, hcomplete⟩ := Option.ne_none_iff_exists'.mp hw
    obtain ⟨order, hinv⟩ := hinv
    refine Or.inl (hheld.fits fun u => hjoined u fun hu => ?_)
    have hsent := sent_of_complete hinv hcomplete u
    rw [hu] at hsent
    exact Bool.false_ne_true hsent

/-- The room before and after a signer has joined it. -/
def Ready (room_id : String) (body : Fin n → M) (db : Db) (stage : OnlineStage n M) : Prop :=
  stage = .start n M db ∨ ∃ order, stage.Inv body room_id db.allocated order

omit [DecidableEq Site] in
theorem Ready.step {db : Db} {stage t : OnlineStage n M} (h : Ready room_id body db stage) (hfit : n < U16.size)
    (hfresh : ∀ a, db.rooms room_id = some a → (db.heap a).subscribers = 0) {v : Fin n}
    (hstep : stage.step build room_id body v = some t) : ∃ order, t.Inv body room_id db.allocated order := by
  obtain rfl | ⟨order, hinv⟩ := h
  · exact ⟨[], OnlineStage.start_step hfresh hstep⟩
  · exact OnlineStage.step_inv hinv hfit hstep

omit [DecidableEq Site] in
theorem Ready.not_failed {db : Db} {stage : OnlineStage n M} (h : Ready room_id body db stage) (v : Fin n) :
    stage.signer v ≠ .failed := by
  intro hv
  obtain rfl | ⟨order, hinv⟩ := h
  · cases hv
  · have hphase := hinv.phases v
    rw [hv] at hphase
    exact hphase

/-- The connections of the signers, and their room unless it is broken. -/
structure Inv (room_id : String) (body : Fin n → M) (site : Fin n → Site) (size : Site → Nat) (db : Db)
    (s : Occupancy n M Site) : Prop where
  held : s.Held site size
  room : s.Broken ∨ Ready room_id body db s.stage ∧ (Fits site size ∨ s.Waits n)

theorem start_inv (accepting : Bool) (db : Db) :
    (start size accepting db : Occupancy n M Site).Inv room_id body site size db :=
  ⟨start_held accepting db, Or.inr ⟨Or.inl rfl, Or.inr ⟨fun _ => rfl, fun _ hv => (hv rfl).elim⟩⟩⟩

/-- A step in a room that is not broken. -/
theorem Stepped.room (hfit : n < U16.size) {db : Db}
    (hfresh : ∀ a, db.rooms room_id = some a → (db.heap a).subscribers = 0) {t : Occupancy n M Site}
    (hstep : Stepped site build room_id body s t) (hheld : s.Held site size) (hready : Ready room_id body db s.stage)
    (hwaits : Fits site size ∨ s.Waits n) :
    t.Broken ∨ Ready room_id body db t.stage ∧ (Fits site size ∨ t.Waits n) := by
  cases hstep with
  | sign hholding hsign =>
    have hinv := hready.step hfit hfresh hsign
    refine Or.inr ⟨Or.inr hinv, ?_⟩
    obtain hfits | hwaits := hwaits
    · exact Or.inl hfits
    · exact sign_waits hheld hwaits hholding hsign hinv
  | @fail v stage hholding hfail =>
    obtain ⟨-, db', rfl⟩ := exists_set_of_breakOff hfail
    exact Or.inl ⟨v, OnlineStage.set_self db' v .failed⟩
  | pool hforeign hp => exact Or.inr ⟨hready, hwaits.imp_right fun hwaits => ⟨hwaits.incomplete, hwaits.holding⟩⟩
  | refused hposted | entered hposted =>
    refine Or.inr ⟨hready, hwaits.imp_right fun hwaits => hwaits.set (hwaits.joining ?_)⟩
    rw [hposted]
    exact nofun
  | checkout hwaiting | timeout hwaiting =>
    refine Or.inr ⟨hready, hwaits.imp_right fun hwaits => hwaits.set (hwaits.joining ?_)⟩
    rw [hwaiting]
    exact nofun
  | @answer v p live hholding hover hp =>
    refine Or.inr ⟨hready, hwaits.imp_right fun hwaits => hwaits.set ?_⟩
    obtain hjoining | hfailed | hcomplete := hover
    · exact hjoining
    · exact (hready.not_failed v hfailed).elim
    · rw [hwaits.incomplete v] at hcomplete
      cases hcomplete

theorem step_inv (hfit : n < U16.size) {db : Db}
    (hfresh : ∀ a, db.rooms room_id = some a → (db.heap a).subscribers = 0) {t : Occupancy n M Site}
    {action : Action n Site} (h : s.Inv room_id body site size db)
    (hstep : step site build room_id body s action = some t) : t.Inv room_id body site size db := by
  have hstepped := stepped_of_step hstep
  refine ⟨hstepped.held h.held, ?_⟩
  obtain hbroken | ⟨hready, hwaits⟩ := h.room
  · exact Or.inl (hstepped.broken hbroken)
  · exact hstepped.room hfit hfresh h.held hready hwaits

theorem exec_inv (hfit : n < U16.size) {db : Db}
    (hfresh : ∀ a, db.rooms room_id = some a → (db.heap a).subscribers = 0) {t : Occupancy n M Site}
    {actions : List (Action n Site)} (h : s.Inv room_id body site size db)
    (hrun : Machine.exec (step site build room_id body) s actions = some t) : t.Inv room_id body site size db :=
  Machine.exec_invariant (fun _ _ _ h hstep => step_inv hfit hfresh h hstep) h hrun

theorem Stepped.joined {t : Occupancy n M Site} (hstep : Stepped site build room_id body s t) {v : Fin n}
    (hv : s.stage.signer v ≠ .joining) : t.stage.signer v ≠ .joining := by
  cases hstep with
  | sign hholding hsign =>
    obtain ⟨db, phase, rfl, hphase⟩ := exists_set_of_step hsign
    exact signer_set (P := fun phase => phase ≠ .joining) hphase hv
  | fail hholding hfail =>
    obtain ⟨-, db, rfl⟩ := exists_set_of_breakOff hfail
    exact signer_set (P := fun phase => phase ≠ .joining) nofun hv
  | refused | entered | checkout | timeout | answer | pool => exact hv

omit [Serde (Msg M)] in
/-- Where as many signers hold a connection as the pool has, it is empty. -/
theorem Held.empty (h : s.Held site size) {a : Site} {signers : Finset (Fin n)}
    (hholding : ∀ v ∈ signers, site v = a ∧ s.request v = .holding) (hcard : size a ≤ signers.card)
    (p : ConnectionPool) : (s.pool a).get ≠ some (.ok p) := by
  have hcount : signers.card ≤ s.having site a .holding := Census.card_le_count hholding
  have hout := hcount.trans (h.holding a)
  have hle := (h.sized a).le
  have hidle : (s.pool a).idle = 0 := by omega
  intro hget
  unfold ConnectionPool.get at hget
  split at hget
  · cases hget
  · rename_i q hready
    obtain ⟨inner, available, rfl⟩ := ConnectionPool.getReady_ok hready
    rw [show ({ s.pool a with inner, available } : ConnectionPool).idle = 0 from hidle] at hget
    cases hget

/-- Signers of one room at servers with pools of their own, in any run, whatever else is done with the pools and
by the databases. If a signer completes, each server has a connection for every one of its signers, or the `sign`
of a signer has ended early. If a server has not, then until that happens whoever has joined the room has its
connection, and where these take all the connections of a server, none is handed out. -/
theorem signing_needs_connections (build : U16.Build) (room_id : String) (body : Fin n → M) (site : Fin n → Site)
    (size : Site → Nat) (accepting : Bool) (db : Db) (hfit : n < U16.size)
    (hfresh : ∀ a, db.rooms room_id = some a → (db.heap a).subscribers = 0) (actions : List (Action n Site))
    (s : Occupancy n M Site)
    (hrun : Machine.exec (step site build room_id body) (start size accepting db) actions = some s) :
    (∀ v partial_signatures, (s.stage.signer v).complete n = some partial_signatures → s.Broken ∨ Fits site size) ∧
      (¬ Fits site size → ∀ later t, Machine.exec (step site build room_id body) s later = some t → t.Broken ∨
        (∀ v, s.stage.signer v ≠ .joining → t.request v = .holding) ∧
          ∀ a (signers : Finset (Fin n)), (∀ v ∈ signers, site v = a ∧ s.stage.signer v ≠ .joining) →
            size a ≤ signers.card → ∀ p, (t.pool a).get ≠ some (.ok p)) := by
  have hinv := exec_inv hfit hfresh (start_inv accepting db) hrun
  refine ⟨fun v partial_signatures hv => ?_, fun hfits later t hlater => ?_⟩
  · obtain hbroken | ⟨-, hfits | hwaits⟩ := hinv.room
    · exact Or.inl hbroken
    · exact Or.inr hfits
    · rw [hwaits.incomplete v] at hv
      cases hv
  · have hinv' := exec_inv hfit hfresh hinv hlater
    obtain hbroken | ⟨-, hroom⟩ := hinv'.room
    · exact Or.inl hbroken
    · have hwaits := hroom.resolve_left hfits
      have hholding : ∀ v, s.stage.signer v ≠ .joining → t.request v = .holding := fun v hv =>
        hwaits.holding v (Machine.exec_invariant (I := fun t => t.stage.signer v ≠ .joining)
          (fun _ _ _ h hstep => (stepped_of_step hstep).joined h) hv hlater)
      exact Or.inr ⟨hholding, fun a signers hsigners hcard =>
        hinv'.held.empty (fun v hv => ⟨(hsigners v hv).1, hholding v (hsigners v hv).2⟩) hcard⟩

end Joined

/-! ### Two signers at one server -/

/-- Two signers at a server with `size` connections. -/
def twoSigners (size : Nat) : Occupancy 2 Nat Unit := start (fun _ => size) true Db.empty

def stepTwo : Occupancy 2 Nat Unit → Action 2 Unit → Option (Occupancy 2 Nat Unit) :=
  letI := Serde.numeric (Msg Nat)
  step (fun _ => ()) .debug "room-online" fun v => (v : Nat)

/-- A signer gets a connection that the pool has established. -/
def letIn (v : Fin 2) : List (Action 2 Unit) := [.pool () .establish, .get v, .checkout v]

/-- The first signer joins the room, and the second one waits. -/
def joinAlone : List (Action 2 Unit) := letIn 0 ++ [.sign 0, .get 1]

def signTogether : List (Action 2 Unit) :=
  letIn 0 ++ letIn 1 ++ List.replicate 5 (.sign 0) ++ List.replicate 6 (.sign 1) ++ List.replicate 2 (.sign 0)

/-- The stream of the first signer ends. -/
def loseStream : List (Action 2 Unit) := [.fail 0, .answer 0 true]

/-- With one connection two signers are stuck as soon as one has joined, until its stream ends; with two they
sign. -/
theorem two_signers_need_two :
    (∃ s, Machine.exec stepTwo (twoSigners 1) joinAlone = some s ∧
      (∀ later t, Machine.exec stepTwo s later = some t →
        t.Broken ∨ t.request 0 = .holding ∧ ∀ p, (t.pool ()).get ≠ some (.ok p)) ∧
      ∃ t, Machine.exec stepTwo s loseStream = some t ∧ t.request 0 = .over ∧ ((t.pool ()).idle = 1)) ∧
      ∃ s, Machine.exec stepTwo (twoSigners 2) signTogether = some s ∧
        (∀ v, ((s.stage.signer v).complete 2).isSome) ∧ Fits (fun _ : Fin 2 => ()) fun _ => 2 := by
  let _ := Serde.numeric (Msg Nat)
  have hstuck : ((Machine.exec stepTwo (twoSigners 1) joinAlone).bind fun s =>
      (Machine.exec stepTwo s loseStream).map fun t =>
        ((s.stage.signer 0).live, t.request 0, (t.pool ()).idle)) = some (1, .over, 1) := by
    decide +kernel
  have hsigned : (Machine.exec stepTwo (twoSigners 2) signTogether).map
      (fun s => (((s.stage.signer 0).complete 2).isSome, ((s.stage.signer 1).complete 2).isSome)) =
        some (true, true) := by
    decide +kernel
  constructor
  · obtain ⟨s, hs, hlost⟩ := Option.bind_eq_some_iff.mp hstuck
    obtain ⟨t, ht, hlost⟩ := Option.map_eq_some_iff.mp hlost
    obtain ⟨hlive, hlost⟩ := Prod.mk.inj hlost
    obtain ⟨hover, hidle⟩ := Prod.mk.inj hlost
    have hjoined : s.stage.signer 0 ≠ .joining := by
      intro hjoining
      rw [hjoining] at hlive
      cases hlive
    have hfits : ¬ Fits (fun _ : Fin 2 => ()) fun _ => 1 := fun hfits => absurd (hfits ()) (by decide)
    obtain ⟨-, hstuck⟩ := signing_needs_connections .debug "room-online" (fun v : Fin 2 => (v : Nat)) (fun _ => ())
      (fun _ => 1) true Db.empty (by decide) nofun joinAlone s hs
    refine ⟨s, hs, fun later t ht => (hstuck hfits later t ht).imp_right fun ⟨hholding, hempty⟩ => ?_,
      t, ht, hover, hidle⟩
    refine ⟨hholding 0 hjoined, hempty () {0} (fun v hv => ?_) (Nat.le_refl 1)⟩
    rw [Finset.mem_singleton.mp hv]
    exact ⟨rfl, hjoined⟩
  · obtain ⟨s, hs, hcomplete⟩ := Option.map_eq_some_iff.mp hsigned
    obtain ⟨hzero, hone⟩ := Prod.mk.inj hcomplete
    have hall : ∀ v, ((s.stage.signer v).complete 2).isSome := Fin.forall_fin_two.mpr ⟨hzero, hone⟩
    obtain ⟨partial_signatures, hv⟩ := Option.isSome_iff_exists.mp hzero
    obtain ⟨v, hbroken⟩ | hfits := (signing_needs_connections .debug "room-online" (fun v : Fin 2 => (v : Nat))
      (fun _ => ()) (fun _ => 2) true Db.empty (by decide) nofun signTogether s hs).1 0 partial_signatures hv
    · have hcomplete := hall v
      rw [hbroken] at hcomplete
      cases hcomplete
    · exact ⟨s, hs, hall, hfits⟩

end Occupancy

end Server
