import MultiPartyTss.Lib.Run
import MultiPartyTss.Gg18.Adapter

/-!
# Concurrent signups in one room

Any number of callers run `get_party_signup(num, key)` on one shared map. A call is two steps: the
read-lock section, which fixes the slot, and the write-lock section, which stores it. Nothing ties the
two together, so another caller's write can fall between them, and then both return the same slot.

`allocated_iff_unchanged`: a run allocates the slots `1..=num` once each, in one session, in all its
states exactly when every write finds the entry its own call read.
-/

namespace Gg18

namespace SignupRace

open StoreCommunity

/-- How far one call has come. `seen` is what its lookup returned. -/
inductive Call where
  | waiting
  | decided (seen : Option String) (party_signup : PartySignup)
  | returned (result : Except Unit PartySignup)
  | panicked

structure Race where
  store : Store
  call : Nat → Call
  /-- The results returned so far, oldest first. -/
  completed : List (Except Unit PartySignup)

inductive Action where
  /-- Caller `c` takes the read lock; `fresh` is its `Uuid::new_v4`, if it needs one. -/
  | read (c : Nat) (fresh : String)
  /-- Caller `c` takes the write lock and returns. -/
  | write (c : Nat)

def Race.setCall (s : Race) (c : Nat) (call : Call) : Race :=
  { s with call := fun d => if d = c then call else s.call d }

@[simp] theorem setCall_store (s : Race) (c : Nat) (call : Call) : (s.setCall c call).store = s.store :=
  rfl

@[simp] theorem setCall_completed (s : Race) (c : Nat) (call : Call) :
    (s.setCall c call).completed = s.completed := rfl

@[simp] theorem setCall_call (s : Race) (c d : Nat) (call : Call) :
    (s.setCall c call).call d = if d = c then call else s.call d := rfl

def start (store : Store) : Race := ⟨store, fun _ => .waiting, []⟩

/-- The slots returned in `Ok`, oldest first. -/
def Race.issued (s : Race) : List PartySignup :=
  s.completed.filterMap fun
    | .ok party_signup => some party_signup
    | .error () => none

theorem issued_le_completed (s : Race) : s.issued.length ≤ s.completed.length :=
  List.length_filterMap_le _ _

theorem issued_concat_ok {s t : Race} {p : PartySignup} (h : t.completed = s.completed ++ [.ok p]) :
    t.issued = s.issued ++ [p] := by
  simp [Race.issued, h]

theorem issued_concat_error {s t : Race} (h : t.completed = s.completed ++ [.error ()]) :
    t.issued = s.issued := by
  simp [Race.issued, h]

section Runs

variable [Serde PartySignup]

def step (num : Nat) (key : String) (s : Race) : Action → Option Race
  | .read c fresh =>
    match s.call c with
    | .waiting =>
      match readPartySignup num key fresh s.store with
      | some (.ok party_signup) => some (s.setCall c (.decided (s.store key) party_signup))
      -- the `?` operator: the call returns without taking the write lock
      | some (.error ()) =>
        some { s.setCall c (.returned (.error ())) with completed := s.completed ++ [.error ()] }
      | none => some (s.setCall c .panicked)
    | _ => none
  | .write c =>
    match s.call c with
    | .decided _ party_signup =>
      some { s.setCall c (.returned (.ok party_signup)) with
        store := writePartySignup key party_signup s.store
        completed := s.completed ++ [.ok party_signup] }
    | _ => none

/-- The room's promise: the numbers returned are `1..=min(completed, num)`, once each, in one session,
and once all are gone every further call returns `Err` and leaves the store alone. -/
structure Allocated (num : Nat) (key : String) (s : Race) : Prop where
  numbers : (s.issued.map PartySignup.number).Perm (List.range' 1 (min s.completed.length num))
  session : ∀ p ∈ s.issued, ∀ q ∈ s.issued, p.uuid = q.uuid
  exhausted : num ≤ s.issued.length → ∀ c fresh t, step num key s (.read c fresh) = some t →
    t.call c = .returned (.error ()) ∧ t.store = s.store

/-- A write-lock section finds the entry that its own call saw under the read lock. -/
def Unchanged (key : String) (s : Race) : Action → Prop
  | .read _ _ => True
  | .write c => ∀ seen party_signup, s.call c = .decided seen party_signup → s.store key = seen

/-! ### What a step does -/

theorem step_read {num : Nat} {key : String} {s t : Race} {c : Nat} {fresh : String}
    (h : step num key s (.read c fresh) = some t) :
    s.call c = .waiting ∧
      ((∃ p, readPartySignup num key fresh s.store = some (.ok p) ∧
          t = s.setCall c (.decided (s.store key) p)) ∨
        (readPartySignup num key fresh s.store = some (.error ()) ∧
          t = { s.setCall c (.returned (.error ())) with completed := s.completed ++ [.error ()] }) ∨
        (readPartySignup num key fresh s.store = none ∧ t = s.setCall c .panicked)) := by
  rw [step] at h
  cases hcall : s.call c with
  | waiting =>
    refine ⟨rfl, ?_⟩
    simp only [hcall] at h
    rcases hread : readPartySignup num key fresh s.store with _ | ⟨⟨⟩⟩ | p
    · simp only [hread, Option.some.injEq] at h
      exact Or.inr (Or.inr ⟨rfl, h.symm⟩)
    · simp only [hread, Option.some.injEq] at h
      exact Or.inr (Or.inl ⟨rfl, h.symm⟩)
    · simp only [hread, Option.some.injEq] at h
      exact Or.inl ⟨p, rfl, h.symm⟩
  | decided seen p => simp [hcall] at h
  | returned result => simp [hcall] at h
  | panicked => simp [hcall] at h

theorem step_write {num : Nat} {key : String} {s t : Race} {c : Nat}
    (h : step num key s (.write c) = some t) :
    ∃ seen p, s.call c = .decided seen p ∧
      t = { s.setCall c (.returned (.ok p)) with
        store := writePartySignup key p s.store
        completed := s.completed ++ [.ok p] } := by
  rw [step] at h
  cases hcall : s.call c with
  | decided seen p =>
    simp only [hcall, Option.some.injEq] at h
    exact ⟨seen, p, rfl, h.symm⟩
  | waiting => simp [hcall] at h
  | returned result => simp [hcall] at h
  | panicked => simp [hcall] at h

/-! ### The invariant -/

/-- After `m` slots of session `uuid`: the entry says so, slots `1..=m` were returned in order, an `Err`
was returned only when none was left, and every pending call holds the slot after the entry it saw. -/
structure Issued (num : Nat) (key : String) (m : Nat) (uuid : String) (s : Race) : Prop where
  stored : s.store key = issuedEntry m uuid
  bound : m ≤ num
  numbers : s.issued.map PartySignup.number = List.range' 1 m
  session : ∀ p ∈ s.issued, p.uuid = uuid
  errors : m < num → s.completed.length = m
  pending : ∀ c seen p, s.call c = .decided seen p →
    ∃ k, p.number = k + 1 ∧ seen = issuedEntry k uuid ∧ k ≤ m ∧ k < num ∧ (k ≠ 0 → p.uuid = uuid)

def Inv (num : Nat) (key : String) (s : Race) : Prop := ∃ m uuid, Issued num key m uuid s

theorem issued_length {num m : Nat} {key uuid : String} {s : Race} (h : Issued num key m uuid s) :
    s.issued.length = m := by
  have hlen := congrArg List.length h.numbers
  simpa using hlen

theorem start_inv (num : Nat) (key : String) {store : Store} (hkey : store key = none) :
    Inv num key (start store) := by
  refine ⟨0, "", ?_⟩
  constructor
  · exact hkey
  · exact Nat.zero_le _
  · rfl
  · intro p hp
    cases hp
  · intro _
    rfl
  · intro c seen p hcall
    cases hcall

/-- A read-lock section keeps the invariant: it either holds the next slot or finds none left. -/
theorem read_issued {num m : Nat} {key uuid : String} {s t : Race} {c : Nat} {fresh : String}
    (hnum : 1 ≤ num) (hinv : Issued num key m uuid s)
    (h : step num key s (.read c fresh) = some t) : Issued num key m uuid t := by
  obtain ⟨-, hstep⟩ := step_read h
  by_cases hlt : m < num
  · -- a slot is left, so the call decides to take it
    have hread := readPartySignup_issued fresh hinv.stored hlt
    rcases hstep with ⟨p, hp, rfl⟩ | ⟨herr, -⟩ | ⟨hnone, -⟩
    · rw [hread, Option.some.injEq, Except.ok.injEq] at hp
      subst hp
      refine ⟨hinv.stored, hinv.bound, hinv.numbers, hinv.session, hinv.errors, ?_⟩
      intro d seen p hd
      rw [setCall_call] at hd
      by_cases hdc : d = c
      · rw [if_pos hdc] at hd
        cases hd
        refine ⟨m, rfl, hinv.stored, Nat.le_refl m, hlt, fun hpos => ?_⟩
        exact if_neg hpos
      · rw [if_neg hdc] at hd
        exact hinv.pending d seen p hd
    · rw [hread] at herr
      cases herr
    · rw [hread] at hnone
      cases hnone
  · have hfull : num ≤ m := Nat.not_lt.mp hlt
    have hread := readPartySignup_full fresh hinv.stored (by omega) hfull
    rcases hstep with ⟨p, hp, -⟩ | ⟨-, rfl⟩ | ⟨hnone, -⟩
    · rw [hread] at hp
      cases hp
    · have hissued := issued_concat_error (s := s)
        (t := { s.setCall c (.returned (.error ())) with completed := s.completed ++ [.error ()] }) rfl
      constructor
      · exact hinv.stored
      · exact hinv.bound
      · rw [hissued]
        exact hinv.numbers
      · rw [hissued]
        exact hinv.session
      · intro hm
        omega
      · intro d seen p hd
        rw [setCall_call] at hd
        split_ifs at hd
        exact hinv.pending d seen p hd
    · rw [hread] at hnone
      cases hnone

/-- A write-lock section that finds the entry its call read issues the next slot. -/
theorem write_issued {num m : Nat} {key uuid : String} {s t : Race} {c : Nat}
    (hinv : Issued num key m uuid s) (hguard : Unchanged key s (.write c))
    (h : step num key s (.write c) = some t) : Inv num key t := by
  obtain ⟨seen, p, hcall, rfl⟩ := step_write h
  obtain ⟨k, hnumber, hseen, -, hlt, huuid⟩ := hinv.pending c seen p hcall
  have hk : k = m := by
    have hcur := hguard seen p hcall
    rw [hinv.stored, hseen] at hcur
    exact (issuedEntry_injective hcur).symm
  subst hk
  obtain ⟨number, session⟩ := p
  dsimp only at hnumber huuid
  subst hnumber
  have hissued := issued_concat_ok (s := s) (p := ⟨k + 1, session⟩)
    (t := { s.setCall c (.returned (.ok ⟨k + 1, session⟩)) with
      store := writePartySignup key ⟨k + 1, session⟩ s.store
      completed := s.completed ++ [.ok ⟨k + 1, session⟩] }) rfl
  have hempty : k = 0 → s.issued = [] := fun hzero =>
    List.length_eq_zero_iff.mp ((issued_length hinv).trans hzero)
  refine ⟨k + 1, session, ?_⟩
  constructor
  · exact writePartySignup_issued key k session s.store
  · exact hlt
  · rw [hissued, List.map_append, hinv.numbers, List.range'_concat]
    simp [Nat.add_comm]
  · intro q hq
    rw [hissued, List.mem_append, List.mem_singleton] at hq
    rcases hq with hq | rfl
    · by_cases hzero : k = 0
      · rw [hempty hzero] at hq
        cases hq
      · rw [hinv.session q hq, huuid hzero]
    · rfl
  · intro _
    rw [List.length_append, hinv.errors hlt]
    rfl
  · intro d seen' q hd
    rw [setCall_call] at hd
    split_ifs at hd
    obtain ⟨j, hj, hseen', hle, hjnum, hjuuid⟩ := hinv.pending d seen' q hd
    refine ⟨j, hj, ?_, by omega, hjnum, fun hjzero => ?_⟩
    · rw [hseen']
      unfold issuedEntry
      by_cases hjzero : j = 0
      · rw [if_pos hjzero, if_pos hjzero]
      · rw [huuid (by omega)]
    · rw [hjuuid hjzero, huuid (by omega)]

theorem step_inv {num : Nat} (hnum : 1 ≤ num) {key : String} {s t : Race} {a : Action}
    (hinv : Inv num key s) (hguard : Unchanged key s a) (h : step num key s a = some t) :
    Inv num key t := by
  obtain ⟨m, uuid, hissued⟩ := hinv
  cases a with
  | read c fresh => exact ⟨m, uuid, read_issued hnum hissued h⟩
  | write c => exact write_issued hissued hguard h

theorem inv_allocated {num : Nat} (hnum : 1 ≤ num) {key : String} {s : Race} (hinv : Inv num key s) :
    Allocated num key s := by
  obtain ⟨m, uuid, hissued⟩ := hinv
  have hlen := issued_length hissued
  constructor
  · have hmin : min s.completed.length num = m := by
      have hle := issued_le_completed s
      have hbound := hissued.bound
      have herrors := hissued.errors
      omega
    rw [hmin, hissued.numbers]
  · intro p hp q hq
    rw [hissued.session p hp, hissued.session q hq]
  · intro hfull c fresh t h
    have hread := readPartySignup_full fresh hissued.stored (by omega)
      (show num ≤ m by omega)
    obtain ⟨-, ⟨p, hp, -⟩ | ⟨-, rfl⟩ | ⟨hnone, -⟩⟩ := step_read h
    · rw [hread] at hp
      cases hp
    · simp
    · rw [hread] at hnone
      cases hnone

/-- A write that finds another entry returns a number that was returned before. -/
theorem changed_not_allocated {num : Nat} {key : String} {s t : Race} {a : Action}
    (hinv : Inv num key s) (hchanged : ¬ Unchanged key s a) (h : step num key s a = some t) :
    ¬ Allocated num key t := by
  obtain ⟨m, uuid, hissued⟩ := hinv
  cases a with
  | read c fresh => exact absurd trivial hchanged
  | write c =>
    obtain ⟨seen, p, hcall, rfl⟩ := step_write h
    obtain ⟨k, hnumber, hseen, hle, -, -⟩ := hissued.pending c seen p hcall
    have hne : k ≠ m := by
      rintro rfl
      apply hchanged
      intro seen' p' hcall'
      rw [hcall, Call.decided.injEq] at hcall'
      rw [hissued.stored, ← hcall'.1, hseen]
    intro halloc
    have hnodup := halloc.numbers.nodup_iff.mpr (List.nodup_range')
    rw [issued_concat_ok (s := s) rfl, List.map_append, hissued.numbers, List.nodup_append] at hnodup
    refine hnodup.2.2 p.number ?_ p.number (by simp) rfl
    rw [List.mem_range'_1]
    omega

/-- The slots are allocated correctly throughout a run exactly when no other call's write-lock section
falls between the two lock sections of a call that writes. -/
theorem allocated_iff_unchanged (num : Nat) (hnum : 1 ≤ num) (key : String) (store : Store)
    (hkey : store key = none) (as : List Action) (s : Race)
    (hrun : Machine.exec (step num key) (start store) as = some s) :
    Machine.Always (step num key) (Allocated num key) (start store) as ↔
      Machine.Guarded (step num key) (Unchanged key) (start store) as :=
  Machine.guarded_iff_always (fun _ _ _ => step_inv hnum) (fun _ => inv_allocated hnum)
    (fun _ _ _ => changed_not_allocated) (start_inv num key hkey) hrun

end Runs

/-- Two callers one after the other in a room for two. -/
theorem serial_calls_allocated :
    letI := PartySignup.compact
    Machine.Always (step 2 "room") (Allocated 2 "room") (start Store.empty)
      [.read 0 "a", .write 0, .read 1 "b", .write 1] := by
  let _ := PartySignup.compact
  have hrun : ∃ s, Machine.exec (step 2 "room") (start Store.empty)
      [.read 0 "a", .write 0, .read 1 "b", .write 1] = some s := by
    simp [step, start, Race.setCall, readPartySignup, writePartySignup, Store.empty, Store.insert]
  obtain ⟨s, hs⟩ := hrun
  refine (allocated_iff_unchanged 2 (by decide) "room" Store.empty rfl _ s hs).mpr ?_
  simp [Machine.Guarded, Unchanged, step, start, Race.setCall, readPartySignup, writePartySignup,
    Store.empty, Store.insert]

/-- Two callers that both read before either writes: number 1 is returned twice. -/
theorem overlapping_calls_share_number :
    ¬ ∀ (_ : Serde PartySignup) (num : Nat) (key : String) (store : Store) (as : List Action) (s : Race),
      1 ≤ num → store key = none → Machine.exec (step num key) (start store) as = some s →
        Allocated num key s := by
  intro h
  obtain ⟨hnumbers, -, -⟩ := h PartySignup.compact 2 "room" Store.empty
    [.read 0 "a", .read 1 "b", .write 0, .write 1] _ (by decide) rfl rfl
  have hnodup := hnumbers.nodup_iff.mpr List.nodup_range'
  revert hnodup
  decide

end SignupRace

end Gg18
