import MultiPartyTss.Gg20.Resumption

/-!
# The 16-bit counters of a room

One room under any sequence of `subscribe`, `drop`, `issue_unique_idx`, `publish` and `next`. The number of
subscribers and the next index are atomic counters, which wrap silently; the cursor of a subscription is
plain arithmetic on `u16`. None of them is bounded by the code. `counters_hold_iff` gives the bounds on
what clients do under which no counter overflows, and then what the counters are for holds: the issued
indices differ, a room is abandoned exactly when nobody listens, and an event id names one message.
-/

namespace Gg20

namespace RoomCounters

open LastEventId

/-- A room, the cursors of its live subscriptions, the indices issued and the events delivered so far. -/
structure History where
  room : Room
  live : List Nat
  issued : List Nat
  delivered : List (Nat × String)
  deriving DecidableEq, Repr

def start : History := ⟨Room.empty, [], [], []⟩

inductive Op where
  | subscribe (last_event_id : Option String)
  /-- Drops the subscription at place `k` of the live ones. -/
  | drop (k : Nat)
  | issueUniqueIdx
  | publish (message : String)
  /-- A call of `next` on the subscription at place `k` that completes. -/
  | next (k : Nat)
  deriving DecidableEq, Repr

def History.drop (s : History) (k : Nat) : History :=
  { s with room := s.room.dropSubscriber, live := s.live.eraseIdx k }

def step (build : U16.Build) (s : History) : Op → Option History
  | .subscribe last_event_id =>
    match fromRequest last_event_id with
    | .success last_seen_msg =>
      match firstEvent build last_seen_msg with
      | some next_event => some { s with room := s.room.addSubscriber, live := s.live ++ [next_event] }
      -- the panic comes after the counter has moved, and there is no subscription to drop
      | none => some { s with room := s.room.addSubscriber }
    | .failure _ _ => none
  | .drop k => if k < s.live.length then some (s.drop k) else none
  | .issueUniqueIdx =>
    some { s with room := s.room.issueUniqueIdx.2, issued := s.issued ++ [s.room.issueUniqueIdx.1] }
  | .publish message => some { s with room := s.room.publish message }
  | .next k =>
    match s.live[k]? with
    | some n =>
      match look build s.room.messages n with
      | .event id message next_event =>
        some { s with live := s.live.set k next_event, delivered := s.delivered ++ [(id, message)] }
      | .overflow => some (s.drop k)
      | .missing => none
    | none => none

/-- None of the `u16` computations of the operation overflows. -/
def NoOverflow (s : History) : Op → Prop
  | .subscribe last_event_id => s.room.subscribers + 1 < U16.size ∧
    ∀ i, fromRequest last_event_id = .success (some i) → i + 1 < U16.size
  | .drop k => k < s.live.length → 0 < s.room.subscribers
  | .issueUniqueIdx => s.room.next_idx + 1 < U16.size
  | .publish _ => True
  | .next k => ∀ n, s.live[k]? = some n → n < s.room.messages.length → n + 1 < U16.size

/-- What the counters are for. -/
structure Sound (s : History) : Prop where
  issued_nodup : s.issued.Nodup
  issued_pos : ∀ idx ∈ s.issued, 1 ≤ idx
  abandoned : s.room.isAbandoned = true ↔ s.live = []
  delivered : ∀ id m m', (id, m) ∈ s.delivered → (id, m') ∈ s.delivered → m = m'

/-- Bounds on the clients: fewer than 65536 listen at once, fewer than 65535 indices are asked for, nobody
resumes after the last event id, and nobody receives the last event. -/
def Within (s : History) : Op → Prop
  | .subscribe last_event_id =>
    s.live.length < 65535 ∧ fromRequest last_event_id ≠ .success (some 65535)
  | .issueUniqueIdx => s.issued.length < 65534
  | .next k => s.live[k]? = some 65535 → s.room.messages.length ≤ 65535
  | .drop _ | .publish _ => True

/-! ### The invariant -/

/-- The counters are the counts. -/
structure Counted (s : History) : Prop where
  subscribers : s.room.subscribers = s.live.length
  next_idx : s.room.next_idx = s.issued.length + 1
  issued : s.issued = List.range' 1 s.issued.length
  cursors : ∀ n ∈ s.live, n < U16.size
  delivered : ∀ e ∈ s.delivered, s.room.messages[e.1]? = some e.2

theorem start_counted : Counted start where
  subscribers := rfl
  next_idx := rfl
  issued := rfl
  cursors := by simp [start]
  delivered := by simp [start]

theorem Counted.sound {s : History} (h : Counted s) : Sound s where
  issued_nodup := by
    rw [h.issued]
    exact List.nodup_range'
  issued_pos idx hidx := by
    rw [h.issued, List.mem_range'_1] at hidx
    exact hidx.1
  abandoned := by
    simp [Room.isAbandoned, h.subscribers]
  delivered id m m' hm hm' := by
    have hone := h.delivered _ hm
    have htwo := h.delivered _ hm'
    simp only at hone htwo
    rw [hone] at htwo
    exact Option.some.inj htwo

theorem fromRequest_lt {header : Option String} {i : Nat} (h : fromRequest header = .success (some i)) :
    i < U16.size := by
  cases header with
  | none => cases h
  | some id =>
    cases hid : parseU16 id with
    | none => simp [fromRequest, hid] at h
    | some n =>
      simp only [fromRequest, Option.map_some, hid, Outcome.success.injEq, Option.some.injEq] at h
      exact h ▸ parseU16_lt hid

theorem noOverflow_iff_within {s : History} (h : Counted s) (op : Op) : NoOverflow s op ↔ Within s op := by
  have hsize : U16.size = 65536 := rfl
  have hsubscribers := h.subscribers
  have hnext := h.next_idx
  cases op with
  | subscribe last_event_id =>
    refine and_congr (by omega) ⟨fun hall heq => ?_, fun hne i heq => ?_⟩
    · have hlast := hall 65535 heq
      omega
    · have hlt := fromRequest_lt heq
      have hi : i ≠ 65535 := fun hi => hne (hi ▸ heq)
      omega
  | drop k => exact ⟨fun _ => trivial, fun _ hk => by omega⟩
  | issueUniqueIdx =>
    simp only [NoOverflow, Within]
    omega
  | publish message => exact Iff.rfl
  | next k =>
    refine ⟨fun hall hlast => ?_, fun hbound n hn hlen => ?_⟩
    · by_contra hlen
      have hlt := hall 65535 hlast (by omega)
      omega
    · have hlt := h.cursors n (List.mem_of_getElem? hn)
      have hne : n ≠ 65535 := by
        rintro rfl
        have hshort := hbound hn
        omega
      omega

/-- The operations within the bounds, one constructor for each. -/
inductive Stepped (s : History) : Op → History → Prop where
  | subscribe {last_event_id n} : n < U16.size → s.live.length < 65535 →
      Stepped s (.subscribe last_event_id)
        { s with room := s.room.addSubscriber, live := s.live ++ [n] }
  | drop {k} : k < s.live.length → Stepped s (.drop k) (s.drop k)
  | issueUniqueIdx : s.issued.length < 65534 → Stepped s .issueUniqueIdx
      { s with room := s.room.issueUniqueIdx.2, issued := s.issued ++ [s.room.issueUniqueIdx.1] }
  | publish (message) : Stepped s (.publish message) { s with room := s.room.publish message }
  | next {k n message} : s.live[k]? = some n → s.room.messages[n]? = some message → n + 1 < U16.size →
      Stepped s (.next k)
        { s with live := s.live.set k (n + 1), delivered := s.delivered ++ [(n, message)] }

theorem stepped_of_step {build : U16.Build} {s t : History} {op : Op} (h : Counted s) (hop : Within s op)
    (hstep : step build s op = some t) : Stepped s op t := by
  have hno := (noOverflow_iff_within h op).mpr hop
  cases op with
  | subscribe last_event_id =>
    simp only [step] at hstep
    cases hrequest : fromRequest last_event_id with
    | failure status error => simp [hrequest] at hstep
    | success last_seen_msg =>
      cases last_seen_msg with
      | none =>
        simp only [hrequest, firstEvent, Option.some.injEq] at hstep
        exact hstep ▸ .subscribe (by decide) hop.1
      | some i =>
        have hi := hno.2 i hrequest
        simp only [hrequest, firstEvent, U16.addOne_of_lt hi, Option.some.injEq] at hstep
        exact hstep ▸ .subscribe hi hop.1
  | drop k =>
    simp only [step] at hstep
    split_ifs at hstep with hk
    exact Option.some.inj hstep ▸ .drop hk
  | issueUniqueIdx => exact Option.some.inj hstep ▸ .issueUniqueIdx hop
  | publish message => exact Option.some.inj hstep ▸ .publish message
  | next k =>
    simp only [step] at hstep
    cases hn : s.live[k]? with
    | none => simp [hn] at hstep
    | some n =>
      cases hmessage : s.room.messages[n]? with
      | none => simp [hn, look, hmessage] at hstep
      | some message =>
        have hlt := hno n hn (List.getElem?_eq_some_iff.mp hmessage).1
        simp only [hn, look, hmessage, U16.addOne_of_lt hlt, Option.some.injEq] at hstep
        exact hstep ▸ .next hn hmessage hlt

theorem step_counted {build : U16.Build} (s : History) (op : Op) (t : History) (h : Counted s)
    (hop : Within s op) (hstep : step build s op = some t) : Counted t := by
  have hsize : U16.size = 65536 := rfl
  cases stepped_of_step h hop hstep with
  | @subscribe last_event_id n hn hlive =>
    have hcount : U16.fetchAdd s.room.subscribers = s.live.length + 1 := by
      rw [h.subscribers, U16.fetchAdd_of_lt (by omega)]
    refine { h with subscribers := by simp [Room.addSubscriber, hcount], cursors := fun m hm => ?_ }
    rcases List.mem_append.mp hm with hm | hm
    · exact h.cursors m hm
    · rw [List.mem_singleton.mp hm]
      exact hn
  | @drop k hk =>
    have hcount : U16.fetchSub s.room.subscribers = s.live.length - 1 := by
      rw [h.subscribers, U16.fetchSub_of_pos (by omega)]
    exact { h with
      subscribers := by simp [History.drop, Room.dropSubscriber, hcount, List.length_eraseIdx, hk]
      cursors := fun m hm => h.cursors m (List.mem_of_mem_eraseIdx hm) }
  | issueUniqueIdx hissued =>
    have hnext : U16.fetchAdd s.room.next_idx = s.issued.length + 2 := by
      rw [h.next_idx, U16.fetchAdd_of_lt (by omega)]
    refine { h with next_idx := by simp [Room.issueUniqueIdx, hnext], issued := ?_ }
    simp only [Room.issueUniqueIdx, List.length_append, List.length_singleton, List.range'_1_concat,
      h.next_idx, ← h.issued, Nat.add_comm]
  | publish message =>
    refine { h with delivered := fun e he => ?_ }
    have hget := h.delivered e he
    rw [← hget]
    exact List.getElem?_append_left (List.getElem?_eq_some_iff.mp hget).1
  | @next k n message hn hmessage hlt =>
    refine { h with subscribers := by simp [h.subscribers], cursors := fun m hm => ?_, delivered := fun e he => ?_ }
    · rcases List.mem_or_eq_of_mem_set hm with hm | rfl
      · exact h.cursors m hm
      · exact hlt
    · rcases List.mem_append.mp he with he | he
      · exact h.delivered e he
      · rw [List.mem_singleton.mp he]
        exact hmessage

/-- No counter overflows in a run, and they do what they are for throughout it, exactly when the run stays
within the bounds. -/
theorem counters_hold_iff (build : U16.Build) (ops : List Op) :
    (Machine.Guarded (step build) NoOverflow start ops ∧ Machine.Always (step build) Sound start ops) ↔
      Machine.Guarded (step build) Within start ops := by
  have hguards : Machine.Guarded (step build) NoOverflow start ops ↔
      Machine.Guarded (step build) Within start ops :=
    Machine.guarded_iff_guarded step_counted (fun s op hs => noOverflow_iff_within hs op) start_counted
  rw [hguards, and_iff_left_iff_imp]
  exact fun hguard => (Machine.always_of_guarded step_counted start_counted hguard).mono fun s hs => hs.sound

/-- Resuming after event 65535 overflows the cursor. With overflow checks the panic leaves a subscriber
counted that does not exist. -/
theorem last_event_id_overflows :
    ¬ (Machine.Guarded (step .release) NoOverflow start [.subscribe (some "65535")] ∧
      Machine.Always (step .release) Sound start [.subscribe (some "65535")]) ∧
    ∃ t, step .debug start (.subscribe (some "65535")) = some t ∧ ¬ Sound t := by
  have hlast : fromRequest (some "65535") = .success (some 65535) := by decide +kernel
  constructor
  · intro h
    have hlt := h.1.1.2 65535 hlast
    revert hlt
    decide
  · have hstep : step .debug start (.subscribe (some "65535")) = some ⟨Room.empty.addSubscriber, [], [], []⟩ := by
      decide +kernel
    refine ⟨_, hstep, fun h => ?_⟩
    have hnobody := h.abandoned.mpr rfl
    revert hnobody
    decide

end RoomCounters

end Gg20
