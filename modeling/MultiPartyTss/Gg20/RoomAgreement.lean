import MultiPartyTss.Gg20.RoomSystem

/-!
# One room for each room id

All live subscriptions under one room id ought to be attached to the room the map holds for it; then an
accepted message reaches all of them, and they are issued different indices. `agreement` proves this for
every run in which no abandoned room is replaced while a `subscribe` or `broadcast` handler still holds
it, and in which the two 16-bit counters of a room do not wrap. `two_subscribers_two_rooms` is a run that
replaces such a room: both handlers look the room id up before either registers.
-/

namespace Gg20

/-- The handler registers a subscriber or publishes in the room it was given. -/
def Request.joins : Request → Bool
  | .subscribe _ | .broadcast _ => true
  | .issueIdx _ => false

namespace RoomSystem

structure RoomAgreement (s : RoomSystem) : Prop where
  one_room : ∀ c ∈ s.live, s.db.rooms c.room_id = some c.room
  reached : ∀ e ∈ s.accepted, ∀ c ∈ s.live, c.id ∈ e.audience → e.message ∈ (s.db.heap c.room).messages
  distinct : s.issued.Pairwise fun e f => ∀ c ∈ s.live, ∀ d ∈ s.live,
    e.holder = some c.id → f.holder = some d.id → c.room_id = d.room_id → e.idx ≠ f.idx

/-- How many indices the room has issued. -/
def issuedFrom (s : RoomSystem) (a : Nat) : Nat := s.issued.countP fun e => e.room == a

/-- The step replaces no room that a `subscribe` or `broadcast` handler was given, and wraps no counter. -/
def NoRace (s : RoomSystem) : Action → Prop
  | .writeLock h => ∀ room_id req a, s.handler h = .creating room_id req → s.db.rooms room_id = some a →
    (s.db.heap a).isAbandoned = true →
      ∀ h' room_id' req', s.handler h' = .holding room_id' req' a → req'.joins = false
  | .finish h =>
    (∀ room_id last_seen a, s.handler h = .holding room_id (.subscribe last_seen) a →
      (s.db.heap a).subscribers + 1 < U16.size) ∧
    (∀ room_id holder a, s.handler h = .holding room_id (.issueIdx holder) a →
      s.issuedFrom a < U16.size)
  | _ => True

/-! ### Live subscriptions are attached to the room of the map -/

/-- The counter of a room is at least the number of its live subscriptions, so a watched room is not
replaced, and whoever is to act in a room id was given the room of the map. -/
structure Attached (s : RoomSystem) : Prop where
  counted : ∀ a, (s.live.countP fun c => c.room == a) ≤ (s.db.heap a).subscribers
  bounded : ∀ a, (s.db.heap a).subscribers < U16.size
  agree : ∀ c ∈ s.live, s.db.rooms c.room_id = some c.room
  joining : ∀ h room_id req a, s.handler h = .holding room_id req a → req.joins = true →
    s.db.rooms room_id = some a
  requested : ∀ h room_id x, (s.handler h).request = some (room_id, .issueIdx (some x)) →
    ∀ c ∈ s.live, c.id = x → c.room_id = room_id
  issuing : ∀ h room_id x a, s.handler h = .holding room_id (.issueIdx (some x)) a →
    ∀ c ∈ s.live, c.id = x → c.room = a

theorem start_attached : Attached start := by
  constructor
  · intro a
    exact Nat.zero_le _
  · intro a
    show 0 < U16.size
    decide
  · intro c hc
    cases hc
  · intro h room_id req a hh
    cases hh
  · intro h room_id x hreq
    cases hreq
  · intro h room_id x a hh
    cases hh

theorem Attached.setHandler {s : RoomSystem} (hatt : Attached s) {h : Nat} {hd : Handler}
    (hjoin : ∀ room_id req a, hd = .holding room_id req a → req.joins = true →
      s.db.rooms room_id = some a)
    (hreq : ∀ room_id x, hd.request = some (room_id, .issueIdx (some x)) →
      ∀ c ∈ s.live, c.id = x → c.room_id = room_id)
    (hissue : ∀ room_id x a, hd = .holding room_id (.issueIdx (some x)) a →
      ∀ c ∈ s.live, c.id = x → c.room = a) : Attached (s.setHandler h hd) := by
  constructor
  · exact hatt.counted
  · exact hatt.bounded
  · exact hatt.agree
  · intro h' room_id req a hh
    rcases setHandler_cases s h hd h' with heq | heq
    · rw [heq] at hh
      exact hjoin room_id req a hh
    · rw [heq] at hh
      exact hatt.joining h' room_id req a hh
  · intro h' room_id x hx
    rcases setHandler_cases s h hd h' with heq | heq
    · rw [heq] at hx
      exact hreq room_id x hx
    · rw [heq] at hx
      exact hatt.requested h' room_id x hx
  · intro h' room_id x a hh
    rcases setHandler_cases s h hd h' with heq | heq
    · rw [heq] at hh
      exact hissue room_id x a hh
    · rw [heq] at hh
      exact hatt.issuing h' room_id x a hh

theorem Attached.finish {s : RoomSystem} (hatt : Attached s) (h : Nat) :
    Attached (s.setHandler h .finished) :=
  hatt.setHandler (by rintro _ _ _ ⟨⟩) (by rintro _ _ ⟨⟩) (by rintro _ _ _ ⟨⟩)

/-- A handler that is given the room the map holds. -/
theorem Attached.hold {s : RoomSystem} (hatt : Attached s) {h a : Nat} {room_id : String} {req : Request}
    (hh : (s.handler h).request = some (room_id, req)) (hroom : s.db.rooms room_id = some a) :
    Attached (s.setHandler h (.holding room_id req a)) := by
  refine hatt.setHandler ?_ ?_ ?_
  · rintro room_id' req' a' ⟨⟩ -
    exact hroom
  · rintro room_id' x ⟨⟩ c hc hid
    exact hatt.requested h room_id x hh c hc hid
  · rintro room_id' x a' ⟨⟩ c hc hid
    have hsame := hatt.requested h room_id x hh c hc hid
    have hagree := hatt.agree c hc
    rw [hsame, hroom, Option.some.injEq] at hagree
    exact hagree.symm

/-- No subscription is live under a room id whose room is abandoned. -/
theorem Attached.unwatched {s : RoomSystem} (hatt : Attached s) {room_id : String}
    (habandoned : ∀ a, s.db.rooms room_id = some a → (s.db.heap a).subscribers = 0) :
    ∀ c ∈ s.live, c.room_id ≠ room_id := by
  rintro c hc rfl
  have hzero := habandoned c.room (hatt.agree c hc)
  have hpos : 0 < s.live.countP fun d => d.room == c.room :=
    List.countP_pos_iff.mpr ⟨c, hc, beq_self_eq_true _⟩
  have hcount := hatt.counted c.room
  omega

/-- A new room in place of one that has no subscription and that no `subscribe` or `broadcast` handler
holds. -/
theorem Attached.createRoom {s : RoomSystem} (hatt : Attached s) (hplaced : Placed s) {room_id : String}
    (hempty : ∀ c ∈ s.live, c.room_id ≠ room_id)
    (hfree : ∀ h req a, s.handler h = .holding room_id req a → req.joins = false) :
    Attached { s with db := (s.db.createRoom room_id).2 } := by
  refine ⟨fun a => ?_, fun a => ?_, fun c hc => ?_, fun h room_id' req a hh hjoins => ?_,
    hatt.requested, hatt.issuing⟩
  · by_cases heq : a = s.db.allocated
    · subst heq
      have hnone : (s.live.countP fun c => c.room == s.db.allocated) = 0 := by
        refine List.countP_eq_zero.mpr fun c hc => ?_
        have hlt := hplaced.live c hc
        simp only [beq_iff_eq]
        omega
      show s.live.countP _ ≤ _
      rw [hnone]
      exact Nat.zero_le _
    · show s.live.countP _ ≤ Room.subscribers (if a = s.db.allocated then _ else _)
      rw [if_neg heq]
      exact hatt.counted a
  · show Room.subscribers (if a = s.db.allocated then _ else _) < _
    split_ifs
    · show 0 < U16.size
      decide
    · exact hatt.bounded a
  · show (if c.room_id = room_id then _ else _) = _
    rw [if_neg (hempty c hc)]
    exact hatt.agree c hc
  · show (if room_id' = room_id then _ else _) = _
    have hne : room_id' ≠ room_id := by
      rintro rfl
      rw [hfree h req a hh] at hjoins
      cases hjoins
    rw [if_neg hne]
    exact hatt.joining h room_id' req a hh hjoins

theorem Attached.create {s : RoomSystem} (hatt : Attached s) (hplaced : Placed s) {h : Nat}
    {room_id : String} {req : Request} (hh : s.handler h = .creating room_id req)
    (habandoned : ∀ a, s.db.rooms room_id = some a → (s.db.heap a).subscribers = 0)
    (hguard : NoRace s (.writeLock h)) :
    Attached { s.setHandler h (.holding room_id req s.db.allocated) with
      db := (s.db.createRoom room_id).2 } := by
  have hempty := hatt.unwatched habandoned
  have hrequested := hatt.requested h room_id
  rw [hh] at hrequested
  have hfree : ∀ h' req' a, s.handler h' = .holding room_id req' a → req'.joins = false := by
    intro h' req' a hh'
    by_contra hjoins
    rw [Bool.not_eq_false] at hjoins
    have hroom := hatt.joining h' room_id req' a hh' hjoins
    have hfalse := hguard room_id req a hh hroom (by simp [Room.isAbandoned, habandoned a hroom]) h'
      room_id req' hh'
    rw [hjoins] at hfalse
    cases hfalse
  -- the handler of the new room moves last, and no client is live under its room id
  refine (hatt.createRoom hplaced hempty hfree).setHandler ?_ ?_ ?_
  · rintro room_id' req' a ⟨⟩ -
    exact if_pos rfl
  · rintro room_id' x ⟨⟩
    exact hrequested x rfl
  · rintro room_id' x a ⟨⟩ c hc hid
    exact absurd (hrequested x rfl c hc hid) (hempty c hc)

/-- A room whose counter of subscribers stays as it is. -/
theorem Attached.setRoom {s : RoomSystem} (hatt : Attached s) {a : Nat} (room : Room)
    (hsubs : (s.db.heap a).subscribers ≤ room.subscribers) (hlt : room.subscribers < U16.size) :
    Attached { s with db := s.db.setRoom a room } := by
  refine ⟨fun b => ?_, fun b => ?_, hatt.agree, hatt.joining, hatt.requested, hatt.issuing⟩
  · by_cases heq : b = a
    · subst heq
      rw [setRoom_self]
      exact Nat.le_trans (hatt.counted b) hsubs
    · rw [setRoom_of_ne s.db room heq]
      exact hatt.counted b
  · by_cases heq : b = a
    · subst heq
      rw [setRoom_self]
      exact hlt
    · rw [setRoom_of_ne s.db room heq]
      exact hatt.bounded b

/-- A subscription that no `issue_idx` request names yet. -/
theorem Attached.addClient {s : RoomSystem} (hatt : Attached s) (c : Client)
    (hroom : s.db.rooms c.room_id = some c.room)
    (hfresh : ∀ h room_id, (s.handler h).request ≠ some (room_id, .issueIdx (some c.id)))
    (hlt : (s.db.heap c.room).subscribers + 1 < U16.size) :
    Attached { s with
      db := s.db.setRoom c.room (s.db.heap c.room).addSubscriber
      live := s.live ++ [c] } := by
  have hadd : (s.db.heap c.room).addSubscriber.subscribers = (s.db.heap c.room).subscribers + 1 :=
    U16.fetchAdd_of_lt hlt
  refine ⟨fun a => ?_, fun a => ?_, fun d hd => ?_, hatt.joining, fun h room_id x hx d hd hid => ?_,
    fun h room_id x a hh d hd hid => ?_⟩
  · simp only [List.countP_append, List.countP_singleton]
    have hcount := hatt.counted a
    by_cases heq : a = c.room
    · subst heq
      rw [setRoom_self, hadd]
      split_ifs <;> omega
    · rw [setRoom_of_ne s.db _ heq, if_neg (by simpa using Ne.symm heq)]
      exact hcount
  · by_cases heq : a = c.room
    · subst heq
      simp only [setRoom_self, hadd]
      exact hlt
    · simp only [setRoom_of_ne s.db _ heq]
      exact hatt.bounded a
  · rcases List.mem_append.mp hd with hd | hd
    · exact hatt.agree d hd
    · rw [List.mem_singleton.mp hd]
      exact hroom
  · rcases List.mem_append.mp hd with hd | hd
    · exact hatt.requested h room_id x hx d hd hid
    · rw [List.mem_singleton.mp hd] at hid
      subst hid
      exact absurd hx (hfresh h room_id)
  · rcases List.mem_append.mp hd with hd | hd
    · exact hatt.issuing h room_id x a hh d hd hid
    · rw [List.mem_singleton.mp hd] at hid
      subst hid
      exact absurd (by rw [hh]; rfl) (hfresh h room_id)

theorem Attached.openClient {s : RoomSystem} (hatt : Attached s) (hnamed : Named s) {h a n : Nat}
    {room_id : String} {last_seen : Option Nat}
    (hh : s.handler h = .holding room_id (.subscribe last_seen) a)
    (hlt : (s.db.heap a).subscribers + 1 < U16.size) : Attached (s.openClient h room_id a n) := by
  have hfresh : ∀ h' room_id',
      ((s.setHandler h .finished).handler h').request ≠ some (room_id', .issueIdx (some h)) := by
    intro h' room_id' hx
    rcases setHandler_cases s h .finished h' with heq | heq
    · rw [heq] at hx
      cases hx
    · -- a request names a finished handler, and `h` was none
      rw [heq] at hx
      have hfinished := hnamed.requests h' room_id' h hx
      rw [hh] at hfinished
      cases hfinished
  have hroom : s.db.rooms room_id = some a := hatt.joining h room_id _ a hh rfl
  exact (hatt.finish h).addClient ⟨h, room_id, a, n, n, (s.db.heap a).messages.length, []⟩ hroom hfresh hlt

theorem Attached.deliver {s : RoomSystem} (hatt : Attached s) {c : Client} {id n : Nat}
    {message : String} : Attached (s.deliver c id message n) := by
  have hmap : (s.deliver c id message n).live.map Client.room = s.live.map Client.room := by
    simp only [RoomSystem.deliver, List.map_map]
    refine List.map_congr_left fun d _ => ?_
    simp only [Function.comp_apply]
    split <;> rfl
  refine ⟨fun a => ?_, hatt.bounded, fun d hd => ?_, hatt.joining, fun h room_id x hx d hd hid => ?_,
    fun h room_id x a hh d hd hid => ?_⟩
  · have hcount : ∀ l : List Client, (l.countP fun d => d.room == a) =
        (l.map Client.room).countP fun b => b == a := by
      intro l
      rw [List.countP_map]
      rfl
    rw [hcount, hmap, ← hcount]
    exact hatt.counted a
  · obtain ⟨e, he, -, hroom_id, hroom, -⟩ := mem_deliver_frame hd
    rw [← hroom_id, ← hroom]
    exact hatt.agree e he
  · obtain ⟨e, he, hsame, hroom_id, -⟩ := mem_deliver_frame hd
    rw [← hroom_id]
    exact hatt.requested h room_id x hx e he (hsame.trans hid)
  · obtain ⟨e, he, hsame, -, hroom, -⟩ := mem_deliver_frame hd
    rw [← hroom]
    exact hatt.issuing h room_id x a hh e he (hsame.trans hid)

/-- Dropping a live subscription takes exactly it out of the list. -/
theorem countP_dropClient {s : RoomSystem} (hnamed : Named s) {c : Client} (hc : c ∈ s.live)
    (p : Client → Bool) :
    s.live.countP p = (s.dropClient c).live.countP p + if p c then 1 else 0 := by
  obtain ⟨d, before, after, -, hd, hlive, herase⟩ :=
    List.exists_of_eraseP (p := fun d => d.id == c.id) hc (beq_self_eq_true _)
  have hdc : d = c := by
    refine hnamed.eq_of_id ?_ hc (beq_iff_eq.mp hd)
    rw [hlive]
    simp
  subst hdc
  simp only [dropClient, herase]
  rw [hlive, List.countP_append, List.countP_append, List.countP_cons]
  omega

theorem Attached.dropClient {s : RoomSystem} (hatt : Attached s) (hnamed : Named s) {c : Client}
    (hc : c ∈ s.live) : Attached (s.dropClient c) := by
  have hpos : 0 < s.live.countP fun d => d.room == c.room :=
    List.countP_pos_iff.mpr ⟨c, hc, beq_self_eq_true _⟩
  have hsub : (s.db.heap c.room).dropSubscriber.subscribers = (s.db.heap c.room).subscribers - 1 :=
    U16.fetchSub_of_pos (Nat.lt_of_lt_of_le hpos (hatt.counted c.room))
  refine ⟨fun a => ?_, fun a => ?_, fun d hd => hatt.agree d (mem_dropClient hd), hatt.joining,
    fun h room_id x hx d hd => hatt.requested h room_id x hx d (mem_dropClient hd),
    fun h room_id x a hh d hd => hatt.issuing h room_id x a hh d (mem_dropClient hd)⟩
  · have hcount := hatt.counted a
    rw [countP_dropClient hnamed hc] at hcount
    show _ ≤ Room.subscribers ((s.db.setRoom c.room _).heap a)
    by_cases heq : a = c.room
    · subst heq
      rw [setRoom_self, hsub]
      simp only [beq_self_eq_true, if_true] at hcount
      omega
    · rw [setRoom_of_ne s.db _ heq]
      omega
  · show Room.subscribers ((s.db.setRoom c.room _).heap a) < _
    have hlt := hatt.bounded a
    by_cases heq : a = c.room
    · subst heq
      rw [setRoom_self, hsub]
      omega
    · rw [setRoom_of_ne s.db _ heq]
      exact hlt

theorem step_attached {build : U16.Build} {s t : RoomSystem} {a : Action} (hnamed : Named s)
    (hplaced : Placed s) (hatt : Attached s) (hguard : NoRace s a) (hstep : step build s a = some t) :
    Attached t := by
  have hspec := step_spec hstep
  cases hspec with
  | @arrive h room_id req hh hlive =>
    refine hatt.setHandler (by rintro _ _ _ ⟨⟩) ?_ (by rintro _ _ _ ⟨⟩)
    rintro room_id' x ⟨⟩ c hc rfl
    obtain ⟨d, hd, hid, hroom_id⟩ := hlive c.id rfl
    rw [hnamed.eq_of_id hc hd hid.symm]
    exact hroom_id
  | @found h room_id req a hh hroom hwatched => exact hatt.hold (by rw [hh]; rfl) hroom
  | @missed h room_id req hh =>
    refine hatt.setHandler (by rintro _ _ _ ⟨⟩) ?_ (by rintro _ _ _ ⟨⟩)
    rintro room_id' x ⟨⟩
    exact hatt.requested h room_id x (by rw [hh]; rfl)
  | @refound h room_id req a hh hroom hwatched => exact hatt.hold (by rw [hh]; rfl) hroom
  | created hh habandoned => exact hatt.create hplaced hh habandoned hguard
  | @subscribe h room_id last_seen a n hh hfirst =>
    exact hatt.openClient hnamed hh (hguard.1 room_id last_seen a hh)
  | @leak h room_id last_seen a hh hfirst =>
    have hlt := hguard.1 room_id last_seen a hh
    have hadd : (s.db.heap a).addSubscriber.subscribers = (s.db.heap a).subscribers + 1 :=
      U16.fetchAdd_of_lt hlt
    exact (hatt.finish h).setRoom _ (by rw [hadd]; exact Nat.le_succ _) (by rw [hadd]; exact hlt)
  | @issue h room_id holder a hh =>
    have hset := (hatt.finish h).setRoom (s.db.heap a).issueUniqueIdx.2 (Nat.le_refl _)
      (hatt.bounded a)
    exact ⟨hset.counted, hset.bounded, hset.agree, hset.joining, hset.requested, hset.issuing⟩
  | @publish h room_id message a hh =>
    have hset := (hatt.finish h).setRoom ((s.db.heap a).publish message) (Nat.le_refl _)
      (hatt.bounded a)
    exact ⟨hset.counted, hset.bounded, hset.agree, hset.joining, hset.requested, hset.issuing⟩
  | deliver hfind hget hadd => exact hatt.deliver
  | overflow hfind hadd => exact hatt.dropClient hnamed (find_mem hfind).1
  | drop hfind => exact hatt.dropClient hnamed (find_mem hfind).1

/-! ### The indices of one room -/

/-- The `k`-th index a room issues is `k` modulo `2^16`, and at most `2^16` were issued. -/
structure Numbered (s : RoomSystem) : Prop where
  numbers : ∀ a, (s.issued.filter fun e => e.room == a).map Issue.idx =
    (List.range' 1 (s.issuedFrom a)).map (· % U16.size)
  next : ∀ a, (s.db.heap a).next_idx = (1 + s.issuedFrom a) % U16.size
  bound : ∀ a, s.issuedFrom a ≤ U16.size

theorem start_numbered : Numbered start := by
  constructor
  · intro a
    rfl
  · intro a
    rfl
  · intro a
    exact Nat.zero_le _

/-- A step that issues nothing and leaves the counters of the rooms. -/
theorem Numbered.keep {s t : RoomSystem} (hnum : Numbered s) (hissued : t.issued = s.issued)
    (hnext : ∀ a, (t.db.heap a).next_idx = (s.db.heap a).next_idx) : Numbered t := by
  have hfrom : ∀ a, t.issuedFrom a = s.issuedFrom a := by
    intro a
    rw [issuedFrom, hissued, issuedFrom]
  refine ⟨fun a => ?_, fun a => ?_, fun a => ?_⟩
  · rw [hissued, hfrom]
    exact hnum.numbers a
  · rw [hnext, hfrom]
    exact hnum.next a
  · rw [hfrom]
    exact hnum.bound a

/-- Indices from one room are different, as the positions of the records are. -/
theorem Numbered.pairwise {s : RoomSystem} (hnum : Numbered s) :
    s.issued.Pairwise fun e f => e.room = f.room → e.idx ≠ f.idx := by
  have hnodup : ∀ a, ((s.issued.filter fun e => e.room == a).map Issue.idx).Nodup := by
    intro a
    rw [hnum.numbers a]
    refine List.Nodup.map_on ?_ List.nodup_range'
    intro x hx y hy hmod
    rw [List.mem_range'_1] at hx hy
    have hbound := hnum.bound a
    simp only [U16.size] at hmod hbound
    omega
  rw [List.pairwise_iff_forall_sublist]
  intro e f hsub hroom
  have hfilter := (hsub.filter fun g => g.room == f.room).map Issue.idx
  rw [List.filter_cons_of_pos (by simpa using hroom), List.filter_cons_of_pos (by simp)] at hfilter
  have hpair := (hnodup f.room).sublist hfilter
  simp only [List.filter_nil, List.map_cons, List.map_nil, List.nodup_cons, List.mem_singleton] at hpair
  exact hpair.1

theorem Numbered.issue {s : RoomSystem} (hnum : Numbered s) {h a : Nat} {holder : Option Nat}
    (hlt : s.issuedFrom a < U16.size) : Numbered (s.issueFrom h a holder) := by
  have hfrom : ∀ b, (s.issueFrom h a holder).issuedFrom b =
      s.issuedFrom b + if a = b then 1 else 0 := by
    intro b
    simp only [issuedFrom, issueFrom, List.countP_append, List.countP_singleton, beq_iff_eq]
  refine ⟨fun b => ?_, fun b => ?_, fun b => ?_⟩
  · rw [hfrom]
    simp only [issueFrom, List.filter_append, List.map_append, hnum.numbers b]
    by_cases heq : a = b
    · subst heq
      rw [if_pos rfl, List.range'_concat, List.map_append, List.filter_cons_of_pos (by simp)]
      simp [Room.issueUniqueIdx, hnum.next]
    · rw [if_neg heq, List.filter_cons_of_neg (by simpa using heq)]
      simp
  · rw [hfrom]
    show Room.next_idx ((s.db.setRoom a _).heap b) = _
    by_cases heq : a = b
    · subst heq
      rw [setRoom_self, if_pos rfl]
      simp only [Room.issueUniqueIdx, U16.fetchAdd, hnum.next]
      rw [Nat.mod_add_mod, Nat.add_assoc]
    · rw [setRoom_of_ne s.db _ (Ne.symm heq), if_neg heq]
      exact hnum.next b
  · rw [hfrom]
    have hbound := hnum.bound b
    split_ifs with heq
    · subst heq
      omega
    · exact hbound

theorem step_numbered {build : U16.Build} {s t : RoomSystem} {a : Action} (hplaced : Placed s)
    (hnum : Numbered s) (hguard : NoRace s a) (hstep : step build s a = some t) : Numbered t := by
  have hset : ∀ (b : Nat) (room : Room), room.next_idx = (s.db.heap b).next_idx →
      ∀ c, ((s.db.setRoom b room).heap c).next_idx = (s.db.heap c).next_idx := by
    intro b room hroom c
    by_cases heq : c = b
    · subst heq
      rw [setRoom_self, hroom]
    · rw [setRoom_of_ne s.db room heq]
  have hspec := step_spec hstep
  cases hspec with
  | arrive hh hlive => exact hnum.keep rfl fun b => rfl
  | found hh hroom hwatched => exact hnum.keep rfl fun b => rfl
  | missed hh => exact hnum.keep rfl fun b => rfl
  | refound hh hroom hwatched => exact hnum.keep rfl fun b => rfl
  | @created h room_id req hh habandoned =>
    refine ⟨hnum.numbers, fun b => ?_, hnum.bound⟩
    show Room.next_idx (if b = s.db.allocated then _ else _) = (1 + s.issuedFrom b) % _
    split_ifs with heq
    · subst heq
      have hnone : s.issuedFrom s.db.allocated = 0 := by
        refine List.countP_eq_zero.mpr fun e he => ?_
        have hlt := hplaced.issued e he
        simp only [beq_iff_eq]
        omega
      rw [hnone]
      rfl
    · exact hnum.next b
  | subscribe hh hfirst => exact hnum.keep rfl (hset _ _ (Room.addSubscriber_next_idx _))
  | leak hh hfirst => exact hnum.keep rfl (hset _ _ (Room.addSubscriber_next_idx _))
  | @issue h room_id holder b hh => exact hnum.issue (hguard.2 room_id holder b hh)
  | publish hh => exact hnum.keep rfl (hset _ _ rfl)
  | deliver hfind hget hadd => exact hnum.keep rfl fun b => rfl
  | overflow hfind hadd => exact hnum.keep rfl (hset _ _ (Room.dropSubscriber_next_idx _))
  | drop hfind => exact hnum.keep rfl (hset _ _ (Room.dropSubscriber_next_idx _))

/-! ### What was issued and accepted in the room of a live subscription -/

structure Recorded (s : RoomSystem) : Prop where
  issued : ∀ e ∈ s.issued, ∀ c ∈ s.live, e.holder = some c.id → e.room = c.room
  accepted : ∀ e ∈ s.accepted, ∀ c ∈ s.live, c.id ∈ e.audience → e.message ∈ (s.db.heap c.room).messages

theorem start_recorded : Recorded start := by
  constructor
  · intro e he
    cases he
  · intro e he
    cases he

/-- A step that records nothing, opens no subscription and only extends histories of their rooms. -/
theorem Recorded.keep {s t : RoomSystem} (hrec : Recorded s) (hissued : t.issued = s.issued)
    (haccepted : t.accepted = s.accepted)
    (hlive : ∀ d ∈ t.live, ∃ c ∈ s.live, c.id = d.id ∧ c.room = d.room ∧
      ∀ m ∈ (s.db.heap c.room).messages, m ∈ (t.db.heap c.room).messages) : Recorded t := by
  constructor
  · intro e he d hd hholder
    rw [hissued] at he
    obtain ⟨c, hc, hid, hroom, -⟩ := hlive d hd
    rw [← hroom]
    exact hrec.issued e he c hc (by rw [hid]; exact hholder)
  · intro e he d hd haud
    rw [haccepted] at he
    obtain ⟨c, hc, hid, hroom, hmsgs⟩ := hlive d hd
    rw [← hroom]
    exact hmsgs e.message (hrec.accepted e he c hc (by rw [hid]; exact haud))

theorem step_recorded {build : U16.Build} {s t : RoomSystem} {a : Action} (hnamed : Named s)
    (hplaced : Placed s) (hatt : Attached s) (hrec : Recorded s) (hstep : step build s a = some t) :
    Recorded t := by
  have hset : ∀ (b : Nat) (room : Room), (∀ m ∈ (s.db.heap b).messages, m ∈ room.messages) →
      ∀ c, ∀ m ∈ (s.db.heap c).messages, m ∈ ((s.db.setRoom b room).heap c).messages := by
    intro b room hroom c m hm
    by_cases heq : c = b
    · subst heq
      rw [setRoom_self]
      exact hroom m hm
    · rw [setRoom_of_ne s.db room heq]
      exact hm
  have hspec := step_spec hstep
  cases hspec with
  | arrive hh hlive => exact hrec.keep rfl rfl fun d hd => ⟨d, hd, rfl, rfl, fun m hm => hm⟩
  | found hh hroom hwatched => exact hrec.keep rfl rfl fun d hd => ⟨d, hd, rfl, rfl, fun m hm => hm⟩
  | missed hh => exact hrec.keep rfl rfl fun d hd => ⟨d, hd, rfl, rfl, fun m hm => hm⟩
  | refound hh hroom hwatched => exact hrec.keep rfl rfl fun d hd => ⟨d, hd, rfl, rfl, fun m hm => hm⟩
  | @created h room_id req hh habandoned =>
    refine hrec.keep rfl rfl fun d hd => ⟨d, hd, rfl, rfl, fun m hm => ?_⟩
    have hlt := hplaced.live d hd
    show m ∈ Room.messages (if d.room = s.db.allocated then _ else _)
    rw [if_neg (by omega)]
    exact hm
  | @subscribe h room_id last_seen b n hh hfirst =>
    have hgrow := hset b (s.db.heap b).addSubscriber (by simp)
    -- the name of the new subscription is in no record
    have hfresh : s.handler h ≠ .finished := by simp [hh]
    constructor
    · intro e he d hd hholder
      rcases List.mem_append.mp hd with hd | hd
      · exact hrec.issued e he d hd hholder
      · rw [List.mem_singleton] at hd
        subst hd
        exact absurd (hnamed.holders e he h hholder) hfresh
    · intro e he d hd haud
      rcases List.mem_append.mp hd with hd | hd
      · exact hgrow d.room e.message (hrec.accepted e he d hd haud)
      · rw [List.mem_singleton] at hd
        subst hd
        exact absurd (hnamed.audience e he h haud) hfresh
  | @leak h room_id last_seen b hh hfirst =>
    exact hrec.keep rfl rfl fun d hd =>
      ⟨d, hd, rfl, rfl, hset b (s.db.heap b).addSubscriber (by simp) d.room⟩
  | @issue h room_id holder b hh =>
    have hgrow := hset b (s.db.heap b).issueUniqueIdx.2 fun m hm => hm
    constructor
    · intro e he d hd hholder
      rcases List.mem_append.mp he with he | he
      · exact hrec.issued e he d hd hholder
      · rw [List.mem_singleton] at he
        subst he
        dsimp only at hholder
        subst hholder
        exact (hatt.issuing h room_id d.id b hh d hd rfl).symm
    · exact fun e he d hd haud => hgrow d.room e.message (hrec.accepted e he d hd haud)
  | @publish h room_id message b hh =>
    have hgrow := hset b ((s.db.heap b).publish message) fun m hm => List.mem_append_left _ hm
    constructor
    · exact hrec.issued
    · intro e he d hd haud
      rcases List.mem_append.mp he with he | he
      · exact hgrow d.room e.message (hrec.accepted e he d hd haud)
      · -- the audience is live under this room id, so its room is the one published to
        rw [List.mem_singleton] at he
        subst he
        obtain ⟨c, hc, hid⟩ := List.mem_map.mp haud
        rw [List.mem_filter, beq_iff_eq] at hc
        obtain rfl := hnamed.eq_of_id hc.1 hd hid
        have hroom := hatt.joining h room_id _ b hh rfl
        have hagree := hatt.agree c hc.1
        rw [hc.2, hroom, Option.some.injEq] at hagree
        subst hagree
        show message ∈ Room.messages ((s.db.setRoom c.room _).heap c.room)
        rw [setRoom_self]
        simp [Room.publish]
  | deliver hfind hget hadd =>
    refine hrec.keep rfl rfl fun d hd => ?_
    obtain ⟨e, he, hid, -, hroom, -⟩ := mem_deliver_frame hd
    exact ⟨e, he, hid, hroom, fun m hm => hm⟩
  | @overflow x c hfind hadd =>
    exact hrec.keep rfl rfl fun d hd => ⟨d, mem_dropClient hd, rfl, rfl,
      hset c.room (s.db.heap c.room).dropSubscriber (by simp) d.room⟩
  | @drop x c hfind =>
    exact hrec.keep rfl rfl fun d hd => ⟨d, mem_dropClient hd, rfl, rfl,
      hset c.room (s.db.heap c.room).dropSubscriber (by simp) d.room⟩

/-! ### Runs -/

structure AgreementInv (s : RoomSystem) : Prop where
  named : Named s
  placed : Placed s
  attached : Attached s
  numbered : Numbered s
  recorded : Recorded s

theorem start_agreementInv : AgreementInv start :=
  ⟨start_named, start_placed, start_attached, start_numbered, start_recorded⟩

theorem step_agreementInv {build : U16.Build} (s : RoomSystem) (a : Action) (t : RoomSystem) (hinv : AgreementInv s)
    (hguard : NoRace s a) (hstep : step build s a = some t) : AgreementInv t where
  named := step_named hinv.named hstep
  placed := step_placed hinv.placed hstep
  attached := step_attached hinv.named hinv.placed hinv.attached hguard hstep
  numbered := step_numbered hinv.placed hinv.numbered hguard hstep
  recorded := step_recorded hinv.named hinv.placed hinv.attached hinv.recorded hstep

theorem AgreementInv.agreement {s : RoomSystem} (hinv : AgreementInv s) : RoomAgreement s := by
  constructor
  · exact hinv.attached.agree
  · exact hinv.recorded.accepted
  · refine hinv.numbered.pairwise.imp_of_mem fun {e f} he hf hne c hc d hd hec hfd hroom_id => hne ?_
    -- both holders live under one room id, so both indices are from the room of the map
    have hagreec := hinv.attached.agree c hc
    have hagreed := hinv.attached.agree d hd
    rw [hroom_id, hagreed, Option.some.injEq] at hagreec
    rw [hinv.recorded.issued e he c hc hec, hinv.recorded.issued f hf d hd hfd, hagreec]

/-- If no room is replaced under a `subscribe` or `broadcast` handler that was given it, and no counter
wraps, then in every state of the run all live subscriptions of a room id are in the room of the map. -/
theorem room_agreement (build : U16.Build) (as : List Action)
    (hguard : Machine.Guarded (step build) NoRace start as) :
    Machine.Always (step build) RoomAgreement start as :=
  (Machine.always_of_guarded step_agreementInv start_agreementInv hguard).mono fun _ hinv => hinv.agreement

/-- Two clients, one after the other. -/
theorem sequential_subscribers_agree :
    Machine.Always (step .release) RoomAgreement start
      [.arrive 0 "r" (.subscribe none), .readLock 0, .writeLock 0, .finish 0,
        .arrive 1 "r" (.subscribe none), .readLock 1, .finish 1] := by
  refine room_agreement .release _ ?_
  refine ⟨trivial, ?_⟩
  rintro _ ⟨⟩
  refine ⟨trivial, ?_⟩
  rintro _ ⟨⟩
  refine ⟨?_, ?_⟩
  · rintro room_id req a - ⟨⟩
  rintro _ ⟨⟩
  refine ⟨⟨?_, ?_⟩, ?_⟩
  · rintro room_id last_seen a ⟨⟩
    decide
  · rintro room_id holder a ⟨⟩
  rintro _ ⟨⟩
  refine ⟨trivial, ?_⟩
  rintro _ ⟨⟩
  refine ⟨trivial, ?_⟩
  rintro _ ⟨⟩
  refine ⟨⟨?_, ?_⟩, ?_⟩
  · rintro room_id last_seen a ⟨⟩
    decide
  · rintro room_id holder a ⟨⟩
  exact fun _ _ => trivial

/-- Two handlers that both create the room before either registers: the second replaces the room the
first goes on to subscribe to. -/
theorem two_subscribers_two_rooms :
    ¬ ∀ (build : U16.Build) (as : List Action) (s : RoomSystem),
      Machine.exec (step build) start as = some s → RoomAgreement s := by
  intro h
  have hagree := h .release
    [.arrive 0 "r" (.subscribe none), .arrive 1 "r" (.subscribe none), .readLock 0, .readLock 1,
      .writeLock 0, .writeLock 1, .finish 0, .finish 1] _ rfl
  have hroom := hagree.one_room ⟨0, "r", 0, 0, 0, 0, []⟩ (by decide)
  revert hroom
  decide

end RoomSystem

end Gg20
