import MultiPartyTss.Lib.Log
import MultiPartyTss.Gg20.RoomSystem

/-!
# Resuming after the last event seen

The `subscribe` route hands the `Last-Event-ID` header to the room as the place to go on from. What a
resumed subscription ought to get is every message published while it is live. `resumes_iff_noSkip` says
exactly when it does: the room that `subscribe` is given must hold an event with that id, and a room that
somebody listens to must not outgrow the 16-bit event ids. `stale_id_skips` is an honest client that breaks
the first condition: it leaves as the last subscriber, and its room is replaced by an empty one.
-/

namespace Gg20

/-! ### The header -/

namespace LastEventId

/-- `str::parse::<u16>`: an optional `+`, then decimal digits. -/
def parseU16 (s : String) : Option Nat :=
  let digits := match s.toList with
    | '+' :: rest => rest
    | cs => cs
  if digits.isEmpty || !digits.all Char.isDigit then none
  else
    let n := digits.foldl (fun acc c => acc * 10 + (c.toNat - '0'.toNat)) 0
    if n < U16.size then some n else none

inductive Outcome where
  | success (last_seen_msg : Option Nat)
  | failure (status : Nat) (error : String)
  deriving DecidableEq, Repr

def fromRequest (header : Option String) : Outcome :=
  match header.map parseU16 with
  | some (some last_seen_msg) => .success (some last_seen_msg)
  | some none => .failure 400 "last seen msg id is not valid"
  | none => .success none

theorem parseU16_lt {s : String} {n : Nat} (h : parseU16 s = some n) : n < U16.size := by
  unfold parseU16 at h
  dsimp only at h
  split_ifs at h with hdigits hlt
  cases h
  exact hlt

end LastEventId

namespace RoomSystem

/-- What happens at the server: a request on the `subscribe` route with its header, or another move. -/
inductive Call where
  | subscribe (h : Nat) (room_id : String) (header : Option String)
  | server (a : Action)

def serve (build : U16.Build) (s : RoomSystem) : Call → Option RoomSystem
  | .subscribe h room_id header =>
    match LastEventId.fromRequest header with
    | .success last_seen => step build s (.arrive h room_id (.subscribe last_seen))
    -- the request guard answers, and the handler does not run
    | .failure _ _ => some s
  | .server (.arrive _ _ (.subscribe _)) => none
  | .server a => step build s a

/-- Of the messages of its room that were published while `c` was live, none is missing in `returned`. -/
def Complete (messages : List String) (c : Client) (returned : List (Nat × String)) : Prop :=
  ∀ i message, c.opened ≤ i → messages[i]? = some message → (i, message) ∈ returned

/-- No cursor is past the history, and a subscription that goes on calling `next` is given every message
published while it was live. -/
structure Resumes (build : U16.Build) (s : RoomSystem) : Prop where
  behind : ∀ c ∈ s.live, c.next_event ≤ (s.db.heap c.room).messages.length
  delivered : ∀ c ∈ s.live, ∃ k t d,
    Machine.exec (serve build) s (List.replicate k (.server (.next c.id))) = some t ∧
      d ∈ t.live ∧ d.id = c.id ∧ Complete (s.db.heap c.room).messages c d.returned

/-- How many events one subscription can return before its cursor overflows. -/
def eventIds : U16.Build → Nat
  | .debug => U16.size - 1
  | .release => U16.size

/-- A resumed subscription goes on from an event of the room it is given, and what is published to a
listener still has an event id. At the last `u16` the cursor panics or starts again from 0. -/
def NoSkip (build : U16.Build) (s : RoomSystem) : Call → Prop
  | .server (.finish h) =>
    (∀ room_id k a, s.handler h = .holding room_id (.subscribe (some k)) a →
      k < (s.db.heap a).messages.length ∨ U16.size ≤ k + 1) ∧
    (∀ room_id message a, s.handler h = .holding room_id (.broadcast message) a →
      (∃ c ∈ s.live, c.room = a) → (s.db.heap a).messages.length < eventIds build)
  | _ => True

theorem eventIds_le (build : U16.Build) : eventIds build ≤ U16.size := by
  cases build <;> simp [eventIds]

theorem addOne_lt_eventIds {build : U16.Build} {x n : Nat} (hx : x < U16.size)
    (h : U16.addOne build x = some n) : x < eventIds build ∧ n < U16.size := by
  rcases U16.addOne_cases h with ⟨rfl, hlt⟩ | ⟨rfl, hle⟩
  · cases build <;> simp only [eventIds, U16.size] at * <;> omega
  · cases build with
    | debug =>
      rw [U16.addOne, if_neg (by omega)] at h
      cases h
    | release => exact ⟨hx, by decide⟩

theorem exists_addOne {build : U16.Build} {x : Nat} (hx : x < eventIds build) :
    ∃ n, U16.addOne build x = some n := by
  cases build with
  | debug => exact ⟨x + 1, U16.addOne_of_lt (by simp only [eventIds, U16.size] at *; omega)⟩
  | release =>
    unfold U16.addOne
    split_ifs
    · exact ⟨_, rfl⟩
    · exact ⟨_, rfl⟩

/-! ### What every run keeps of a cursor -/

/-- Cursors are 16-bit, returned ids are event ids, and the history does not shrink. -/
structure Fits (build : U16.Build) (messages : List String) (c : Client) : Prop where
  small : c.next_event < U16.size
  opened : c.opened ≤ messages.length
  ids : ∀ e ∈ c.returned, e.1 < eventIds build

theorem firstEvent_lt {build : U16.Build} {last_seen : Option Nat} {n : Nat}
    (h : firstEvent build last_seen = some n) : n < U16.size := by
  cases last_seen with
  | none =>
    cases h
    decide
  | some k =>
    rcases U16.addOne_cases h with ⟨rfl, hlt⟩ | ⟨rfl, -⟩
    · exact hlt
    · decide

structure Base (build : U16.Build) (s : RoomSystem) : Prop where
  named : Named s
  placed : Placed s
  fits : ∀ c ∈ s.live, Fits build (s.db.heap c.room).messages c

theorem step_base {build : U16.Build} {s t : RoomSystem} {a : Action} (hbase : Base build s)
    (hstep : step build s a = some t) : Base build t where
  named := step_named hbase.named hstep
  placed := step_placed hbase.placed hstep
  fits := by
    refine step_live hbase.named hbase.placed hbase.fits ?_ ?_ ?_ hstep
    · rintro h room_id last_seen b n - - hfirst
      refine ⟨firstEvent_lt hfirst, Nat.le_refl _, ?_⟩
      intro e he
      cases he
    · rintro h room_id message b - - c hc - hfits
      refine ⟨hfits.small, ?_, hfits.ids⟩
      rw [List.length_append]
      exact Nat.le_add_right_of_le hfits.opened
    · intro c hc message n hget hadd hfits
      obtain ⟨hlt, hn⟩ := addOne_lt_eventIds hfits.small hadd
      refine ⟨hn, hfits.opened, fun e he => ?_⟩
      rcases List.mem_append.mp he with he | he
      · exact hfits.ids e he
      · rw [List.mem_singleton] at he
        subst he
        exact hlt

theorem serve_spec {build : U16.Build} {s t : RoomSystem} {call : Call}
    (h : serve build s call = some t) :
    (∃ h' room_id header, call = .subscribe h' room_id header ∧
        (t = s ∨ ∃ last_seen, step build s (.arrive h' room_id (.subscribe last_seen)) = some t)) ∨
      ∃ a, call = .server a ∧ step build s a = some t := by
  cases call with
  | subscribe h' room_id header =>
    cases hreq : LastEventId.fromRequest header with
    | success last_seen =>
      simp only [serve, hreq] at h
      exact Or.inl ⟨h', room_id, header, rfl, Or.inr ⟨last_seen, h⟩⟩
    | failure status error =>
      simp only [serve, hreq, Option.some.injEq] at h
      exact Or.inl ⟨h', room_id, header, rfl, Or.inl h.symm⟩
  | server a =>
    refine Or.inr ⟨a, rfl, ?_⟩
    unfold serve at h
    split at h
    · rename_i heq
      cases heq
    · cases h
    · rename_i heq
      cases heq
      exact h

theorem serve_base {build : U16.Build} {s t : RoomSystem} {call : Call} (hbase : Base build s)
    (h : serve build s call = some t) : Base build t := by
  rcases serve_spec h with ⟨h', room_id, header, -, rfl | ⟨last_seen, hstep⟩⟩ | ⟨a, -, hstep⟩
  · exact hbase
  · exact step_base hbase hstep
  · exact step_base hbase hstep

/-! ### What a guarded run keeps of a cursor -/

/-- The subscription has received a window of the history, and its cursor stands at the end of the window
until the window reaches the last `u16`. -/
structure InOrder (messages : List String) (c : Client) : Prop where
  started : c.start ≤ c.opened
  received : Log.Received messages c.start c.returned
  position : c.start + c.returned.length < U16.size → c.next_event = c.start + c.returned.length

/-- A cursor is inside the history. Until all event ids are used up it is in order; after that, whatever
was published to the subscription has been returned. -/
def Cursor (build : U16.Build) (messages : List String) (c : Client) : Prop :=
  c.next_event ≤ messages.length ∧
    (InOrder messages c ∧ (messages.length ≤ eventIds build ∨ c.opened = messages.length) ∨
      Complete messages c c.returned ∧ eventIds build ≤ messages.length)

theorem complete_of_opened {messages : List String} {c : Client} (h : c.opened = messages.length)
    (returned : List (Nat × String)) : Complete messages c returned := by
  intro i message hi hget
  have hlt := (List.getElem?_eq_some_iff.mp hget).1
  omega

theorem InOrder.complete {messages : List String} {c : Client} (h : InOrder messages c)
    (hall : messages.length ≤ c.start + c.returned.length) : Complete messages c c.returned := by
  intro i message hi hget
  have hlt := (List.getElem?_eq_some_iff.mp hget).1
  have hstarted := h.started
  obtain ⟨m, hm, hreturned⟩ := h.received.getElem? (i := i - c.start) (by omega)
  rw [show c.start + (i - c.start) = i by omega] at hm hreturned
  rw [hget, Option.some.injEq] at hm
  subst hm
  exact List.mem_of_getElem? hreturned

theorem cursor_open {build : U16.Build} {messages : List String} {h n b : Nat} {room_id : String}
    (hn : n ≤ messages.length) : Cursor build messages ⟨h, room_id, b, n, n, messages.length, []⟩ :=
  ⟨hn, Or.inl ⟨⟨hn, Log.received_nil messages n, fun _ => rfl⟩, Or.inr rfl⟩⟩

theorem Cursor.publish {build : U16.Build} {messages : List String} {c : Client} {message : String}
    (h : Cursor build messages c) (hlt : messages.length < eventIds build) :
    Cursor build (messages ++ [message]) c := by
  obtain ⟨hbehind, ⟨horder, -⟩ | ⟨-, hfull⟩⟩ := h
  · refine ⟨?_, Or.inl ⟨⟨horder.started, horder.received.append [message], horder.position⟩, Or.inl ?_⟩⟩
    · rw [List.length_append]
      exact Nat.le_add_right_of_le hbehind
    · rw [List.length_append]
      exact hlt
  · omega

theorem Cursor.deliver {build : U16.Build} {messages : List String} {c : Client} {message : String}
    {n : Nat} (h : Cursor build messages c) (hfits : Fits build messages c)
    (hget : messages[c.next_event]? = some message) (hadd : U16.addOne build c.next_event = some n) :
    Cursor build messages
      { c with next_event := n, returned := c.returned ++ [(c.next_event, message)] } := by
  have hlt := (List.getElem?_eq_some_iff.mp hget).1
  have hcases := U16.addOne_cases hadd
  refine ⟨show n ≤ _ by omega, ?_⟩
  obtain ⟨-, ⟨horder, hroom⟩ | ⟨hall, hfull⟩⟩ := h
  · by_cases hend : c.start + c.returned.length < U16.size
    · -- the next event in order
      have hpos := horder.position hend
      refine Or.inl ⟨⟨horder.started, ?_, ?_⟩, hroom⟩
      · rw [hpos] at hget ⊢
        exact horder.received.concat hget
      · intro hnext
        rw [List.length_append, List.length_singleton] at hnext ⊢
        dsimp only at hnext ⊢
        omega
    · -- the cursor has wrapped: all of the history was returned before
      have hstarted := horder.started
      have hopened := hfits.opened
      have hinside := horder.received.inside
      have hids := eventIds_le build
      refine Or.inr ⟨?_, by omega⟩
      rcases hroom with hroom | hroom
      · intro i m hi hm
        exact List.mem_append_left _ (horder.complete (by omega) i m hi hm)
      · exact complete_of_opened hroom _
  · exact Or.inr ⟨fun i m hi hm => List.mem_append_left _ (hall i m hi hm), hfull⟩

structure ResumeInv (build : U16.Build) (s : RoomSystem) : Prop extends Base build s where
  cursor : ∀ c ∈ s.live, Cursor build (s.db.heap c.room).messages c

theorem start_resumeInv (build : U16.Build) : ResumeInv build start where
  named := start_named
  placed := start_placed
  fits := by
    intro c hc
    cases hc
  cursor := by
    intro c hc
    cases hc

theorem step_resumeInv {build : U16.Build} {s t : RoomSystem} {a : Action} (hinv : ResumeInv build s)
    (hguard : NoSkip build s (.server a)) (hstep : step build s a = some t) : ResumeInv build t where
  toBase := step_base hinv.toBase hstep
  cursor := by
    refine step_live hinv.named hinv.placed hinv.cursor ?_ ?_ ?_ hstep
    · rintro h room_id last_seen b n rfl hh hfirst
      refine cursor_open ?_
      cases last_seen with
      | none =>
        cases hfirst
        exact Nat.zero_le _
      | some k =>
        have hk := hguard.1 room_id k b hh
        rcases U16.addOne_cases hfirst with ⟨rfl, hlt⟩ | ⟨rfl, -⟩
        · omega
        · exact Nat.zero_le _
    · rintro h room_id message b rfl hh c hc rfl hcursor
      exact hcursor.publish (hguard.2 room_id message c.room hh ⟨c, hc, rfl⟩)
    · rintro c hc message n hget hadd hcursor
      exact hcursor.deliver (hinv.fits c hc) hget hadd

theorem serve_resumeInv {build : U16.Build} (s : RoomSystem) (call : Call) (t : RoomSystem)
    (hinv : ResumeInv build s) (hguard : NoSkip build s call) (h : serve build s call = some t) :
    ResumeInv build t := by
  rcases serve_spec h with ⟨h', room_id, header, -, rfl | ⟨last_seen, hstep⟩⟩ | ⟨a, rfl, hstep⟩
  · exact hinv
  · exact step_resumeInv hinv
      (show NoSkip build s (.server (.arrive h' room_id (.subscribe last_seen))) from trivial) hstep
  · exact step_resumeInv hinv hguard hstep

/-! ### Draining a subscription -/

theorem Named.find {s : RoomSystem} (hnamed : Named s) {c : Client} (hc : c ∈ s.live) :
    s.find c.id = some c := by
  cases hfind : s.find c.id with
  | none =>
    have hnone := List.find?_eq_none.mp hfind c hc
    simp at hnone
  | some d =>
    obtain ⟨hd, hid⟩ := find_mem hfind
    rw [hnamed.eq_of_id hd hc hid]

/-- An in-order subscription that calls `next` once for each event left has been given all of them. -/
theorem drain {build : U16.Build} {s : RoomSystem} {c : Client} (k : Nat) (hbase : Base build s)
    (hc : c ∈ s.live) (horder : InOrder (s.db.heap c.room).messages c)
    (hids : (s.db.heap c.room).messages.length ≤ eventIds build)
    (hk : c.start + c.returned.length + k = (s.db.heap c.room).messages.length) :
    ∃ t d, Machine.exec (serve build) s (List.replicate k (.server (.next c.id))) = some t ∧
      d ∈ t.live ∧ d.id = c.id ∧ Complete (s.db.heap c.room).messages c d.returned := by
  induction k generalizing s c with
  | zero => exact ⟨s, c, rfl, hc, rfl, horder.complete (by omega)⟩
  | succ k ih =>
    have hle := eventIds_le build
    have hpos := horder.position (by omega)
    obtain ⟨message, hget⟩ : ∃ message, (s.db.heap c.room).messages[c.next_event]? = some message :=
      ⟨_, List.getElem?_eq_getElem (show c.next_event < _ by omega)⟩
    obtain ⟨n, hadd⟩ := exists_addOne (show c.next_event < eventIds build by omega)
    have hserve : serve build s (.server (.next c.id)) =
        some (s.deliver c c.next_event message n) := by
      simp [serve, step, hbase.named.find hc, look, hget, hadd]
    have hbase' := serve_base hbase hserve
    have hcases := U16.addOne_cases hadd
    -- one delivery leaves the subscription in order, with one event less ahead of it
    obtain ⟨t, d, hexec, hd, hid, hall⟩ := ih (s := s.deliver c c.next_event message n)
      (c := { c with next_event := n, returned := c.returned ++ [(c.next_event, message)] }) hbase'
      (List.mem_map.mpr ⟨c, hc, if_pos rfl⟩)
      ⟨horder.started, by
          rw [hpos] at hget ⊢
          exact horder.received.concat hget, by
          intro hnext
          rw [List.length_append, List.length_singleton] at hnext ⊢
          dsimp only at hnext ⊢
          omega⟩
      hids (by
        rw [List.length_append, List.length_singleton]
        show c.start + (c.returned.length + 1) + k = (s.db.heap c.room).messages.length
        omega)
    refine ⟨t, d, ?_, hd, hid, hall⟩
    rw [List.replicate_succ, Machine.exec_cons, hserve, Option.bind_some]
    exact hexec

theorem ResumeInv.resumes {build : U16.Build} {s : RoomSystem} (hinv : ResumeInv build s) : Resumes build s := by
  refine ⟨fun c hc => (hinv.cursor c hc).1, fun c hc => ?_⟩
  obtain ⟨-, ⟨horder, hids | hopened⟩ | ⟨hall, -⟩⟩ := hinv.cursor c hc
  · by_cases hleft : c.start + c.returned.length ≤ (s.db.heap c.room).messages.length
    · obtain ⟨t, d, hdrain⟩ := drain ((s.db.heap c.room).messages.length - (c.start + c.returned.length))
        hinv.toBase hc horder hids (by omega)
      exact ⟨_, t, d, hdrain⟩
    · exact ⟨0, s, c, rfl, hc, rfl, horder.complete (by omega)⟩
  · exact ⟨0, s, c, rfl, hc, rfl, complete_of_opened hopened _⟩
  · exact ⟨0, s, c, rfl, hc, rfl, hall⟩

/-! ### The condition is exact -/

/-- A subscription opened past the end of the history, or a message published to a listener that has no
event id left, is a message skipped. -/
theorem skip_not_resumes {build : U16.Build} (s : RoomSystem) (call : Call) (t : RoomSystem)
    (hinv : ResumeInv build s) (hguard : ¬ NoSkip build s call) (h : serve build s call = some t) :
    ¬ Resumes build t := by
  intro hresumes
  have hbase := serve_base hinv.toBase h
  rcases serve_spec h with ⟨h', room_id, header, rfl, -⟩ | ⟨a, rfl, hstep⟩
  · exact hguard trivial
  have hspec := step_spec hstep
  cases hspec with
  | @subscribe h' room_id last_seen b n hh hfirst =>
    refine hguard ⟨fun room_id' k b' hh' => ?_, fun room_id' message b' hh' => ?_⟩
    · rw [hh, Handler.holding.injEq, Request.subscribe.injEq] at hh'
      obtain ⟨rfl, rfl, rfl⟩ := hh'
      by_contra hout
      have hn : n = k + 1 := by
        have hcases := U16.addOne_cases (show U16.addOne build k = some n from hfirst)
        omega
      have hbehind := hresumes.behind ⟨h', room_id, b, n, n, (s.db.heap b).messages.length, []⟩
        (List.mem_append_right _ (List.mem_singleton_self _))
      change n ≤ ((s.db.setRoom b _).heap b).messages.length at hbehind
      rw [setRoom_self, Room.addSubscriber_messages] at hbehind
      omega
    · rw [hh] at hh'
      cases hh'
  | @leak h' room_id last_seen b hh hfirst =>
    refine hguard ⟨fun room_id' k b' hh' => ?_, fun room_id' message b' hh' => ?_⟩
    · rw [hh, Handler.holding.injEq, Request.subscribe.injEq] at hh'
      obtain ⟨rfl, rfl, rfl⟩ := hh'
      right
      by_contra hlt
      rw [firstEvent, U16.addOne_of_lt (Nat.not_le.mp hlt)] at hfirst
      cases hfirst
    · rw [hh] at hh'
      cases hh'
  | @issue h' room_id holder b hh =>
    refine hguard ⟨fun room_id' k b' hh' => ?_, fun room_id' message b' hh' => ?_⟩
    · rw [hh] at hh'
      cases hh'
    · rw [hh] at hh'
      cases hh'
  | @publish h' room_id message b hh =>
    refine hguard ⟨fun room_id' k b' hh' => ?_, fun room_id' message' b' hh' => ?_⟩
    · rw [hh] at hh'
      cases hh'
    rw [hh, Handler.holding.injEq, Request.broadcast.injEq] at hh'
    obtain ⟨rfl, rfl, rfl⟩ := hh'
    rintro ⟨c, hc, rfl⟩
    by_contra hfull
    obtain ⟨k, u, d, hexec, hd, -, hall⟩ := hresumes.delivered c hc
    -- the new message would have to be returned under an id that no event has
    have hget : ((s.publishTo h' room_id c.room message).db.heap c.room).messages[
        (s.db.heap c.room).messages.length]? = some message := by
      show ((s.db.setRoom c.room _).heap c.room).messages[_]? = _
      rw [setRoom_self]
      simp [Room.publish]
    have hbase' := Machine.exec_invariant (fun _ _ _ => serve_base) hbase hexec
    exact hfull ((hbase'.fits d hd).ids _ (hall _ message (hinv.fits c hc).opened hget))
  | arrive hh hlive => exact hguard trivial
  | found hh hroom hwatched => exact hguard trivial
  | missed hh => exact hguard trivial
  | refound hh hroom hwatched => exact hguard trivial
  | created hh habandoned => exact hguard trivial
  | deliver hfind hget hadd => exact hguard trivial
  | overflow hfind hadd => exact hguard trivial
  | drop hfind => exact hguard trivial

/-- Throughout a run, every subscription is inside the history of its room and gets every message published
while it is live, exactly if each one goes on from an event its room holds and no room with a listener
outgrows the event ids. -/
theorem resumes_iff_noSkip (build : U16.Build) (calls : List Call) (s : RoomSystem)
    (hrun : Machine.exec (serve build) start calls = some s) :
    Machine.Always (serve build) (Resumes build) start calls ↔
      Machine.Guarded (serve build) (NoSkip build) start calls :=
  Machine.guarded_iff_always serve_resumeInv (fun _ hinv => hinv.resumes) skip_not_resumes
    (start_resumeInv build) hrun

/-- A subscriber of a watched room that reconnects after event 0 while another one stays. -/
theorem watched_room_resumes :
    Machine.Always (serve .release) (Resumes .release) start
      [.subscribe 0 "r" none, .server (.readLock 0), .server (.writeLock 0), .server (.finish 0),
        .server (.arrive 1 "r" (.broadcast "m0")), .server (.readLock 1), .server (.finish 1),
        .subscribe 2 "r" (some "0"), .server (.readLock 2), .server (.finish 2)] := by
  refine (resumes_iff_noSkip .release _ _ rfl).mpr ?_
  refine ⟨trivial, ?_⟩
  rintro _ ⟨⟩
  refine ⟨trivial, ?_⟩
  rintro _ ⟨⟩
  refine ⟨trivial, ?_⟩
  rintro _ ⟨⟩
  refine ⟨⟨?_, ?_⟩, ?_⟩
  · rintro room_id k a ⟨⟩
  · rintro room_id message a ⟨⟩
  rintro _ ⟨⟩
  refine ⟨trivial, ?_⟩
  rintro _ ⟨⟩
  refine ⟨trivial, ?_⟩
  rintro _ ⟨⟩
  refine ⟨⟨?_, ?_⟩, ?_⟩
  · rintro room_id k a ⟨⟩
  · rintro room_id message a ⟨⟩ -
    decide
  rintro _ ⟨⟩
  refine ⟨trivial, ?_⟩
  rintro _ ⟨⟩
  refine ⟨trivial, ?_⟩
  rintro _ ⟨⟩
  refine ⟨⟨?_, ?_⟩, fun _ _ => trivial⟩
  · rintro room_id k a ⟨⟩
    left
    decide
  · rintro room_id message a ⟨⟩

/-- A client sees event 0, disconnects as the last subscriber and reconnects with `Last-Event-ID: 0`: its
room has been replaced by an empty one, and its cursor stands at 1. -/
theorem stale_id_skips :
    ¬ ∀ (build : U16.Build) (calls : List Call) (s : RoomSystem),
      Machine.exec (serve build) start calls = some s → Resumes build s := by
  intro h
  have hresumes := h .release
    [.subscribe 0 "r" none, .server (.readLock 0), .server (.writeLock 0), .server (.finish 0),
      .server (.arrive 1 "r" (.broadcast "m0")), .server (.readLock 1), .server (.finish 1),
      .server (.next 0), .server (.drop 0),
      .subscribe 2 "r" (some "0"), .server (.readLock 2), .server (.writeLock 2), .server (.finish 2)] _ rfl
  have hbehind := hresumes.behind ⟨2, "r", 1, 1, 1, 0, []⟩ (by decide)
  revert hbehind
  decide

end RoomSystem

end Gg20
