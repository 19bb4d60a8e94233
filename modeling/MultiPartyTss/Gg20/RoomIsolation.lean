import Mathlib.Data.List.Forall2
import MultiPartyTss.Lib.Unwinding
import MultiPartyTss.Gg20.RoomSystem

/-!
# Rooms do not interfere

All rooms share one map, one lock and one heap. For any set of room ids, what the requests and subscriptions
under these ids see (the indices issued and the messages returned) is what they see on a server of their
own, where nothing else happens, and there their rooms hold the same messages and counters and they are in the
same states (`rooms_isolated`). The two servers differ in the addresses of their rooms: the room that is created
`a`-th under the own ids has address `a` on a server of its own (`Seen`).
-/

namespace Gg20

namespace RoomSystem

open Machine

/-- What a step returns to a client. -/
inductive Reply where
  | nothing
  | index (idx : Nat)
  | event (id : Nat) (message : String)
  deriving DecidableEq, Repr

def reply (build : U16.Build) (s : RoomSystem) : Action → Reply
  | .finish h =>
    match s.handler h with
    | .holding _ (.issueIdx _) a => .index (s.db.heap a).issueUniqueIdx.1
    | _ => .nothing
  | .next x =>
    match s.find x with
    | some c =>
      match look build (s.db.heap c.room).messages c.next_event with
      | .event id message _ => .event id message
      | _ => .nothing
    | none => .nothing
  | _ => .nothing

/-- The room id that a step is about. -/
def roomId (s : RoomSystem) : Action → Option String
  | .arrive _ room_id _ => some room_id
  | .readLock h | .writeLock h | .finish h => (s.handler h).request.map Prod.fst
  | .next x | .drop x => (s.find x).map Client.room_id

section Isolation

variable (own : String → Bool)

def owns (s : RoomSystem) (a : Action) : Bool := (s.roomId a).any own

/-! ### The relation -/

/-- A handler on the shared server, and what it is on the own one; `addrs` are the addresses on the shared
server. -/
inductive HandlerSeen (addrs : List Nat) : Handler → Handler → Prop where
  | absent : HandlerSeen addrs .absent .absent
  | looking {room_id req} : own room_id = true →
      HandlerSeen addrs (.looking room_id req) (.looking room_id req)
  | creating {room_id req} : own room_id = true →
      HandlerSeen addrs (.creating room_id req) (.creating room_id req)
  | holding {room_id req a b} : own room_id = true → addrs[a]? = some b →
      HandlerSeen addrs (.holding room_id req b) (.holding room_id req a)
  | finished : HandlerSeen addrs .finished .finished
  | other {handler room_id req} : handler.request = some (room_id, req) → own room_id = false →
      HandlerSeen addrs handler .absent
  | otherFinished : HandlerSeen addrs .finished .absent

/-- A subscription, with its room at another address. -/
structure ClientSeen (addrs : List Nat) (c d : Client) : Prop where
  room : addrs[d.room]? = some c.room
  same : c = { d with room := c.room }

/-- Something under another id uses this address. -/
inductive Elsewhere (s : RoomSystem) (b : Nat) : Prop where
  | mapped (room_id : String) : own room_id = false → s.db.rooms room_id = some b → Elsewhere s b
  | held (h : Nat) (room_id : String) (req : Request) : own room_id = false →
      s.handler h = .holding room_id req b → Elsewhere s b
  | live (c : Client) : c ∈ s.live → own c.room_id = false → c.room = b → Elsewhere s b

/-- The shared server and the own one. -/
structure Seen (addrs : List Nat) (s t : RoomSystem) : Prop where
  named : Named s
  placed : Placed s
  placed' : Placed t
  length : t.db.allocated = addrs.length
  nodup : addrs.Nodup
  allocated : ∀ b ∈ addrs, b < s.db.allocated
  heap : ∀ a b, addrs[a]? = some b → s.db.heap b = t.db.heap a
  rooms : ∀ room_id, own room_id = true → s.db.rooms room_id = (t.db.rooms room_id).bind fun a => addrs[a]?
  handler : ∀ h, HandlerSeen own addrs (s.handler h) (t.handler h)
  live : List.Forall₂ (ClientSeen addrs) (s.live.filter fun c => own c.room_id) t.live
  apart : ∀ b, Elsewhere own s b → b ∉ addrs

theorem start_seen : Seen own [] start start := by
  refine ⟨start_named, start_placed, start_placed, rfl, List.nodup_nil, ?_, ?_, ?_, ?_, ?_, ?_⟩
  · intro b hb
    cases hb
  · intro a b hb
    rw [List.getElem?_nil] at hb
    cases hb
  · exact fun _ _ => rfl
  · exact fun h => .absent
  · exact List.Forall₂.nil
  · intro b _ hb
    cases hb

variable {own} {addrs : List Nat} {s t : RoomSystem}

theorem getElem?_append_of_some {α : Type} {xs ys : List α} {i : Nat} {x : α} (h : xs[i]? = some x) :
    (xs ++ ys)[i]? = some x :=
  (List.getElem?_append_left (List.getElem?_eq_some_iff.mp h).1).trans h

/-- What is found in one of two lists that correspond is found in the other. -/
theorem find?_of_forall₂ {α β : Type} {R : α → β → Prop} {p : α → Bool} {q : β → Bool}
    (hpq : ∀ a b, R a b → p a = q b) {xs : List α} {ys : List β} (h : List.Forall₂ R xs ys) {a : α}
    (ha : xs.find? p = some a) : ∃ b, ys.find? q = some b ∧ R a b := by
  induction h with
  | nil => cases ha
  | @cons x y xs ys hxy _ ih =>
    cases hx : p x with
    | true =>
      rw [List.find?_cons_of_pos hx] at ha
      obtain rfl := Option.some.inj ha
      exact ⟨y, List.find?_cons_of_pos (by rw [← hpq x y hxy, hx]), hxy⟩
    | false =>
      rw [List.find?_cons_of_neg (by simp [hx])] at ha
      obtain ⟨b, hb, hab⟩ := ih ha
      exact ⟨b, (List.find?_cons_of_neg (by rw [← hpq x y hxy, hx]; simp)).trans hb, hab⟩

theorem filter_eraseP {α : Type} {p q : α → Bool} {xs : List α} (hpq : ∀ x ∈ xs, p x = true → q x = false) :
    (xs.eraseP p).filter q = xs.filter q := by
  induction xs with
  | nil => rfl
  | cons x xs ih =>
    cases hx : p x with
    | true =>
      rw [List.eraseP_cons_of_pos hx,
        List.filter_cons_of_neg (by rw [hpq x List.mem_cons_self hx]; exact Bool.false_ne_true)]
    | false =>
      rw [List.eraseP_cons_of_neg (by simp [hx]), List.filter_cons, List.filter_cons,
        ih fun y hy => hpq y (List.mem_cons_of_mem x hy)]

theorem filter_eraseP_comm {α : Type} {p q : α → Bool} {xs : List α}
    (hpq : ∀ x ∈ xs, p x = true → q x = true) : (xs.eraseP p).filter q = (xs.filter q).eraseP p := by
  induction xs with
  | nil => rfl
  | cons x xs ih =>
    have ih := ih fun y hy => hpq y (List.mem_cons_of_mem x hy)
    cases hx : p x with
    | true =>
      have hq := hpq x List.mem_cons_self hx
      rw [List.eraseP_cons_of_pos hx, List.filter_cons_of_pos hq, List.eraseP_cons_of_pos hx]
    | false =>
      rw [List.eraseP_cons_of_neg (by simp [hx]), List.filter_cons, List.filter_cons]
      split_ifs
      · rw [List.eraseP_cons_of_neg (by simp [hx]), ih]
      · exact ih

theorem forall₂_eraseP {α β : Type} {R : α → β → Prop} {p : α → Bool} {q : β → Bool}
    (hpq : ∀ a b, R a b → p a = q b) {xs : List α} {ys : List β} (h : List.Forall₂ R xs ys) :
    List.Forall₂ R (xs.eraseP p) (ys.eraseP q) := by
  induction h with
  | nil => exact List.Forall₂.nil
  | @cons x y xs ys hxy hrest ih =>
    cases hx : p x with
    | true =>
      rw [List.eraseP_cons_of_pos hx, List.eraseP_cons_of_pos (by rw [← hpq x y hxy, hx])]
      exact hrest
    | false =>
      rw [List.eraseP_cons_of_neg (by simp [hx]),
        List.eraseP_cons_of_neg (by rw [← hpq x y hxy, hx]; exact Bool.false_ne_true)]
      exact List.Forall₂.cons hxy ih

/-- The own subscriptions after a delivery. -/
theorem filter_deliver (s : RoomSystem) (c : Client) (id n : Nat) (message : String) :
    ((s.deliver c id message n).live.filter fun d => own d.room_id) =
      (s.live.filter fun d => own d.room_id).map fun d =>
        if d.id = c.id then { d with next_event := n, returned := d.returned ++ [(id, message)] } else d := by
  rw [RoomSystem.deliver, List.filter_map]
  refine congrArg _ (List.filter_congr fun d _ => ?_)
  rw [Function.comp_apply]
  split <;> rfl

/-- Among subscriptions with different names, each is found by its name. -/
theorem find?_of_nodup {cs : List Client} (hnodup : (cs.map Client.id).Nodup) {c : Client} (hc : c ∈ cs) :
    (cs.find? fun d => d.id == c.id) = some c := by
  have hsome : (cs.find? fun d => d.id == c.id).isSome := by
    rw [List.find?_isSome]
    exact ⟨c, hc, beq_self_eq_true _⟩
  obtain ⟨d, hd⟩ := Option.isSome_iff_exists.mp hsome
  have hid := List.find?_some hd
  rw [beq_iff_eq] at hid
  rw [hd, List.inj_on_of_nodup_map hnodup (List.mem_of_find?_eq_some hd) hc hid]

theorem ClientSeen.id_eq {c d : Client} (h : ClientSeen addrs c d) : c.id = d.id := by
  rw [h.same]

theorem ClientSeen.append {c d : Client} (h : ClientSeen addrs c d) (b : Nat) :
    ClientSeen (addrs ++ [b]) c d := ⟨getElem?_append_of_some h.room, h.same⟩

theorem HandlerSeen.of_other {handler handler' : Handler} {room_id : String} {req : Request}
    (h : HandlerSeen own addrs handler handler') (hreq : handler.request = some (room_id, req))
    (hown : own room_id = false) : handler' = .absent := by
  cases h with
  | absent => rfl
  | looking hroom | creating hroom =>
    cases hreq
    rw [hroom] at hown
    cases hown
  | holding hroom =>
    cases hreq
    rw [hroom] at hown
    cases hown
  | finished => cases hreq
  | other => rfl
  | otherFinished => rfl

theorem HandlerSeen.of_looking {handler' : Handler} {room_id : String} {req : Request}
    (h : HandlerSeen own addrs (.looking room_id req) handler') (hown : own room_id = true) :
    handler' = .looking room_id req := by
  cases h with
  | looking => rfl
  | other hreq hroom =>
    cases hreq
    rw [hown] at hroom
    cases hroom

theorem HandlerSeen.of_creating {handler' : Handler} {room_id : String} {req : Request}
    (h : HandlerSeen own addrs (.creating room_id req) handler') (hown : own room_id = true) :
    handler' = .creating room_id req := by
  cases h with
  | creating => rfl
  | other hreq hroom =>
    cases hreq
    rw [hown] at hroom
    cases hroom

theorem HandlerSeen.of_holding {handler' : Handler} {room_id : String} {req : Request} {b : Nat}
    (h : HandlerSeen own addrs (.holding room_id req b) handler') (hown : own room_id = true) :
    ∃ a, addrs[a]? = some b ∧ handler' = .holding room_id req a := by
  cases h with
  | holding _ hb => exact ⟨_, hb, rfl⟩
  | other hreq hroom =>
    cases hreq
    rw [hown] at hroom
    cases hroom

theorem HandlerSeen.of_absent {handler handler' : Handler} (h : HandlerSeen own addrs handler handler')
    (habsent : handler = .absent) : handler' = .absent := by
  cases h <;> first | rfl | cases habsent

theorem HandlerSeen.append {handler handler' : Handler} (h : HandlerSeen own addrs handler handler')
    (b : Nat) : HandlerSeen own (addrs ++ [b]) handler handler' := by
  cases h with
  | absent => exact .absent
  | looking hroom => exact .looking hroom
  | creating hroom => exact .creating hroom
  | holding hroom hb => exact .holding hroom (getElem?_append_of_some hb)
  | finished => exact .finished
  | other hreq hroom => exact .other hreq hroom
  | otherFinished => exact .otherFinished

namespace Seen

theorem lt_length (h : Seen own addrs s t) {room_id : String} {a : Nat} (ha : t.db.rooms room_id = some a) :
    a < addrs.length := by
  rw [← h.length]
  exact h.placed'.mapped room_id a ha

/-- Two addresses of the own server with one address on the shared one are one. -/
theorem address_inj (h : Seen own addrs s t) {a a' b : Nat} (ha : addrs[a]? = some b)
    (ha' : addrs[a']? = some b) : a = a' :=
  (List.getElem?_inj (List.getElem?_eq_some_iff.mp ha).1 h.nodup).mp (ha.trans ha'.symm)

/-- What the read-lock section finds under an own id. -/
theorem readRoom (h : Seen own addrs s t) {room_id : String} (hown : own room_id = true) :
    s.db.readRoom room_id = (t.db.readRoom room_id).bind fun a => addrs[a]? := by
  unfold Db.readRoom
  rw [h.rooms room_id hown]
  cases ha : t.db.rooms room_id with
  | none => rfl
  | some a =>
    have hb := List.getElem?_eq_getElem (h.lt_length ha)
    simp only [Option.bind_some, hb, h.heap a _ hb]
    split_ifs
    · exact hb.symm
    · rfl

/-- The write-lock section finds the same watched room under an own id, or creates one on both sides. -/
theorem writeRoom (h : Seen own addrs s t) {room_id : String} (hown : own room_id = true) :
    (∃ a b, addrs[a]? = some b ∧ s.db.writeRoom room_id = (b, s.db) ∧ t.db.writeRoom room_id = (a, t.db)) ∨
      (s.db.writeRoom room_id = s.db.createRoom room_id ∧ t.db.writeRoom room_id = t.db.createRoom room_id) := by
  unfold Db.writeRoom
  rw [h.rooms room_id hown]
  cases ha : t.db.rooms room_id with
  | none =>
    right
    exact ⟨rfl, rfl⟩
  | some a =>
    have hb := List.getElem?_eq_getElem (h.lt_length ha)
    simp only [Option.bind_some, hb, h.heap a _ hb]
    split_ifs
    · left
      exact ⟨a, _, hb, rfl, rfl⟩
    · right
      exact ⟨rfl, rfl⟩

/-- The own subscription of a name. -/
theorem find (h : Seen own addrs s t) {x : Nat} {c : Client} (hfind : s.find x = some c)
    (hown : own c.room_id = true) : ∃ d, t.find x = some d ∧ ClientSeen addrs c d := by
  obtain ⟨hmem, rfl⟩ := find_mem hfind
  refine find?_of_forall₂ (fun c d hcd => by rw [hcd.id_eq]) h.live (find?_of_nodup ?_ ?_)
  · exact h.named.nodup.sublist (List.filter_sublist.map Client.id)
  · exact List.mem_filter.mpr ⟨hmem, hown⟩

/-! ### Steps of others -/

/-- A step that leaves alone what is own. -/
theorem other (h : Seen own addrs s t) {s' : RoomSystem} (hnamed : Named s') (hplaced : Placed s')
    (hallocated : s.db.allocated ≤ s'.db.allocated) (hheap : ∀ b ∈ addrs, s'.db.heap b = s.db.heap b)
    (hrooms : ∀ room_id, own room_id = true → s'.db.rooms room_id = s.db.rooms room_id)
    (hhandler : ∀ h, HandlerSeen own addrs (s'.handler h) (t.handler h))
    (hlive : (s'.live.filter fun c => own c.room_id) = s.live.filter fun c => own c.room_id)
    (happart : ∀ b, Elsewhere own s' b → Elsewhere own s b ∨ s.db.allocated ≤ b) : Seen own addrs s' t := by
  refine ⟨hnamed, hplaced, h.placed', h.length, h.nodup, fun b hb => Nat.lt_of_lt_of_le (h.allocated b hb) hallocated,
    fun a b hb => (hheap b (List.mem_of_getElem? hb)).trans (h.heap a b hb),
    fun room_id hown => (hrooms room_id hown).trans (h.rooms room_id hown), hhandler, ?_, fun b hb hmem => ?_⟩
  · rw [hlive]
    exact h.live
  · rcases happart b hb with hb | hb
    · exact h.apart b hb hmem
    · exact absurd (h.allocated b hmem) (Nat.not_lt.mpr hb)

/-- The handlers after one of another id has moved. -/
theorem other_handler (h : Seen own addrs s t) {h' : Nat} {hd : Handler} {room_id : String}
    (hhandler : t.handler h' = .absent) (hd_other : (∃ req, hd.request = some (room_id, req)) ∨ hd = .finished)
    (hown : own room_id = false) (i : Nat) :
    HandlerSeen own addrs ((s.setHandler h' hd).handler i) (t.handler i) := by
  by_cases hi : i = h'
  · subst hi
    rw [setHandler_self, hhandler]
    obtain ⟨req, hreq⟩ | rfl := hd_other
    · exact .other hreq hown
    · exact .otherFinished
  · rw [setHandler_of_ne s hd hi]
    exact h.handler i

/-- What uses an address after a handler of another id has moved. -/
theorem elsewhere_setHandler {h' : Nat} {hd : Handler} {b : Nat} (hb : Elsewhere own (s.setHandler h' hd) b)
    (hheld : ∀ room_id req b, own room_id = false → hd = .holding room_id req b → Elsewhere own s b) :
    Elsewhere own s b := by
  cases hb with
  | mapped room_id hown hroom => exact .mapped room_id hown hroom
  | held i room_id req hown hi =>
    rcases setHandler_cases s h' hd i with heq | heq
    · exact hheld room_id req b hown (heq.symm.trans hi)
    · exact .held i room_id req hown (heq.symm.trans hi)
  | live c hc hown hroom => exact .live c hc hown hroom

/-- A handler of another id finishes with a change of its room. -/
theorem otherFinish (h : Seen own addrs s t) {s' : RoomSystem} (hnamed : Named s') (hplaced : Placed s')
    {i : Nat} {room_id : String} {req : Request} {b : Nat} {room : Room}
    (hh : s.handler i = .holding room_id req b) (hown : own room_id = false)
    (hdb : s'.db = s.db.setRoom b room) (hhandler : s'.handler = (s.setHandler i .finished).handler)
    (hlive : s'.live = s.live ∨ ∃ c : Client, s'.live = s.live ++ [c] ∧ c.room_id = room_id ∧ c.room = b) :
    Seen own addrs s' t := by
  have ht := (h.handler i).of_other (by rw [hh]; rfl) hown
  have hnot : b ∉ addrs := h.apart b (.held i room_id req hown hh)
  refine h.other hnamed hplaced (by rw [hdb]; exact Nat.le_refl _) (fun b' hb' => ?_)
    (fun room_id' _ => by rw [hdb]; rfl) (fun j => ?_) ?_ fun b' hb' => Or.inl ?_
  · rw [hdb, setRoom_of_ne]
    rintro rfl
    exact hnot hb'
  · rw [hhandler]
    exact h.other_handler ht (Or.inr rfl) hown j
  · rcases hlive with hlive | ⟨c, hlive, hc, -⟩
    · rw [hlive]
    · rw [hlive, List.filter_append, List.filter_cons_of_neg (by rw [hc, hown]; exact Bool.false_ne_true),
        List.filter_nil, List.append_nil]
  · cases hb' with
    | mapped room_id' hown' hroom =>
      rw [hdb] at hroom
      exact .mapped room_id' hown' hroom
    | held j room_id' req' hown' hj =>
      rw [hhandler] at hj
      rcases setHandler_cases s i .finished j with heq | heq
      · rw [heq] at hj
        cases hj
      · exact .held j room_id' req' hown' (heq.symm.trans hj)
    | live c' hc' hown' hroom =>
      rcases hlive with hlive | ⟨c, hlive, hc, hcroom⟩
      · rw [hlive] at hc'
        exact .live c' hc' hown' hroom
      · rw [hlive, List.mem_append, List.mem_singleton] at hc'
        rcases hc' with hc' | rfl
        · exact .live c' hc' hown' hroom
        · rw [← hroom, hcroom]
          exact .held i room_id req hown hh

/-- The subscription of another id goes. -/
theorem otherDrop (h : Seen own addrs s t) {c : Client} (hc : c ∈ s.live) (hown : own c.room_id = false)
    (hnamed : Named (s.dropClient c)) (hplaced : Placed (s.dropClient c)) :
    Seen own addrs (s.dropClient c) t := by
  have hnot : c.room ∉ addrs := h.apart c.room (.live c hc hown rfl)
  refine h.other hnamed hplaced (Nat.le_refl _) (fun b hb => setRoom_of_ne s.db _ ?_) (fun _ _ => rfl) h.handler
    (filter_eraseP fun d hd hid => ?_) fun b hb => Or.inl ?_
  · rintro rfl
    exact hnot hb
  · rw [beq_iff_eq] at hid
    rw [h.named.eq_of_id hd hc hid, hown]
  · cases hb with
    | mapped room_id hown hroom => exact .mapped room_id hown hroom
    | held i room_id req hown hi => exact .held i room_id req hown hi
    | live d hd hown hroom => exact .live d (mem_dropClient hd) hown hroom

end Seen

/-- A step under another id leaves what is own as it is. -/
theorem seen_other {build : U16.Build} {s' : RoomSystem} {a : Action} (h : Seen own addrs s t)
    (hown : owns own s a = false) (hstep : step build s a = some s') : Seen own addrs s' t := by
  have hnamed := step_named h.named hstep
  have hplaced := step_placed h.placed hstep
  have hspec := step_spec hstep
  cases hspec with
  | @arrive i room_id req hh hlive =>
    have ht := (h.handler i).of_absent hh
    exact h.other hnamed hplaced (Nat.le_refl _) (fun _ _ => rfl) (fun _ _ => rfl)
      (h.other_handler ht (Or.inl ⟨req, rfl⟩) hown) rfl
      fun b hb => Or.inl (Seen.elsewhere_setHandler hb fun _ _ _ _ hd => by cases hd)
  | @found i room_id req b hh hroom hwatched =>
    have hroomid : own room_id = false := by simpa [owns, roomId, hh, Handler.request] using hown
    have ht := (h.handler i).of_other (by rw [hh]; rfl) hroomid
    refine h.other hnamed hplaced (Nat.le_refl _) (fun _ _ => rfl) (fun _ _ => rfl)
      (h.other_handler ht (Or.inl ⟨req, rfl⟩) hroomid) rfl
      fun b' hb => Or.inl (Seen.elsewhere_setHandler hb fun r req' b'' hr hd => ?_)
    cases hd
    exact .mapped room_id hroomid hroom
  | @missed i room_id req hh =>
    have hroomid : own room_id = false := by simpa [owns, roomId, hh, Handler.request] using hown
    have ht := (h.handler i).of_other (by rw [hh]; rfl) hroomid
    exact h.other hnamed hplaced (Nat.le_refl _) (fun _ _ => rfl) (fun _ _ => rfl)
      (h.other_handler ht (Or.inl ⟨req, rfl⟩) hroomid) rfl
      fun b hb => Or.inl (Seen.elsewhere_setHandler hb fun _ _ _ _ hd => by cases hd)
  | @refound i room_id req b hh hroom hwatched =>
    have hroomid : own room_id = false := by simpa [owns, roomId, hh, Handler.request] using hown
    have ht := (h.handler i).of_other (by rw [hh]; rfl) hroomid
    refine h.other hnamed hplaced (Nat.le_refl _) (fun _ _ => rfl) (fun _ _ => rfl)
      (h.other_handler ht (Or.inl ⟨req, rfl⟩) hroomid) rfl
      fun b' hb => Or.inl (Seen.elsewhere_setHandler hb fun r req' b'' hr hd => ?_)
    cases hd
    exact .mapped room_id hroomid hroom
  | @created i room_id req hh habandoned =>
    have hroomid : own room_id = false := by simpa [owns, roomId, hh, Handler.request] using hown
    have ht := (h.handler i).of_other (by rw [hh]; rfl) hroomid
    refine h.other hnamed hplaced (Nat.le_succ _) (fun b hb => if_neg (Nat.ne_of_lt (h.allocated b hb)))
      (fun room_id' hown' => if_neg ?_) (h.other_handler ht (Or.inl ⟨req, rfl⟩) hroomid) rfl fun b hb => ?_
    · rintro rfl
      rw [hroomid] at hown'
      cases hown'
    · cases hb with
      | mapped room_id' hown' hroom =>
        simp only [Db.createRoom] at hroom
        split_ifs at hroom with heq
        · right
          exact Nat.le_of_eq (Option.some.inj hroom)
        · left
          exact .mapped room_id' hown' hroom
      | held j room_id' req' hown' hj =>
        rcases setHandler_cases s i (.holding room_id req s.db.allocated) j with heq | heq
        · have hj := heq.symm.trans hj
          cases hj
          right
          exact Nat.le_refl _
        · left
          exact .held j room_id' req' hown' (heq.symm.trans hj)
      | live c hc hown' hroom =>
        left
        exact .live c hc hown' hroom
  | @subscribe i room_id last_seen b n hh hfirst =>
    have hroomid : own room_id = false := by simpa [owns, roomId, hh, Handler.request] using hown
    exact h.otherFinish hnamed hplaced hh hroomid rfl rfl (Or.inr ⟨_, rfl, rfl, rfl⟩)
  | @leak i room_id last_seen b hh hfirst =>
    have hroomid : own room_id = false := by simpa [owns, roomId, hh, Handler.request] using hown
    exact h.otherFinish hnamed hplaced hh hroomid rfl rfl (Or.inl rfl)
  | @issue i room_id holder b hh =>
    have hroomid : own room_id = false := by simpa [owns, roomId, hh, Handler.request] using hown
    exact h.otherFinish hnamed hplaced hh hroomid rfl rfl (Or.inl rfl)
  | @publish i room_id message b hh =>
    have hroomid : own room_id = false := by simpa [owns, roomId, hh, Handler.request] using hown
    exact h.otherFinish hnamed hplaced hh hroomid rfl rfl (Or.inl rfl)
  | @deliver x c message n hfind hget hadd =>
    have hroomid : own c.room_id = false := by simpa [owns, roomId, hfind] using hown
    refine h.other hnamed hplaced (Nat.le_refl _) (fun _ _ => rfl) (fun _ _ => rfl) h.handler ?_
      fun b hb => Or.inl ?_
    · rw [filter_deliver]
      refine (List.map_congr_left fun d hd => if_neg fun hid => ?_).trans (List.map_id _)
      rw [List.mem_filter] at hd
      have hd' := hd.2
      rw [h.named.eq_of_id hd.1 (find_mem hfind).1 hid, hroomid] at hd'
      cases hd'
    · cases hb with
      | mapped room_id hown hroom => exact .mapped room_id hown hroom
      | held i room_id req hown hi => exact .held i room_id req hown hi
      | live d hd hown hroom =>
        obtain ⟨e, he, -, hid, heroom, -⟩ := mem_deliver_frame hd
        exact .live e he (by rw [hid]; exact hown) (heroom.trans hroom)
  | @overflow x c hfind hadd =>
    have hroomid : own c.room_id = false := by simpa [owns, roomId, hfind] using hown
    exact h.otherDrop (find_mem hfind).1 hroomid hnamed hplaced
  | @drop x c hfind =>
    have hroomid : own c.room_id = false := by simpa [owns, roomId, hfind] using hown
    exact h.otherDrop (find_mem hfind).1 hroomid hnamed hplaced

/-! ### Own steps -/

namespace Seen

/-- A step on both sides that creates no room. -/
theorem own_step (h : Seen own addrs s t) {s' t' : RoomSystem} (hnamed : Named s') (hplaced : Placed s')
    (hplaced' : Placed t') (hrooms : s'.db.rooms = s.db.rooms) (hrooms' : t'.db.rooms = t.db.rooms)
    (hallocated : s'.db.allocated = s.db.allocated) (hallocated' : t'.db.allocated = t.db.allocated)
    (hheap : ∀ a b, addrs[a]? = some b → s'.db.heap b = t'.db.heap a)
    (hhandler : ∀ i, HandlerSeen own addrs (s'.handler i) (t'.handler i))
    (hheld : ∀ i room_id req b, own room_id = false → s'.handler i = .holding room_id req b →
      s.handler i = .holding room_id req b)
    (hlive : List.Forall₂ (ClientSeen addrs) (s'.live.filter fun c => own c.room_id) t'.live)
    (hother : ∀ c ∈ s'.live, own c.room_id = false → c ∈ s.live) : Seen own addrs s' t' := by
  refine ⟨hnamed, hplaced, hplaced', by rw [hallocated', h.length], h.nodup, fun b hb => ?_, hheap,
    fun room_id hown => ?_, hhandler, hlive, fun b hb => h.apart b ?_⟩
  · rw [hallocated]
    exact h.allocated b hb
  · rw [hrooms, hrooms']
    exact h.rooms room_id hown
  · cases hb with
    | mapped room_id hown hroom => exact .mapped room_id hown (by rw [← hrooms]; exact hroom)
    | held i room_id req hown hi => exact .held i room_id req hown (hheld i room_id req b hown hi)
    | live c hc hown hroom => exact .live c (hother c hc hown) hown hroom

theorem handler_set (h : Seen own addrs s t) {i : Nat} {hd hd' : Handler} (hseen : HandlerSeen own addrs hd hd')
    (j : Nat) : HandlerSeen own addrs ((s.setHandler i hd).handler j) ((t.setHandler i hd').handler j) := by
  by_cases hj : j = i
  · subst hj
    rw [setHandler_self, setHandler_self]
    exact hseen
  · rw [setHandler_of_ne s hd hj, setHandler_of_ne t hd' hj]
    exact h.handler j

/-- A handler of an own id moves. -/
theorem setHandler (h : Seen own addrs s t) {i : Nat} {hd hd' : Handler} (hnamed : Named (s.setHandler i hd))
    (hplaced : Placed (s.setHandler i hd)) (hplaced' : Placed (t.setHandler i hd'))
    (hseen : HandlerSeen own addrs hd hd')
    (hheld : ∀ room_id req b, hd = .holding room_id req b → own room_id = true) :
    Seen own addrs (s.setHandler i hd) (t.setHandler i hd') := by
  refine h.own_step hnamed hplaced hplaced' rfl rfl rfl rfl h.heap (h.handler_set hseen)
    (fun j room_id req b hown hj => ?_) h.live fun _ hc _ => hc
  rcases setHandler_cases s i hd j with heq | heq
  · rw [hheld room_id req b (heq.symm.trans hj)] at hown
    cases hown
  · exact heq.symm.trans hj

/-- The same change of the same room on both sides. -/
theorem heap_setRoom (h : Seen own addrs s t) {a b : Nat} (hb : addrs[a]? = some b) (f : Room → Room)
    {a' b' : Nat} (hb' : addrs[a']? = some b') :
    (s.db.setRoom b (f (s.db.heap b))).heap b' = (t.db.setRoom a (f (t.db.heap a))).heap a' := by
  by_cases ha : a' = a
  · subst ha
    obtain rfl := Option.some.inj (hb.symm.trans hb')
    rw [setRoom_self, setRoom_self, h.heap a' b hb]
  · rw [setRoom_of_ne t.db _ ha, setRoom_of_ne s.db _, h.heap a' b' hb']
    rintro rfl
    exact ha (h.address_inj hb' hb)

/-- A handler of an own id finishes with a change of its room. -/
theorem finish (h : Seen own addrs s t) {s' t' : RoomSystem} (hnamed : Named s') (hplaced : Placed s')
    (hplaced' : Placed t') {i a b : Nat} (hb : addrs[a]? = some b) (f : Room → Room)
    (hdb : s'.db = s.db.setRoom b (f (s.db.heap b))) (hdb' : t'.db = t.db.setRoom a (f (t.db.heap a)))
    (hhandler : s'.handler = (s.setHandler i .finished).handler)
    (hhandler' : t'.handler = (t.setHandler i .finished).handler)
    (hlive : s'.live = s.live ∧ t'.live = t.live ∨ ∃ c d, s'.live = s.live ++ [c] ∧ t'.live = t.live ++ [d] ∧
      own c.room_id = true ∧ ClientSeen addrs c d) : Seen own addrs s' t' := by
  refine h.own_step hnamed hplaced hplaced' (by rw [hdb]; rfl) (by rw [hdb']; rfl) (by rw [hdb]; rfl)
    (by rw [hdb']; rfl) (fun a' b' hb' => ?_) (fun j => ?_) (fun j room_id req b' hown hj => ?_) ?_
    fun c hc hown => ?_
  · rw [hdb, hdb']
    exact h.heap_setRoom hb f hb'
  · rw [hhandler, hhandler']
    exact h.handler_set .finished j
  · rw [hhandler] at hj
    rcases setHandler_cases s i .finished j with heq | heq
    · cases heq.symm.trans hj
    · exact heq.symm.trans hj
  · rcases hlive with ⟨hlive, hlive'⟩ | ⟨c, d, hlive, hlive', hown, hcd⟩
    · rw [hlive, hlive']
      exact h.live
    · have hkept : ([c].filter fun c => own c.room_id) = [c] := by simp [hown]
      rw [hlive, hlive', List.filter_append, hkept]
      exact List.rel_append h.live (List.Forall₂.cons hcd List.Forall₂.nil)
  · rcases hlive with ⟨hlive, -⟩ | ⟨d, _, hlive, -, hown', -⟩
    · rw [hlive] at hc
      exact hc
    · rw [hlive, List.mem_append, List.mem_singleton] at hc
      rcases hc with hc | rfl
      · exact hc
      · rw [hown'] at hown
        cases hown

/-- A room is created under an own id on both sides. -/
theorem createRoom (h : Seen own addrs s t) {i : Nat} {room_id : String} {req : Request}
    (hown : own room_id = true)
    (hnamed : Named { s.setHandler i (.holding room_id req s.db.allocated) with db := (s.db.createRoom room_id).2 })
    (hplaced : Placed { s.setHandler i (.holding room_id req s.db.allocated) with db := (s.db.createRoom room_id).2 })
    (hplaced' : Placed { t.setHandler i (.holding room_id req t.db.allocated) with
      db := (t.db.createRoom room_id).2 }) :
    Seen own (addrs ++ [s.db.allocated])
      { s.setHandler i (.holding room_id req s.db.allocated) with db := (s.db.createRoom room_id).2 }
      { t.setHandler i (.holding room_id req t.db.allocated) with db := (t.db.createRoom room_id).2 } := by
  have hnew : (addrs ++ [s.db.allocated])[t.db.allocated]? = some s.db.allocated := by
    rw [h.length, List.getElem?_concat_length]
  have hold : ∀ a b, a ≠ t.db.allocated → (addrs ++ [s.db.allocated])[a]? = some b →
      addrs[a]? = some b := by
    intro a b ha hb
    have hlt : a < addrs.length := by
      have hle := (List.getElem?_eq_some_iff.mp hb).1
      rw [List.length_append, List.length_singleton] at hle
      rw [h.length] at ha
      omega
    rwa [List.getElem?_append_left hlt] at hb
  refine ⟨hnamed, hplaced, hplaced', ?_, ?_, ?_, ?_, ?_, ?_, h.live.imp fun c d hcd => hcd.append _, ?_⟩
  · show t.db.allocated + 1 = _
    rw [List.length_append, h.length, List.length_singleton]
  · rw [List.nodup_append]
    refine ⟨h.nodup, List.nodup_singleton _, fun b hb b' hb' => ?_⟩
    rw [List.mem_singleton] at hb'
    rw [hb']
    exact Nat.ne_of_lt (h.allocated b hb)
  · intro b hb
    rw [List.mem_append, List.mem_singleton] at hb
    rcases hb with hb | rfl
    · exact Nat.lt_succ_of_lt (h.allocated b hb)
    · exact Nat.lt_succ_self _
  · intro a b hb
    show (if b = s.db.allocated then _ else _) = if a = t.db.allocated then _ else _
    by_cases ha : a = t.db.allocated
    · subst ha
      rw [hnew] at hb
      rw [if_pos (Option.some.inj hb).symm, if_pos rfl]
    · have hb' := hold a b ha hb
      rw [if_neg (Nat.ne_of_lt (h.allocated b (List.mem_of_getElem? hb'))), if_neg ha, h.heap a b hb']
  · intro room_id' hown'
    show (if room_id' = room_id then _ else _) = Option.bind (if room_id' = room_id then _ else _) _
    split_ifs
    · exact hnew.symm
    · rw [h.rooms room_id' hown']
      cases ha : t.db.rooms room_id' with
      | none => rfl
      | some a => exact (List.getElem?_append_left (h.lt_length ha)).symm
  · intro j
    show HandlerSeen own _ ((s.setHandler i _).handler j) ((t.setHandler i _).handler j)
    by_cases hj : j = i
    · subst hj
      rw [setHandler_self, setHandler_self]
      exact .holding hown hnew
    · rw [setHandler_of_ne s _ hj, setHandler_of_ne t _ hj]
      exact (h.handler j).append _
  · intro b hb hmem
    have hb : Elsewhere own s b := by
      cases hb with
      | mapped room_id' hown' hroom =>
        have hne : room_id' ≠ room_id := by
          rintro rfl
          rw [hown] at hown'
          cases hown'
        exact .mapped room_id' hown' ((if_neg hne).symm.trans hroom)
      | held j room_id' req' hown' hj =>
        rcases setHandler_cases s i (.holding room_id req s.db.allocated) j with heq | heq
        · have hj := heq.symm.trans hj
          cases hj
          rw [hown] at hown'
          cases hown'
        · exact .held j room_id' req' hown' (heq.symm.trans hj)
      | live c hc hown' hroom => exact .live c hc hown' hroom
    rw [List.mem_append, List.mem_singleton] at hmem
    rcases hmem with hmem | rfl
    · exact h.apart b hb hmem
    · cases hb with
      | mapped room_id' _ hroom => exact Nat.lt_irrefl _ (h.placed.mapped room_id' _ hroom)
      | held j room_id' req' _ hj => exact Nat.lt_irrefl _ (h.placed.held j _ (by rw [hj]; rfl))
      | live c hc _ hroom =>
        have hlt := h.placed.live c hc
        rw [hroom] at hlt
        exact Nat.lt_irrefl _ hlt

/-- An own subscription is dropped. -/
theorem dropClient (h : Seen own addrs s t) {c d : Client} (hc : c ∈ s.live) (hown : own c.room_id = true)
    (hcd : ClientSeen addrs c d) (hnamed : Named (s.dropClient c)) (hplaced : Placed (s.dropClient c))
    (hplaced' : Placed (t.dropClient d)) : Seen own addrs (s.dropClient c) (t.dropClient d) := by
  refine h.own_step hnamed hplaced hplaced' rfl rfl rfl rfl
    (fun a b hb => h.heap_setRoom hcd.room Room.dropSubscriber hb) h.handler (fun _ _ _ _ _ hi => hi) ?_
    fun e he _ => mem_dropClient he
  show List.Forall₂ _ ((s.live.eraseP fun e => e.id == c.id).filter _) (t.live.eraseP fun e => e.id == d.id)
  rw [filter_eraseP_comm]
  · exact forall₂_eraseP (fun e e' he => by rw [he.id_eq, hcd.id_eq]) h.live
  · intro e he hid
    rw [beq_iff_eq] at hid
    rw [h.named.eq_of_id he hc hid, hown]

/-- A message is returned from an own subscription. -/
theorem deliver (h : Seen own addrs s t) {c d : Client} (hcd : ClientSeen addrs c d) {id n : Nat}
    {message : String} (hnamed : Named (s.deliver c id message n)) (hplaced : Placed (s.deliver c id message n))
    (hplaced' : Placed (t.deliver d id message n)) (hown : own c.room_id = true) (hc : c ∈ s.live) :
    Seen own addrs (s.deliver c id message n) (t.deliver d id message n) := by
  refine h.own_step hnamed hplaced hplaced' rfl rfl rfl rfl h.heap h.handler (fun _ _ _ _ _ hi => hi) ?_
    fun e he hother => ?_
  · rw [filter_deliver]
    show List.Forall₂ _ _ (t.live.map _)
    rw [List.forall₂_map_left_iff, List.forall₂_map_right_iff]
    refine h.live.imp fun e e' he => ?_
    rw [he.id_eq, hcd.id_eq]
    split_ifs
    · exact ⟨he.room, by rw [he.same]⟩
    · exact he
  · rcases mem_deliver he with ⟨e', hmem, hid, rfl⟩ | ⟨hmem, -⟩
    · have hother : own e'.room_id = false := hother
      rw [h.named.eq_of_id hmem hc hid, hown] at hother
      cases hother
    · exact hmem

end Seen

/-- A step under an own id is the same step on the own server, and returns the same. -/
theorem seen_own {build : U16.Build} {s' : RoomSystem} {a : Action} (h : Seen own addrs s t)
    (hown : owns own s a = true) (hstep : step build s a = some s') :
    ∃ t', step build t a = some t' ∧ (∃ addrs', Seen own addrs' s' t') ∧ reply build s a = reply build t a := by
  have hnamed := step_named h.named hstep
  have hplaced := step_placed h.placed hstep
  cases a with
  | arrive i room_id req =>
    cases hh : s.handler i <;> simp only [step, hh, reduceCtorEq] at hstep
    split_ifs at hstep with hlive
    cases hstep
    have ht := (h.handler i).of_absent hh
    have hlive' : t.HolderLive room_id req := by
      intro x hx
      obtain ⟨c, hc, hid, hroom⟩ := hlive x hx
      obtain ⟨d, hd, hcd⟩ := h.find (find?_of_nodup h.named.nodup hc) (by rw [hroom]; exact hown)
      rw [hcd.same] at hid hroom
      exact ⟨d, (find_mem hd).1, hid, hroom⟩
    have hstep' : step build t (.arrive i room_id req) = some (t.setHandler i (.looking room_id req)) := by
      simp [step, ht, hlive']
    exact ⟨_, hstep', ⟨addrs, h.setHandler hnamed hplaced (step_placed h.placed' hstep') (.looking hown)
      fun _ _ _ hd => by cases hd⟩, rfl⟩
  | readLock i =>
    cases hh : s.handler i <;> simp only [step, hh, reduceCtorEq] at hstep
    rename_i room_id req
    have hroomid : own room_id = true := by simpa [owns, roomId, hh, Handler.request] using hown
    have hseen := h.handler i
    rw [hh] at hseen
    have ht := hseen.of_looking hroomid
    have hread := h.readRoom hroomid
    cases ha : t.db.readRoom room_id with
    | none =>
      rw [ha] at hread
      simp only [hread, Option.bind_none, Option.some.injEq] at hstep
      subst hstep
      have hstep' : step build t (.readLock i) = some (t.setHandler i (.creating room_id req)) := by
        simp [step, ht, ha]
      exact ⟨_, hstep', ⟨addrs, h.setHandler hnamed hplaced (step_placed h.placed' hstep') (.creating hroomid)
        fun _ _ _ hd => by cases hd⟩, rfl⟩
    | some a =>
      have hb := List.getElem?_eq_getElem (h.lt_length (Db.readRoom_some ha))
      rw [ha, Option.bind_some, hb] at hread
      simp only [hread, Option.some.injEq] at hstep
      subst hstep
      have hstep' : step build t (.readLock i) = some (t.setHandler i (.holding room_id req a)) := by
        simp [step, ht, ha]
      refine ⟨_, hstep', ⟨addrs, h.setHandler hnamed hplaced (step_placed h.placed' hstep') (.holding hroomid hb)
        fun _ _ _ hd => ?_⟩, rfl⟩
      cases hd
      exact hroomid
  | writeLock i =>
    cases hh : s.handler i <;> simp only [step, hh, reduceCtorEq] at hstep
    rename_i room_id req
    have hroomid : own room_id = true := by simpa [owns, roomId, hh, Handler.request] using hown
    have hseen := h.handler i
    rw [hh] at hseen
    have ht := hseen.of_creating hroomid
    rw [Option.some.injEq] at hstep
    subst hstep
    have hstep' : step build t (.writeLock i) =
        some { t.setHandler i (.holding room_id req (t.db.writeRoom room_id).1) with
          db := (t.db.writeRoom room_id).2 } := by
      simp [step, ht]
    have hplaced' := step_placed h.placed' hstep'
    refine ⟨_, hstep', ?_, rfl⟩
    rcases h.writeRoom hroomid with ⟨a, b, hb, hwrite, hwrite'⟩ | ⟨hwrite, hwrite'⟩
    · rw [hwrite] at hnamed hplaced ⊢
      rw [hwrite'] at hplaced' ⊢
      refine ⟨addrs, h.setHandler hnamed hplaced hplaced' (.holding hroomid hb) fun _ _ _ hd => ?_⟩
      cases hd
      exact hroomid
    · rw [hwrite] at hnamed hplaced ⊢
      rw [hwrite'] at hplaced' ⊢
      exact ⟨_, h.createRoom hroomid hnamed hplaced hplaced'⟩
  | finish i =>
    cases hh : s.handler i <;> simp only [step, hh, reduceCtorEq] at hstep
    rename_i room_id req b
    have hroomid : own room_id = true := by simpa [owns, roomId, hh, Handler.request] using hown
    have hseen := h.handler i
    rw [hh] at hseen
    obtain ⟨a, hb, ht⟩ := hseen.of_holding hroomid
    rw [Option.some.injEq] at hstep
    subst hstep
    have hstep' : step build t (.finish i) = some (stepFinish build t i room_id a req) := by
      simp [step, ht]
    have hplaced' := step_placed h.placed' hstep'
    have hheap := h.heap a b hb
    refine ⟨_, hstep', ⟨addrs, ?_⟩, ?_⟩
    · cases req with
      | subscribe last_seen =>
        cases hfirst : firstEvent build last_seen with
        | none =>
          simp only [stepFinish, hfirst] at hnamed hplaced hplaced' ⊢
          exact h.finish hnamed hplaced hplaced' hb Room.addSubscriber rfl rfl rfl rfl (Or.inl ⟨rfl, rfl⟩)
        | some n =>
          simp only [stepFinish, hfirst] at hnamed hplaced hplaced' ⊢
          refine h.finish hnamed hplaced hplaced' hb Room.addSubscriber rfl rfl rfl rfl
            (Or.inr ⟨_, _, rfl, rfl, hroomid, hb, ?_⟩)
          rw [hheap]
      | issueIdx holder =>
        exact h.finish hnamed hplaced hplaced' hb (fun room => room.issueUniqueIdx.2) rfl rfl rfl rfl
          (Or.inl ⟨rfl, rfl⟩)
      | broadcast message =>
        exact h.finish hnamed hplaced hplaced' hb (fun room => room.publish message) rfl rfl rfl rfl
          (Or.inl ⟨rfl, rfl⟩)
    · cases req <;> simp only [reply, hh, ht, hheap]
  | next x =>
    cases hfind : s.find x with
    | none => simp [step, hfind] at hstep
    | some c =>
      have hroomid : own c.room_id = true := by simpa [owns, roomId, hfind] using hown
      obtain ⟨d, hfind', hcd⟩ := h.find hfind hroomid
      have hlook : look build (s.db.heap c.room).messages c.next_event =
          look build (t.db.heap d.room).messages d.next_event := by
        rw [h.heap d.room c.room hcd.room, hcd.same]
      cases hd : look build (t.db.heap d.room).messages d.next_event with
      | missing =>
        rw [hd] at hlook
        simp [step, hfind, hlook] at hstep
      | event id message n =>
        rw [hd] at hlook
        simp only [step, hfind, hlook, Option.some.injEq] at hstep
        subst hstep
        have hstep' : step build t (.next x) = some (t.deliver d id message n) := by
          simp only [step, hfind', hd]
        exact ⟨_, hstep', ⟨addrs, h.deliver hcd hnamed hplaced (step_placed h.placed' hstep') hroomid
          (find_mem hfind).1⟩, by simp only [reply, hfind, hfind', hlook, hd]⟩
      | overflow =>
        rw [hd] at hlook
        simp only [step, hfind, hlook, Option.some.injEq] at hstep
        subst hstep
        have hstep' : step build t (.next x) = some (t.dropClient d) := by
          simp only [step, hfind', hd]
        exact ⟨_, hstep', ⟨addrs, h.dropClient (find_mem hfind).1 hroomid hcd hnamed hplaced
          (step_placed h.placed' hstep')⟩, by simp only [reply, hfind, hfind', hlook, hd]⟩
  | drop x =>
    obtain ⟨c, hfind, rfl⟩ := Option.map_eq_some_iff.mp hstep
    have hroomid : own c.room_id = true := by simpa [owns, roomId, hfind] using hown
    obtain ⟨d, hfind', hcd⟩ := h.find hfind hroomid
    have hstep' : step build t (.drop x) = some (t.dropClient d) := by
      simp only [step, hfind', Option.map_some]
    exact ⟨_, hstep', ⟨addrs, h.dropClient (find_mem hfind).1 hroomid hcd hnamed hplaced
      (step_placed h.placed' hstep')⟩, rfl⟩

/-- For any set of room ids: without the steps under other ids, the run is a run, what is returned under the ids
of the set is the same, and so are their rooms, handlers and subscriptions at the end, but for the addresses. -/
theorem rooms_isolated (build : U16.Build) (own : String → Bool) (actions : List Action) (s : RoomSystem)
    (hrun : exec (step build) start actions = some s) :
    ∃ t addrs, exec (step build) start (purge (step build) (owns own) start actions) = some t ∧
      Seen own addrs s t ∧
      observed (step build) (owns own) (reply build) start actions =
        observed (step build) (fun _ _ => true) (reply build) start
          (purge (step build) (owns own) start actions) := by
  obtain ⟨t, ht, ⟨addrs, hseen⟩, hobserved⟩ := exec_purge (R := fun s t => ∃ addrs, Seen own addrs s t)
    (fun s t a s' hr hown hstep => by
      obtain ⟨addrs, h⟩ := hr
      obtain ⟨t', ht', hseen, hreply⟩ := seen_own h hown hstep
      exact ⟨t', ht', hseen, hreply⟩)
    (fun s t a s' hr hown hstep => by
      obtain ⟨addrs, h⟩ := hr
      exact ⟨addrs, seen_other h hown hstep⟩) ⟨[], start_seen own⟩ hrun
  exact ⟨t, addrs, ht, hseen, hobserved⟩

end Isolation

/-- Two rooms in turn: a subscription and a message in each, and an index from the first. -/
def twoRooms : List Action :=
  [.arrive 0 "x" (.subscribe none), .arrive 1 "y" (.subscribe none), .readLock 0, .readLock 1, .writeLock 1,
    .writeLock 0, .finish 0, .finish 1, .arrive 2 "y" (.broadcast "for y"), .readLock 2, .finish 2,
    .arrive 3 "x" (.issueIdx (some 0)), .readLock 3, .finish 3, .arrive 4 "x" (.broadcast "for x"), .readLock 4,
    .next 1, .finish 4, .next 0, .drop 1]

theorem twoRooms_isolated : ∃ s t addrs,
    exec (step .release) start twoRooms = some s ∧
      exec (step .release) start (purge (step .release) (owns fun r => r == "x") start twoRooms) = some t ∧
      Seen (fun r => r == "x") addrs s t ∧
      ((observed (step .release) (owns fun r => r == "x") (reply .release) start twoRooms).map Prod.snd).filter
        (fun r => r != .nothing) = [.index 1, .event 0 "for x"] := by
  have hrun : (exec (step .release) start twoRooms).isSome = true := by decide
  obtain ⟨s, hs⟩ := Option.isSome_iff_exists.mp hrun
  obtain ⟨t, addrs, ht, hseen, -⟩ := rooms_isolated .release (fun r => r == "x") twoRooms s hs
  exact ⟨s, t, addrs, hs, ht, hseen, by decide⟩

end RoomSystem

end Gg20
