import Mathlib.Logic.Function.Basic
import MultiPartyTss.Lib.Oneshot
import MultiPartyTss.Lib.Run

/-!
# Cancelable futures and streams

A `Cancelable` polls the receiver of a one-shot channel before its inner future or stream; the sender is
kept by a guard, and dropping it cancels. The receiver is fused, so it reports the cancellation once and is
pending afterwards: `final_iff` says in which runs no item of a stream is returned after a cancellation, and
`future_silent` that a future, which is not polled again once it was ready or has panicked, does not run after one.
A `SharedCancelGuard` starts without a guard, and `DummyCancelGuard` sends a value, which the poll takes for
unreachable: `transparent_iff` says for which guards an uncancelled `Cancelable` is the inner one.

Each method is one step. A handle that looks at the guard or adds a sender has a strong reference to the senders
for that moment, and where the guard is dropped meanwhile they live until it is over; these temporary references
are left out.
-/

namespace Futures

open Oneshot

/-! ### The wrapper -/

/-- A future or a stream as it is polled, with the steps of its environment. `canceled` is what a poll
makes of the value of `on_cancel`. -/
structure Pollable (σ E C α : Type*) where
  poll : σ → α × σ
  act : E → σ → σ
  canceled : C → α

variable {σ E C α Item Output : Type*}

def stream (poll_next : σ → Poll (Option Item) × σ) (act : E → σ → σ) :
    Pollable σ E Item (Poll (Option Item)) :=
  ⟨poll_next, act, fun item => .ready (some item)⟩

def future (poll : σ → Poll Output × σ) (act : E → σ → σ) : Pollable σ E Output (Poll Output) :=
  ⟨poll, act, .ready⟩

/-- The receiver is that of the channel with this name; `on_cancel` is the value of a call. -/
structure Cancelable (σ C : Type*) where
  inner : σ
  cancel_receiver : Option Nat
  on_cancel : C
  deriving DecidableEq

/-- What a poll returns, by the arm that returns it. -/
inductive Answer (α : Type*) where
  | unreachable
  | canceled (a : α)
  | inner (a : α)
  deriving DecidableEq, Repr

/-- `poll_next` of a stream, `poll` of a future. -/
def Cancelable.poll (P : Pollable σ E C α) (channels : Nat → Channel Unit) (c : Cancelable σ C) :
    Answer α × Cancelable σ C :=
  match fusedPoll channels c.cancel_receiver with
  | (.ready (.ok _), cancel_receiver) => (.unreachable, { c with cancel_receiver })
  | (.ready (.error _), cancel_receiver) => (.canceled (P.canceled c.on_cancel), { c with cancel_receiver })
  | (.pending, cancel_receiver) =>
    let (a, inner) := P.poll c.inner
    (.inner a, { c with inner, cancel_receiver })

namespace Cancelable

theorem poll_receiver (P : Pollable σ E C α) (channels : Nat → Channel Unit) (c : Cancelable σ C) :
    (c.poll P channels).2.cancel_receiver = (fusedPoll channels c.cancel_receiver).2 := by
  unfold Cancelable.poll
  split <;> simp_all

theorem poll_pending (P : Pollable σ E C α) {channels : Nat → Channel Unit} {c : Cancelable σ C}
    (h : fusedPoll channels c.cancel_receiver = (.pending, c.cancel_receiver)) :
    c.poll P channels = (.inner (P.poll c.inner).1, { c with inner := (P.poll c.inner).2 }) := by
  unfold Cancelable.poll
  rw [h]

/-- Once the receiver has resolved, the guard does not matter. -/
theorem poll_none (P : Pollable σ E C α) (channels : Nat → Channel Unit) {c : Cancelable σ C}
    (h : c.cancel_receiver = none) : (c.poll P channels).1 = .inner (P.poll c.inner).1 := by
  rw [poll_pending P (by rw [h, fusedPoll_none])]

/-- The poll that resolves the receiver does not poll the inner one. -/
theorem poll_resolved (P : Pollable σ E C α) {channels : Nat → Channel Unit} {c : Cancelable σ C}
    {receiver : Nat} (hreceiver : c.cancel_receiver = some receiver) (h : channels receiver ≠ .waiting) (a : α) :
    (c.poll P channels).1 ≠ .inner a := by
  obtain ⟨result, hresult⟩ := fusedPoll_resolved h
  unfold Cancelable.poll
  rw [hreceiver, hresult]
  cases result <;> simp

end Cancelable

/-! ### The guards -/

/-- The senders that a guard keeps, by their channels. -/
structure CancelGuard where
  cancel_senders : List Nat
  deriving DecidableEq, Repr

namespace CancelGuard

def new : CancelGuard := ⟨[]⟩

def addCancelSender (guard : CancelGuard) (cancel_sender : Nat) : CancelGuard :=
  ⟨guard.cancel_senders ++ [cancel_sender]⟩

/-- What dropping the guard does to the channels. -/
def drop (guard : CancelGuard) (channels : Nat → Channel Unit) : Nat → Channel Unit :=
  fun channel => if channel ∈ guard.cancel_senders then (channels channel).dropSender else channels channel

/-- What waits after the drop is not one of the guard's. -/
theorem drop_waiting {guard : CancelGuard} {channels : Nat → Channel Unit} {channel : Nat}
    (h : guard.drop channels channel = .waiting) :
    channel ∉ guard.cancel_senders ∧ channels channel = .waiting := by
  unfold drop at h
  split at h
  · exact absurd h (Channel.dropSender_ne_waiting _)
  next hmem => exact ⟨hmem, h⟩

end CancelGuard

/-- Registers a sender with a guard that may be gone, and drops it then. -/
def addOrDrop (guard : Option CancelGuard) (cancel_sender : Nat) (channels : Nat → Channel Unit) :
    Option CancelGuard × (Nat → Channel Unit) :=
  match guard with
  | some guard => (some (guard.addCancelSender cancel_sender), channels)
  | none => (none, Function.update channels cancel_sender (channels cancel_sender).dropSender)

namespace CancelHandle

/-- `self.guard.upgrade()` gives the guard while it lives. The handle of a shared guard that holds none is
made by `Weak::new()`, which gives nothing. -/
def addCancelSender (upgrade : Option CancelGuard) := addOrDrop upgrade

def isCanceled (upgrade : Option CancelGuard) : Bool := upgrade.isNone

end CancelHandle

namespace SharedCancelGuard

/-- The derived default of `Mutex<Option<CancelGuard>>`. -/
def new : Option CancelGuard := none

def addCancelSender (guard : Option CancelGuard) := addOrDrop guard

end SharedCancelGuard

def DummyCancelGuard.addCancelSender (cancel_sender : Nat) (channels : Nat → Channel Unit) : Nat → Channel Unit :=
  Function.update channels cancel_sender ((channels cancel_sender).send ())

/-! ### Runs -/

inductive Canceler where
  | cancelGuard
  | sharedCancelGuard
  | dummyCancelGuard
  deriving DecidableEq, Repr

def Canceler.new : Canceler → Option CancelGuard
  | cancelGuard => some .new
  | sharedCancelGuard => SharedCancelGuard.new
  | dummyCancelGuard => none

/-- A poll that was made: of which `Cancelable`, whether the guard was gone, and what it returned. -/
structure Polled (α : Type*) where
  cancelable : Nat
  gone : Bool
  answer : Answer α
  deriving DecidableEq, Repr

/-- A guard with the futures or streams that were made cancelable through it. `guard` is what the guard or
the `Option` of a shared one holds, `gone` whether it was cancelled or dropped. -/
structure State (σ C α : Type*) where
  canceler : Canceler
  guard : Option CancelGuard
  gone : Bool
  channels : Nat → Channel Unit
  next : Nat
  cancelables : List (Cancelable σ C)
  polls : List (Polled α)

def start (canceler : Canceler) : State σ C α where
  canceler := canceler
  guard := canceler.new
  gone := false
  channels := fun _ => .waiting
  next := 0
  cancelables := []
  polls := []

inductive Action (σ E C : Type*) where
  /-- `inner.cancelable(guard, on_cancel)`. -/
  | cancelable (inner : σ) (on_cancel : C)
  /-- The same with a handle of the guard. -/
  | cancelableByHandle (inner : σ) (on_cancel : C)
  | poll (k : Nat)
  /-- A step of what an inner one waits for. -/
  | wake (k : Nat) (e : E)
  /-- The guard is cancelled or dropped. -/
  | cancel
  deriving DecidableEq

namespace State

/-- `cancelable` after the sender was registered. -/
def register (s : State σ C α) (inner : σ) (on_cancel : C) (guard : Option CancelGuard)
    (channels : Nat → Channel Unit) : State σ C α :=
  { s with
    guard, channels
    next := s.next + 1
    cancelables := s.cancelables ++ [⟨inner, some s.next, on_cancel⟩] }

/-- A `CancelGuard` that is gone cannot be used, and a `DummyCancelGuard` has no handles. -/
def step (P : Pollable σ E C α) (s : State σ C α) : Action σ E C → Option (State σ C α)
  | .cancelable inner on_cancel =>
    match s.canceler with
    | .cancelGuard =>
      s.guard.map fun guard => s.register inner on_cancel (some (guard.addCancelSender s.next)) s.channels
    | .sharedCancelGuard =>
      let (guard, channels) := SharedCancelGuard.addCancelSender s.guard s.next s.channels
      some (s.register inner on_cancel guard channels)
    | .dummyCancelGuard =>
      some (s.register inner on_cancel s.guard (DummyCancelGuard.addCancelSender s.next s.channels))
  | .cancelableByHandle inner on_cancel =>
    match s.canceler with
    | .cancelGuard | .sharedCancelGuard =>
      let (guard, channels) := CancelHandle.addCancelSender s.guard s.next s.channels
      some (s.register inner on_cancel guard channels)
    | .dummyCancelGuard => none
  | .poll k =>
    s.cancelables[k]?.map fun c =>
      let (answer, c) := c.poll P s.channels
      { s with cancelables := s.cancelables.set k c, polls := s.polls ++ [⟨k, s.gone, answer⟩] }
  | .wake k e =>
    s.cancelables[k]?.map fun c =>
      { s with cancelables := s.cancelables.set k { c with inner := P.act e c.inner } }
  | .cancel =>
    some { s with
      guard := none
      gone := true
      channels :=
        match s.guard with
        | some guard => guard.drop s.channels
        | none => s.channels }

/-! ### What a step can do -/

/-- How the sender of a new receiver ends: with a guard that lives, or resolved at once. -/
inductive Registers (s : State σ C α) : Option CancelGuard → (Nat → Channel Unit) → Prop
  | kept {guard : CancelGuard} (hguard : s.guard = some guard) :
    Registers s (some (guard.addCancelSender s.next)) s.channels
  | resolved {channel : Channel Unit} (hresolved : channel ≠ .waiting)
    (hcanceler : s.guard = none ∨ s.canceler = .dummyCancelGuard) :
    Registers s s.guard (Function.update s.channels s.next channel)

inductive Stepped (P : Pollable σ E C α) (s : State σ C α) : Action σ E C → State σ C α → Prop
  | cancelable (inner : σ) (on_cancel : C) {guard : Option CancelGuard} {channels : Nat → Channel Unit}
    (h : Registers s guard channels) :
    Stepped P s (.cancelable inner on_cancel) (s.register inner on_cancel guard channels)
  | cancelableByHandle (inner : σ) (on_cancel : C) {guard : Option CancelGuard} {channels : Nat → Channel Unit}
    (h : Registers s guard channels) :
    Stepped P s (.cancelableByHandle inner on_cancel) (s.register inner on_cancel guard channels)
  | poll {k : Nat} {c : Cancelable σ C} (hc : s.cancelables[k]? = some c) :
    Stepped P s (.poll k) { s with
      cancelables := s.cancelables.set k (c.poll P s.channels).2
      polls := s.polls ++ [⟨k, s.gone, (c.poll P s.channels).1⟩] }
  | wake {k : Nat} (e : E) {c : Cancelable σ C} (hc : s.cancelables[k]? = some c) :
    Stepped P s (.wake k e) { s with cancelables := s.cancelables.set k { c with inner := P.act e c.inner } }
  | cancel {channels : Nat → Channel Unit}
    (hdrop : ∀ guard, s.guard = some guard → channels = guard.drop s.channels)
    (hkeep : s.guard = none → channels = s.channels) :
    Stepped P s .cancel { s with guard := none, gone := true, channels }

theorem addOrDrop_registers (s : State σ C α) :
    Registers s (addOrDrop s.guard s.next s.channels).1 (addOrDrop s.guard s.next s.channels).2 := by
  cases hguard : s.guard with
  | some guard => exact .kept hguard
  | none =>
    have hresolved := Registers.resolved (s := s) (Channel.dropSender_ne_waiting (s.channels s.next)) (.inl hguard)
    rwa [hguard] at hresolved

theorem stepped_of_step {P : Pollable σ E C α} {s t : State σ C α} {a : Action σ E C}
    (h : s.step P a = some t) : Stepped P s a t := by
  cases a with
  | cancelable inner on_cancel =>
    cases hcanceler : s.canceler with
    | cancelGuard =>
      simp only [step, hcanceler, Option.map_eq_some_iff] at h
      obtain ⟨guard, hguard, rfl⟩ := h
      exact .cancelable inner on_cancel (.kept hguard)
    | sharedCancelGuard =>
      simp only [step, hcanceler, Option.some.injEq] at h
      subst h
      exact .cancelable inner on_cancel (addOrDrop_registers s)
    | dummyCancelGuard =>
      simp only [step, hcanceler, Option.some.injEq] at h
      subst h
      exact .cancelable inner on_cancel (.resolved (Channel.send_ne_waiting () _) (.inr hcanceler))
  | cancelableByHandle inner on_cancel =>
    cases hcanceler : s.canceler with
    | cancelGuard | sharedCancelGuard =>
      simp only [step, hcanceler, Option.some.injEq] at h
      subst h
      exact .cancelableByHandle inner on_cancel (addOrDrop_registers s)
    | dummyCancelGuard => simp [step, hcanceler] at h
  | poll k =>
    simp only [step, Option.map_eq_some_iff] at h
    obtain ⟨c, hc, rfl⟩ := h
    exact .poll hc
  | wake k e =>
    simp only [step, Option.map_eq_some_iff] at h
    obtain ⟨c, hc, rfl⟩ := h
    exact .wake e hc
  | cancel =>
    simp only [step, Option.some.injEq] at h
    subst h
    refine .cancel (fun guard hguard => ?_) (fun hguard => ?_)
    · rw [hguard]
    · rw [hguard]

/-! ### Cancellation is final -/

/-- No poll returned an item of the inner stream after the guard was gone. -/
def Final (s : State σ C (Poll (Option Item))) : Prop :=
  ∀ e ∈ s.polls, e.gone = true → ∀ item, e.answer ≠ .inner (.ready (some item))

/-- A poll after the guard was gone finds no item in the inner stream if the receiver has resolved. -/
def NotReported (P : Pollable σ E C (Poll (Option Item))) (s : State σ C (Poll (Option Item))) :
    Action σ E C → Prop
  | .poll k => s.gone = true → ∀ c ∈ s.cancelables[k]?, c.cancel_receiver = none →
    ∀ item, (P.poll c.inner).1 ≠ .ready (some item)
  | _ => True

instance : ∀ polled : Poll (Option Item), Decidable (∀ item, polled ≠ .ready (some item))
  | .ready (some item) => isFalse fun h => h item rfl
  | .ready none | .pending => isTrue (by simp)

instance (P : Pollable σ E C (Poll (Option Item))) (s : State σ C (Poll (Option Item))) :
    ∀ a, Decidable (s.NotReported P a)
  | .poll _ => inferInstanceAs (Decidable (_ → _))
  | .cancelable .. | .cancelableByHandle .. | .wake .. | .cancel => isTrue trivial

/-- A receiver that waits is one of those that the guard will cancel. -/
structure Guards (s : State σ C α) : Prop where
  waiting : ∀ c ∈ s.cancelables, ∀ receiver, c.cancel_receiver = some receiver →
    s.channels receiver = .waiting → ∃ guard, s.guard = some guard ∧ receiver ∈ guard.cancel_senders
  gone : s.gone = true → s.guard = none

theorem Registers.guards {s : State σ C α} {guard : Option CancelGuard} {channels : Nat → Channel Unit}
    (h : Registers s guard channels) (hs : s.Guards) (inner : σ) (on_cancel : C) :
    (s.register inner on_cancel guard channels).Guards := by
  cases h with
  | @kept guard hguard =>
    refine ⟨fun c hc receiver hreceiver hwaiting => ⟨_, rfl, ?_⟩, fun hgone => ?_⟩
    · rcases List.mem_append.mp hc with hc | hc
      · obtain ⟨guard', hguard', hmem⟩ := hs.waiting c hc receiver hreceiver hwaiting
        obtain rfl : guard = guard' := Option.some.inj (hguard.symm.trans hguard')
        exact List.mem_append_left _ hmem
      · obtain rfl := List.mem_singleton.mp hc
        obtain rfl : s.next = receiver := Option.some.inj hreceiver
        exact List.mem_append_right _ (List.mem_singleton_self _)
    · exact absurd (hs.gone hgone) (by simp [hguard])
  | resolved hresolved _ =>
    refine ⟨fun c hc receiver hreceiver hwaiting => ?_, hs.gone⟩
    -- the new receiver does not wait, so this is an older one
    have hne : receiver ≠ s.next := by
      rintro rfl
      exact hresolved (by simpa [register] using hwaiting)
    rcases List.mem_append.mp hc with hc | hc
    · exact hs.waiting c hc receiver hreceiver (by simpa [register, hne] using hwaiting)
    · obtain rfl := List.mem_singleton.mp hc
      exact absurd (Option.some.inj hreceiver).symm hne

theorem Guards.set {s : State σ C α} (hs : s.Guards) {k : Nat} {c c' : Cancelable σ C}
    (hc : s.cancelables[k]? = some c)
    (hreceiver : ∀ receiver, c'.cancel_receiver = some receiver → c.cancel_receiver = some receiver)
    (polls : List (Polled α)) : Guards { s with cancelables := s.cancelables.set k c', polls } where
  waiting d hd receiver hd' := by
    rcases List.mem_or_eq_of_mem_set hd with hd | rfl
    · exact hs.waiting d hd receiver hd'
    · exact hs.waiting c (List.mem_of_getElem? hc) receiver (hreceiver receiver hd')
  gone := hs.gone

theorem step_guards {P : Pollable σ E C α} {s t : State σ C α} {a : Action σ E C} (hs : s.Guards)
    (h : s.step P a = some t) : t.Guards := by
  cases stepped_of_step h with
  | cancelable inner on_cancel hreg | cancelableByHandle inner on_cancel hreg =>
    exact hreg.guards hs inner on_cancel
  | poll hc => exact hs.set hc (fun _ h => fusedPoll_snd (by rwa [← Cancelable.poll_receiver P])) _
  | wake e hc =>
    refine hs.set hc (fun _ h => ?_) s.polls
    exact h
  | cancel hdrop hkeep =>
    refine ⟨fun c hc receiver hreceiver hwaiting => ?_, fun _ => rfl⟩
    exfalso
    cases hguard : s.guard with
    | none =>
      simp only [hkeep hguard] at hwaiting
      obtain ⟨guard, hguard', -⟩ := hs.waiting c hc receiver hreceiver hwaiting
      simp [hguard] at hguard'
    | some guard =>
      simp only [hdrop guard hguard] at hwaiting
      obtain ⟨hnot, hwaiting⟩ := CancelGuard.drop_waiting hwaiting
      obtain ⟨guard', hguard', hmem⟩ := hs.waiting c hc receiver hreceiver hwaiting
      obtain rfl : guard = guard' := Option.some.inj (hguard.symm.trans hguard')
      exact hnot hmem

theorem start_guards (canceler : Canceler) : (start canceler : State σ C α).Guards :=
  ⟨fun c hc => by simp [start] at hc, fun h => by simp [start] at h⟩

/-- After the guard is gone, a receiver reports it or has resolved. -/
theorem Guards.poll_inner {P : Pollable σ E C α} {s : State σ C α} (hs : s.Guards) (hgone : s.gone = true)
    {c : Cancelable σ C} (hc : c ∈ s.cancelables) {a : α} (h : (c.poll P s.channels).1 = .inner a) :
    c.cancel_receiver = none := by
  cases hreceiver : c.cancel_receiver with
  | none => rfl
  | some receiver =>
    have hresolved : s.channels receiver ≠ .waiting := fun hwaiting => by
      obtain ⟨guard, hguard, -⟩ := hs.waiting c hc receiver hreceiver hwaiting
      simp [hs.gone hgone] at hguard
    exact absurd h (Cancelable.poll_resolved P hreceiver hresolved a)

theorem step_final {P : Pollable σ E C (Poll (Option Item))} {s t : State σ C (Poll (Option Item))}
    {a : Action σ E C} (hs : s.Guards) (hfinal : s.Final) (ha : s.NotReported P a) (h : s.step P a = some t) :
    t.Final := by
  cases stepped_of_step h with
  | cancelable | cancelableByHandle | wake | cancel => exact hfinal
  | @poll k c hc =>
    intro e he hgone item hanswer
    rcases List.mem_append.mp he with he | he
    · exact hfinal e he hgone item hanswer
    · obtain rfl := List.mem_singleton.mp he
      have hnone := hs.poll_inner hgone (List.mem_of_getElem? hc) hanswer
      have hpoll := Cancelable.poll_none P s.channels hnone
      rw [hpoll] at hanswer
      exact ha hgone c hc hnone item (Answer.inner.inj hanswer)

theorem step_not_final {P : Pollable σ E C (Poll (Option Item))} {s t : State σ C (Poll (Option Item))}
    {a : Action σ E C} (ha : ¬ s.NotReported P a) (h : s.step P a = some t) : ¬ t.Final := by
  cases stepped_of_step h with
  | cancelable | cancelableByHandle | wake | cancel => exact absurd trivial ha
  | @poll k c hc =>
    simp only [NotReported, not_forall, not_not] at ha
    obtain ⟨hgone, c', hc', hnone, item, hitem⟩ := ha
    obtain rfl : c = c' := Option.some.inj (hc.symm.trans hc')
    intro hfinal
    refine hfinal _ (List.mem_append_right _ (List.mem_singleton_self _)) hgone item ?_
    rw [Cancelable.poll_none P s.channels hnone, hitem]

end State

/-- In a run no poll returns an item of the inner stream after the guard was gone, exactly when no poll
after it comes to a resolved receiver while the inner stream has an item. -/
theorem final_iff (poll_next : σ → Poll (Option Item) × σ) (act : E → σ → σ) (canceler : Canceler)
    {actions : List (Action σ E Item)} {t : State σ Item (Poll (Option Item))}
    (hrun : Machine.exec (State.step (stream poll_next act)) (start canceler) actions = some t) :
    Machine.Always (State.step (stream poll_next act)) State.Final (start canceler) actions ↔
      Machine.Guarded (State.step (stream poll_next act)) (State.NotReported (stream poll_next act))
        (start canceler) actions := by
  refine Machine.guarded_iff_always (I := fun s => s.Guards ∧ s.Final)
    (fun s a t hs ha ht => ⟨State.step_guards hs.1 ht, State.step_final hs.1 hs.2 ha ht⟩) (fun s hs => hs.2)
    (fun s a t _ ha ht => State.step_not_final ha ht) ⟨State.start_guards canceler, ?_⟩ hrun
  intro e he
  simp [start] at he

/-- A stream of queued items. -/
def queue : Pollable (List Nat) Nat Nat (Poll (Option Nat)) :=
  stream (fun | [] => (.pending, []) | item :: items => (.ready (some item), items))
    (fun item items => items ++ [item])

theorem item_after_cancel : ∃ t, Machine.exec (State.step queue) (start .cancelGuard)
    [.cancelable [7] 0, .cancel, .poll 0, .poll 0] = some t ∧
    t.polls = [⟨0, true, .canceled (.ready (some 0))⟩, ⟨0, true, .inner (.ready (some 7))⟩] ∧
      ¬ t.Final := by
  refine ⟨_, rfl, rfl, fun h => ?_⟩
  exact h ⟨0, true, .inner (.ready (some 7))⟩ (by decide) rfl 7 rfl

/-- The stream is drained before the cancellation, so after it only `on_cancel` gives an item. -/
theorem drained_final : Machine.Always (State.step queue) State.Final (start .cancelGuard)
    [.cancelable [7] 0, .poll 0, .cancel, .poll 0, .poll 0] :=
  (final_iff _ _ .cancelGuard rfl).mpr (by decide)

namespace State

/-- A receiver that has resolved was found so by a poll. -/
def Reported (s : State σ C α) : Prop :=
  ∀ k c, s.cancelables[k]? = some c → c.cancel_receiver = none →
    ∃ e ∈ s.polls, e.cancelable = k ∧ ∀ a, e.answer ≠ .inner a

/-- A future is not polled again after it was ready, or after the panic of `unreachable!`. -/
def PolledUntilReady (s : State σ C (Poll Output)) : Action σ E C → Prop
  | .poll k => ∀ e ∈ s.polls, e.cancelable = k → e.answer = .inner .pending
  | _ => True

theorem eq_or_getElem?_of_set {β : Type*} {xs : List β} {i j : Nat} {x y : β} (h : (xs.set i x)[j]? = some y) :
    (i = j ∧ x = y) ∨ xs[j]? = some y := by
  by_cases hij : i = j
  · subst hij
    have hlt : i < xs.length := by simpa using (List.getElem?_eq_some_iff.mp h).1
    exact Or.inl ⟨rfl, Option.some.inj ((List.getElem?_set_self hlt).symm.trans h)⟩
  · exact Or.inr (by rwa [List.getElem?_set_ne hij] at h)

theorem step_reported {P : Pollable σ E C α} {s t : State σ C α} {a : Action σ E C} (hs : s.Reported)
    (h : s.step P a = some t) : t.Reported := by
  cases stepped_of_step h with
  | cancelable inner on_cancel | cancelableByHandle inner on_cancel =>
    intro k c hk hnone
    simp only [register, List.getElem?_append] at hk
    split at hk
    · exact hs k c hk hnone
    · obtain rfl := List.mem_singleton.mp (List.mem_of_getElem? hk)
      cases hnone
  | @poll k c hc =>
    intro k' c' hk' hnone
    rcases eq_or_getElem?_of_set hk' with ⟨rfl, rfl⟩ | hk'
    · cases hreceiver : c.cancel_receiver with
      | none =>
        obtain ⟨e, he, heq⟩ := hs k c hc hreceiver
        exact ⟨e, List.mem_append_left _ he, heq⟩
      | some receiver =>
        by_cases hwaiting : s.channels receiver = .waiting
        · rw [Cancelable.poll_receiver, hreceiver, fusedPoll_waiting hwaiting] at hnone
          cases hnone
        · exact ⟨_, List.mem_append_right _ (List.mem_singleton_self _), rfl,
            Cancelable.poll_resolved P hreceiver hwaiting⟩
    · obtain ⟨e, he, heq⟩ := hs k' c' hk' hnone
      exact ⟨e, List.mem_append_left _ he, heq⟩
  | @wake k e c hc =>
    intro k' c' hk' hnone
    rcases eq_or_getElem?_of_set hk' with ⟨rfl, rfl⟩ | hk'
    · exact hs k c hc hnone
    · exact hs k' c' hk' hnone
  | cancel => exact hs

/-- No poll after the guard was gone is one of the inner future. -/
def Silent (s : State σ C α) : Prop := ∀ e ∈ s.polls, e.gone = true → ∀ a, e.answer ≠ .inner a

theorem step_silent {P : Pollable σ E C (Poll Output)} {s t : State σ C (Poll Output)} {a : Action σ E C}
    (hs : s.Guards) (hreported : s.Reported) (hsilent : s.Silent) (ha : s.PolledUntilReady a)
    (h : s.step P a = some t) : t.Silent := by
  cases stepped_of_step h with
  | cancelable | cancelableByHandle | wake | cancel => exact hsilent
  | @poll k c hc =>
    intro e he hgone a hanswer
    rcases List.mem_append.mp he with he | he
    · exact hsilent e he hgone a hanswer
    · obtain rfl := List.mem_singleton.mp he
      have hnone := hs.poll_inner hgone (List.mem_of_getElem? hc) hanswer
      obtain ⟨e, he, hk, hne⟩ := hreported k c hc hnone
      exact hne _ (ha e he hk)

end State

/-- Futures that are polled until they are ready or panic, as futures may be, do not run after the guard was
gone, where no method of a handle is under way. -/
theorem future_silent {poll : σ → Poll Output × σ} {act : E → σ → σ} {canceler : Canceler}
    {actions : List (Action σ E Output)}
    (hpolls : Machine.Guarded (State.step (future poll act)) State.PolledUntilReady (start canceler) actions) :
    Machine.Always (State.step (future poll act)) State.Silent (start canceler) actions := by
  have hstart : (start canceler : State σ Output (Poll Output)).Reported := fun k c hk => by simp [start] at hk
  refine (Machine.always_of_guarded (I := fun s => s.Guards ∧ s.Reported ∧ s.Silent) (fun s a t hs ha ht => ?_)
    ⟨State.start_guards canceler, hstart, fun e he => by simp [start] at he⟩ hpolls).mono fun s hs => hs.2.2
  exact ⟨State.step_guards hs.1 ht, State.step_reported hs.2.1 ht, State.step_silent hs.1 hs.2.1 hs.2.2 ha ht⟩

instance [DecidableEq Output] (s : State σ C (Poll Output)) :
    ∀ a : Action σ E C, Decidable (s.PolledUntilReady a)
  | .poll k => inferInstanceAs (Decidable (∀ e ∈ s.polls, e.cancelable = k → e.answer = .inner .pending))
  | .cancelable _ _ | .cancelableByHandle _ _ | .wake _ _ | .cancel => isTrue trivial

/-- A future that is ready after some polls. -/
def countdown (polls : Nat) : Poll Nat × Nat := if polls = 0 then (.ready 0, 0) else (.pending, polls - 1)

/-- The guard is gone between the polls. -/
theorem countdown_silent : Machine.Always (State.step (future countdown fun (_ : Nat) polls => polls)) State.Silent
    (start .cancelGuard) [.cancelable 2 9, .poll 0, .cancel, .poll 0] :=
  future_silent (by decide)

/-! ### Transparency -/

/-- The inner futures or streams by themselves, with what their polls returned. -/
structure Plain (σ α : Type*) where
  inners : List σ
  polls : List (Nat × α)

def Plain.step (P : Pollable σ E C α) (p : Plain σ α) : Action σ E C → Option (Plain σ α)
  | .cancelable inner _ | .cancelableByHandle inner _ => some { p with inners := p.inners ++ [inner] }
  | .poll k => p.inners[k]?.map fun inner =>
    { inners := p.inners.set k (P.poll inner).2, polls := p.polls ++ [(k, (P.poll inner).1)] }
  | .wake k e => p.inners[k]?.map fun inner => { p with inners := p.inners.set k (P.act e inner) }
  | .cancel => some p

namespace State

/-- Every poll was one of the inner future or stream, with its answer. -/
def Matches (s : State σ C α) (p : Plain σ α) : Prop :=
  s.cancelables.map (·.inner) = p.inners ∧
    s.polls.map (fun e => (e.cancelable, e.answer)) = p.polls.map fun e => (e.1, .inner e.2)

/-- A poll finds the receiver pending. -/
def Quiet (s : State σ C α) : Action σ E C → Prop
  | .poll k => ∀ c ∈ s.cancelables[k]?, fusedPoll s.channels c.cancel_receiver = (.pending, c.cancel_receiver)
  | _ => True

theorem step_matches {P : Pollable σ E C α} {s t : State σ C α} {p : Plain σ α} {a : Action σ E C}
    (hs : s.Matches p) (ha : s.Quiet a) (h : s.step P a = some t) :
    ∃ q, p.step P a = some q ∧ t.Matches q := by
  obtain ⟨hinners, hpolls⟩ := hs
  cases stepped_of_step h with
  | cancelable inner | cancelableByHandle inner =>
    exact ⟨_, rfl, by simp [register, hinners], hpolls⟩
  | @poll k c hc =>
    have hinner : p.inners[k]? = some c.inner := by simp [← hinners, hc]
    refine ⟨⟨p.inners.set k (P.poll c.inner).2, p.polls ++ [(k, (P.poll c.inner).1)]⟩, ?_, ?_, ?_⟩
    · simp [Plain.step, hinner]
    · simp [Cancelable.poll_pending P (ha c hc), List.map_set, hinners]
    · simp [Cancelable.poll_pending P (ha c hc), hpolls]
  | @wake k e c hc =>
    have hinner : p.inners[k]? = some c.inner := by simp [← hinners, hc]
    refine ⟨{ p with inners := p.inners.set k (P.act e c.inner) }, ?_, ?_, hpolls⟩
    · simp [Plain.step, hinner]
    · simp [List.map_set, hinners]
  | cancel => exact ⟨p, rfl, hinners, hpolls⟩

/-- A guard that lives keeps every sender, and no channel has resolved. -/
structure Live (s : State σ C α) : Prop where
  canceler : s.canceler ≠ .dummyCancelGuard
  guard : s.guard ≠ none
  channels : ∀ receiver, s.channels receiver = .waiting

theorem start_live : (start .cancelGuard : State σ C α).Live :=
  ⟨by simp [start], by simp [start, Canceler.new], fun _ => rfl⟩

theorem step_live {P : Pollable σ E C α} {s t : State σ C α} {a : Action σ E C} (hs : s.Live)
    (ha : a ≠ .cancel) (h : s.step P a = some t) : t.Live := by
  cases stepped_of_step h with
  | cancelable _ _ hreg | cancelableByHandle _ _ hreg =>
    cases hreg with
    | kept => exact ⟨hs.canceler, by simp [register], hs.channels⟩
    | resolved _ hcanceler => exact absurd hcanceler (by simp [hs.canceler, hs.guard])
  | poll | wake => exact ⟨hs.canceler, hs.guard, hs.channels⟩
  | cancel => exact absurd rfl ha

theorem Live.quiet {s : State σ C α} (hs : s.Live) (a : Action σ E C) : s.Quiet a := by
  cases a with
  | poll k =>
    intro c _
    cases c.cancel_receiver with
    | none => exact fusedPoll_none _
    | some receiver => exact fusedPoll_waiting (hs.channels receiver)
  | cancelable | cancelableByHandle | wake | cancel => trivial

/-- Without a guard every receiver has resolved before its first poll, and that poll returns no answer of
the inner one. -/
structure Resolves (s : State σ C α) : Prop where
  guard : s.guard = none
  polls : (s.polls = [] ∧ ∀ c ∈ s.cancelables, ∃ receiver, c.cancel_receiver = some receiver ∧
    s.channels receiver ≠ .waiting) ∨ ∃ e ∈ s.polls, ∀ a, e.answer ≠ .inner a

theorem Registers.resolves {s : State σ C α} {guard : Option CancelGuard} {channels : Nat → Channel Unit}
    (h : Registers s guard channels) (hs : s.Resolves) (inner : σ) (on_cancel : C) :
    (s.register inner on_cancel guard channels).Resolves := by
  cases h with
  | kept hguard => exact absurd hguard (by simp [hs.guard])
  | resolved hresolved _ =>
    refine ⟨hs.guard, hs.polls.imp_left fun ⟨hnone, hall⟩ => ⟨hnone, fun c hc => ?_⟩⟩
    rcases List.mem_append.mp hc with hc | hc
    · obtain ⟨receiver, hreceiver, hne⟩ := hall c hc
      refine ⟨receiver, hreceiver, ?_⟩
      by_cases hnew : receiver = s.next
      · simpa [register, hnew] using hresolved
      · simpa [register, hnew] using hne
    · obtain rfl := List.mem_singleton.mp hc
      exact ⟨s.next, rfl, by simpa [register] using hresolved⟩

theorem step_resolves {P : Pollable σ E C α} {s t : State σ C α} {a : Action σ E C} (hs : s.Resolves)
    (h : s.step P a = some t) : t.Resolves := by
  cases stepped_of_step h with
  | cancelable inner on_cancel hreg | cancelableByHandle inner on_cancel hreg =>
    exact hreg.resolves hs inner on_cancel
  | @poll k c hc =>
    refine ⟨hs.guard, Or.inr ?_⟩
    rcases hs.polls with ⟨_, hall⟩ | ⟨e, he, hne⟩
    · obtain ⟨receiver, hreceiver, hresolved⟩ := hall c (List.mem_of_getElem? hc)
      exact ⟨_, List.mem_append_right _ (List.mem_singleton_self _),
        Cancelable.poll_resolved P hreceiver hresolved⟩
    · exact ⟨e, List.mem_append_left _ he, hne⟩
  | @wake k e c hc =>
    refine ⟨hs.guard, hs.polls.imp_left fun ⟨hnone, hall⟩ => ⟨hnone, fun d hd => ?_⟩⟩
    rcases List.mem_or_eq_of_mem_set hd with hd | rfl
    · exact hall d hd
    · exact hall c (List.mem_of_getElem? hc)
  | cancel _ hkeep => exact ⟨rfl, by simpa only [hkeep hs.guard] using hs.polls⟩

theorem Matches.answers {s : State σ C α} {p : Plain σ α} (h : s.Matches p) :
    ∀ e ∈ s.polls, ∃ a, e.answer = .inner a := by
  intro e he
  have hmem : (e.cancelable, e.answer) ∈ p.polls.map fun e => (e.1, Answer.inner e.2) := by
    rw [← h.2]
    exact List.mem_map_of_mem he
  obtain ⟨⟨k, a⟩, _, heq⟩ := List.mem_map.mp hmem
  exact ⟨a, (congrArg Prod.snd heq).symm⟩

theorem step_polls {P : Pollable σ E C α} {s t : State σ C α} {a : Action σ E C} (h : s.step P a = some t) :
    s.polls <+: t.polls := by
  cases stepped_of_step h with
  | poll => exact List.prefix_append _ _
  | cancelable | cancelableByHandle | wake | cancel => exact List.prefix_refl _

theorem exec_polls {P : Pollable σ E C α} {s t : State σ C α} {actions : List (Action σ E C)} {k : Nat}
    (hk : .poll k ∈ actions) (hrun : Machine.exec (step P) s actions = some t) : t.polls ≠ [] := by
  obtain ⟨before, after, rfl⟩ := List.append_of_mem hk
  rw [Machine.exec_append, Option.bind_eq_some_iff] at hrun
  obtain ⟨u, -, hrun⟩ := hrun
  obtain ⟨v, hv, hrun⟩ := Machine.exec_cons_some (step P) hrun
  refine Machine.exec_invariant (I := fun s => s.polls ≠ []) (fun s a t hs ht hnil => ?_) ?_ hrun
  · exact hs (List.prefix_nil.mp (hnil ▸ step_polls ht))
  · cases stepped_of_step hv with
    | poll => simp

/-- The run returned from every poll what the inner futures or streams by themselves return. -/
def Transparent (P : Pollable σ E C α) (actions : List (Action σ E C)) (t : State σ C α) : Prop :=
  ∃ p, Machine.exec (Plain.step P) ⟨[], []⟩ actions = some p ∧ t.Matches p

theorem transparent_of_quiet {P : Pollable σ E C α} {canceler : Canceler} {actions : List (Action σ E C)}
    {t : State σ C α} (hquiet : Machine.Guarded (step P) Quiet (start canceler) actions)
    (hrun : Machine.exec (step P) (start canceler) actions = some t) : Transparent P actions t :=
  Machine.exec_lockstep (R := Matches) (fun _ _ _ _ hs ha ht => step_matches hs ha ht) ⟨rfl, rfl⟩ hquiet hrun

theorem transparent_iff_polls {P : Pollable σ E C α} {canceler : Canceler} {actions : List (Action σ E C)}
    {t : State σ C α} (hrun : Machine.exec (step P) (start canceler) actions = some t)
    (hcancel : canceler ≠ .dummyCancelGuard → .cancel ∉ actions) :
    Transparent P actions t ↔ canceler = .cancelGuard ∨ ∀ k, .poll k ∉ actions := by
  constructor
  · intro ⟨p, _, hmatches⟩
    by_contra hnot
    simp only [not_or, not_forall, not_not] at hnot
    obtain ⟨hcanceler, k, hk⟩ := hnot
    have hstart : (start canceler : State σ C α).Resolves := by
      refine ⟨?_, Or.inl ⟨rfl, fun c hc => by simp [start] at hc⟩⟩
      cases canceler with
      | cancelGuard => exact absurd rfl hcanceler
      | sharedCancelGuard | dummyCancelGuard => rfl
    have hresolves : t.Resolves := Machine.exec_invariant (fun _ _ _ => step_resolves) hstart hrun
    rcases hresolves.polls with ⟨hnil, _⟩ | ⟨e, he, hne⟩
    · exact exec_polls hk hrun hnil
    · obtain ⟨a, ha⟩ := hmatches.answers e he
      exact hne a ha
  · rintro (rfl | hpoll)
    · refine transparent_of_quiet (Machine.guarded_of_invariant (Q := (· ≠ .cancel)) ?_ ?_ start_live ?_) hrun
      · exact fun _ _ _ => step_live
      · exact fun _ a hs _ => hs.quiet a
      · rintro a ha rfl
        exact hcancel (by simp) ha
    · refine transparent_of_quiet
        (Machine.guarded_of_invariant (I := fun _ => True) (Q := fun a => ∀ k, a ≠ .poll k) ?_ ?_ trivial ?_) hrun
      · exact fun _ _ _ _ _ _ => trivial
      · intro _ a _ ha
        cases a with
        | poll k => exact absurd rfl (ha k)
        | cancelable | cancelableByHandle | wake | cancel => trivial
      · rintro _ ha k rfl
        exact hpoll k ha

end State

/-- The handles of a fresh guard do not report that it is cancelled; a `DummyCancelGuard` has no handles. -/
def Canceler.HandlesFresh (canceler : Canceler) : Prop :=
  canceler ≠ .dummyCancelGuard → CancelHandle.isCanceled canceler.new = false

theorem Canceler.handlesFresh_iff (canceler : Canceler) :
    canceler.HandlesFresh ↔ canceler ≠ .sharedCancelGuard := by
  cases canceler <;> simp [HandlesFresh, new, SharedCancelGuard.new, CancelHandle.isCanceled]

/-- In a run without a cancellation, or in any run with a `DummyCancelGuard`, every poll is transparent and
the handles of the fresh guard are not cancelled, exactly when the guard is a `CancelGuard`, or it is a
`DummyCancelGuard` and nothing is polled. -/
theorem transparent_iff (P : Pollable σ E C α) (canceler : Canceler) {actions : List (Action σ E C)}
    {t : State σ C α} (hrun : Machine.exec (State.step P) (start canceler) actions = some t)
    (hcancel : canceler ≠ .dummyCancelGuard → .cancel ∉ actions) :
    (State.Transparent P actions t ∧ canceler.HandlesFresh) ↔
      canceler = .cancelGuard ∨ (canceler = .dummyCancelGuard ∧ ∀ k, .poll k ∉ actions) := by
  rw [State.transparent_iff_polls hrun hcancel, canceler.handlesFresh_iff]
  cases canceler <;> simp

theorem fresh_guards_not_transparent :
    (∃ t, Machine.exec (State.step queue) (start .sharedCancelGuard) [.cancelable [7] 0, .poll 0] = some t ∧
      t.polls = [⟨0, false, .canceled (.ready (some 0))⟩] ∧
      ¬ State.Transparent queue [.cancelable [7] 0, .poll 0] t) ∧
    (∃ t, Machine.exec (State.step queue) (start .dummyCancelGuard) [.cancelable [7] 0, .poll 0] = some t ∧
      t.polls = [⟨0, false, .unreachable⟩] ∧ ¬ State.Transparent queue [.cancelable [7] 0, .poll 0] t) ∧
    ¬ Canceler.sharedCancelGuard.HandlesFresh := by
  refine ⟨⟨_, rfl, rfl, ?_⟩, ⟨_, rfl, rfl, ?_⟩, ?_⟩
  · rintro ⟨p, _, hmatches⟩
    obtain ⟨a, ha⟩ := hmatches.answers ⟨0, false, .canceled (.ready (some 0))⟩ (by decide)
    cases ha
  · rintro ⟨p, _, hmatches⟩
    obtain ⟨a, ha⟩ := hmatches.answers ⟨0, false, .unreachable⟩ (by decide)
    cases ha
  · intro h
    cases h (by decide)

/-- Two polls of a stream that a handle of the guard made cancelable. -/
theorem handle_transparent : ∃ t, Machine.exec (State.step queue) (start .cancelGuard)
    [.cancelableByHandle [7] 0, .poll 0, .wake 0 8, .poll 0] = some t ∧
    State.Transparent queue [.cancelableByHandle [7] 0, .poll 0, .wake 0 8, .poll 0] t ∧
    Canceler.cancelGuard.HandlesFresh :=
  ⟨_, rfl, (transparent_iff queue .cancelGuard rfl (by decide)).mpr (Or.inl rfl)⟩

end Futures
