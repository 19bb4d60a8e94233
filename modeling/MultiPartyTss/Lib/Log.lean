import MultiPartyTss.Lib.Run

/-!
# An append-only log and its readers

What a broadcast room is for: messages are appended to a log, and each reader that opened at `start`
receives the entries `start, start + 1, …` with their positions, one by one and without gaps.

`window log start m` is what such a reader has received after `m` deliveries. `exec_delivered` says that
in every run of the abstract machine each reader has received a window of the present log.
-/

namespace Log

variable {α : Type*}

/-- The entries at positions `start, …, start + m - 1`, each with its position. -/
def window (log : List α) (start m : Nat) : List (Nat × α) :=
  (List.range' start m).filterMap fun i => log[i]?.map fun x => (i, x)

@[simp] theorem window_zero (log : List α) (start : Nat) : window log start 0 = [] := rfl

theorem window_succ {log : List α} {start m : Nat} {x : α} (hx : log[start + m]? = some x) :
    window log start (m + 1) = window log start m ++ [(start + m, x)] := by
  simp [window, List.range'_concat, List.filterMap_append, hx]

theorem length_window_le (log : List α) (start m : Nat) : (window log start m).length ≤ m := by
  have hle := List.length_filterMap_le (fun i => log[i]?.map fun x => (i, x)) (List.range' start m)
  simpa [window] using hle

/-- A window of full length lies inside the log. -/
theorem window_inside {log : List α} {start m : Nat} (h : (window log start m).length = m)
    (hm : 0 < m) : start + m ≤ log.length := by
  induction m with
  | zero => omega
  | succ m ih =>
    have hle := length_window_le log start m
    by_contra hout
    have hnone : log[start + m]? = none := List.getElem?_eq_none (by omega)
    have hsame : window log start (m + 1) = window log start m := by
      simp [window, List.range'_concat, List.filterMap_append, hnone]
    rw [hsame] at h
    omega

theorem length_window {log : List α} {start m : Nat} (h : start + m ≤ log.length) :
    (window log start m).length = m := by
  induction m with
  | zero => rfl
  | succ m ih =>
    rw [window_succ (List.getElem?_eq_getElem (show start + m < log.length by omega)),
      List.length_append, ih (by omega), List.length_singleton]

theorem getElem?_window {log : List α} {start m i : Nat} {x : α} (hx : log[start + i]? = some x)
    (h : start + m ≤ log.length) (hi : i < m) : (window log start m)[i]? = some (start + i, x) := by
  induction m with
  | zero => omega
  | succ m ih =>
    have hlen : (window log start m).length = m := length_window (by omega)
    rw [window_succ (List.getElem?_eq_getElem (show start + m < log.length by omega))]
    by_cases hlt : i < m
    · rw [List.getElem?_append_left (by omega)]
      exact ih (by omega) hlt
    · have heq : i = m := by omega
      subst heq
      rw [List.getElem?_append_right (by omega), hlen, Nat.sub_self, List.getElem?_cons_zero]
      rw [List.getElem?_eq_getElem (show start + i < log.length by omega)] at hx
      rw [Option.some.inj hx]

/-- Appending keeps a window that lies inside the log. -/
theorem window_append (log more : List α) (start m : Nat) (h : m = 0 ∨ start + m ≤ log.length) :
    window (log ++ more) start m = window log start m := by
  unfold window
  refine List.filterMap_congr fun i hi => ?_
  rw [List.mem_range'_1] at hi
  rw [List.getElem?_append_left (by omega)]

/-- What a reader from `start` has received: the window as long as itself. -/
def Received (log : List α) (start : Nat) (out : List (Nat × α)) : Prop :=
  out = window log start out.length

theorem received_nil (log : List α) (start : Nat) : Received log start [] := rfl

theorem Received.inside {log : List α} {start : Nat} {out : List (Nat × α)}
    (h : Received log start out) : out.length = 0 ∨ start + out.length ≤ log.length := by
  rcases Nat.eq_zero_or_pos out.length with hzero | hpos
  · exact Or.inl hzero
  · exact Or.inr (window_inside (congrArg List.length h.symm) hpos)

theorem Received.append {log : List α} {start : Nat} {out : List (Nat × α)}
    (h : Received log start out) (more : List α) : Received (log ++ more) start out := by
  unfold Received
  rw [window_append log more start out.length h.inside]
  exact h

theorem Received.concat {log : List α} {start : Nat} {out : List (Nat × α)} {x : α}
    (h : Received log start out) (hx : log[start + out.length]? = some x) :
    Received log start (out ++ [(start + out.length, x)]) := by
  have hlen : (out ++ [(start + out.length, x)]).length = out.length + 1 := by simp
  unfold Received
  rw [hlen, window_succ hx, ← h]

/-- The `i`-th delivery is the entry at position `start + i`, with that position. -/
theorem Received.getElem? {log : List α} {start : Nat} {out : List (Nat × α)}
    (h : Received log start out) {i : Nat} (hi : i < out.length) :
    ∃ x, log[start + i]? = some x ∧ out[i]? = some (start + i, x) := by
  have hinside : start + out.length ≤ log.length := h.inside.resolve_left (by omega)
  obtain ⟨x, hx⟩ : ∃ x, log[start + i]? = some x :=
    ⟨_, List.getElem?_eq_getElem (show start + i < log.length by omega)⟩
  refine ⟨x, hx, ?_⟩
  unfold Received at h
  rw [h]
  exact getElem?_window hx hinside hi

/-! ### The abstract machine -/

/-- A reader: where it opened and what it has received. -/
structure Reader (α : Type*) where
  start : Nat
  out : List (Nat × α)

structure State (α : Type*) where
  log : List α
  reader : Nat → Option (Reader α)

inductive Action (α : Type*) where
  | append (x : α)
  | openAt (r start : Nat)
  | deliver (r : Nat)

def State.setReader (s : State α) (r : Nat) (reader : Reader α) : State α :=
  { s with reader := fun r' => if r' = r then some reader else s.reader r' }

def step (s : State α) : Action α → Option (State α)
  | .append x => some { s with log := s.log ++ [x] }
  | .openAt r start =>
    match s.reader r with
    | none => some (s.setReader r ⟨start, []⟩)
    | some _ => none
  | .deliver r =>
    match s.reader r with
    | some reader =>
      match s.log[reader.start + reader.out.length]? with
      | some x =>
        some (s.setReader r ⟨reader.start, reader.out ++ [(reader.start + reader.out.length, x)]⟩)
      | none => none
    | none => none

/-- Every reader has received a window of the log. -/
def Delivered (s : State α) : Prop :=
  ∀ r reader, s.reader r = some reader → Received s.log reader.start reader.out

theorem setReader_delivered {s : State α} (h : Delivered s) (r : Nat) {reader : Reader α}
    (hreader : Received s.log reader.start reader.out) : Delivered (s.setReader r reader) := by
  intro r' reader' hr'
  simp only [State.setReader] at hr'
  split_ifs at hr' with heq
  · cases hr'
    exact hreader
  · exact h r' reader' hr'

theorem step_delivered {s t : State α} {a : Action α} (h : Delivered s) (hstep : step s a = some t) :
    Delivered t := by
  cases a with
  | append x =>
    cases hstep
    exact fun r reader hr => (h r reader hr).append [x]
  | openAt r start =>
    cases hr : s.reader r with
    | none =>
      simp only [step, hr, Option.some.injEq] at hstep
      subst hstep
      exact setReader_delivered h r (received_nil s.log start)
    | some reader => simp [step, hr] at hstep
  | deliver r =>
    cases hr : s.reader r with
    | none => simp [step, hr] at hstep
    | some reader =>
      cases hx : s.log[reader.start + reader.out.length]? with
      | none => simp [step, hr, hx] at hstep
      | some x =>
        simp only [step, hr, hx, Option.some.injEq] at hstep
        subst hstep
        exact setReader_delivered h r ((h r reader hr).concat hx)

theorem exec_delivered {s t : State α} {as : List (Action α)} (h : Delivered s)
    (hrun : Machine.exec step s as = some t) : Delivered t :=
  Machine.exec_invariant (fun _ _ _ => step_delivered) h hrun

end Log
