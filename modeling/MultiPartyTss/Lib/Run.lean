import Mathlib.Data.List.Basic

/-!
# Runs of a partial step function

A concurrent program is given by a state type and a partial function `step : S → A → Option S`: the
action says which party moves and how its environment answers, and `none` says that the move is not
possible in this state. A schedule is a list of actions, and `exec` runs it.

* `Always Q s as`: `Q` holds in every state the schedule passes through.
* `Guarded P s as`: every action of the schedule meets `P` in the state it is taken in.

`always_of_guarded` is the induction over runs: what the guarded steps keep holds throughout.
`guarded_iff_always` adds the converse when every unguarded step breaks `Q` at once, so that the guard
is exactly the condition for `Q`. `exec_simulation` transfers runs along a simulation, and
`exec_lockstep` the same actions.
-/

namespace Machine

variable {S A : Type*} (step : S → A → Option S)

/-- The state at the end of a schedule, if each of its actions is possible in turn. -/
def exec (s : S) : List A → Option S
  | [] => some s
  | a :: as => (step s a).bind fun t => exec t as

@[simp] theorem exec_nil (s : S) : exec step s [] = some s := rfl

@[simp] theorem exec_cons (s : S) (a : A) (as : List A) :
    exec step s (a :: as) = (step s a).bind fun t => exec step t as := rfl

theorem exec_cons_some {s t : S} {a : A} {as : List A} (h : exec step s (a :: as) = some t) :
    ∃ u, step s a = some u ∧ exec step u as = some t := by
  rw [exec_cons, Option.bind_eq_some_iff] at h
  exact h

theorem exec_append (s : S) (as bs : List A) :
    exec step s (as ++ bs) = (exec step s as).bind fun t => exec step t bs := by
  induction as generalizing s with
  | nil => rfl
  | cons a as ih =>
    rw [List.cons_append, exec_cons, exec_cons, Option.bind_assoc]
    exact congrArg _ (funext ih)

/-- `Q` holds in every state of the run. -/
def Always (Q : S → Prop) (s : S) : List A → Prop
  | [] => Q s
  | a :: as => Q s ∧ ∀ t, step s a = some t → Always Q t as

/-- Every action of the run meets `P` in the state it is taken in. -/
def Guarded (P : S → A → Prop) (s : S) : List A → Prop
  | [] => True
  | a :: as => P s a ∧ ∀ t, step s a = some t → Guarded P t as

instance Guarded.decidable {P : S → A → Prop} [∀ s a, Decidable (P s a)] :
    ∀ (s : S) (as : List A), Decidable (Guarded step P s as)
  | _, [] => isTrue trivial
  | s, a :: as =>
    match hs : step s a with
    | none => decidable_of_iff (P s a) (by simp [Guarded, hs])
    | some t =>
      have : Decidable (Guarded step P t as) := Guarded.decidable t as
      decidable_of_iff (P s a ∧ Guarded step P t as) (by simp [Guarded, hs])

variable {step}

theorem Always.head {Q : S → Prop} {s : S} {as : List A} (h : Always step Q s as) : Q s := by
  cases as with
  | nil => exact h
  | cons a as => exact h.1

/-- `Always` is a statement about the states that prefixes of the schedule reach. -/
theorem always_iff {Q : S → Prop} {s : S} {as : List A} :
    Always step Q s as ↔ ∀ bs t, bs <+: as → exec step s bs = some t → Q t := by
  induction as generalizing s with
  | nil =>
    simp only [Always, List.prefix_nil]
    constructor
    · rintro hq bs t rfl ht
      cases ht
      exact hq
    · intro h
      exact h [] s rfl rfl
  | cons a as ih =>
    simp only [Always]
    constructor
    · rintro ⟨hq, hrest⟩ bs t hpre ht
      cases bs with
      | nil =>
        cases ht
        exact hq
      | cons b bs =>
        obtain ⟨rfl, htail⟩ := List.cons_prefix_cons.mp hpre
        obtain ⟨u, hu, ht⟩ := exec_cons_some step ht
        exact ih.mp (hrest u hu) bs t htail ht
    · intro h
      refine ⟨h [] s List.nil_prefix rfl, fun t ht => ih.mpr fun bs u hpre hu => ?_⟩
      refine h (a :: bs) u (List.cons_prefix_cons.mpr ⟨rfl, hpre⟩) ?_
      rw [exec_cons, ht, Option.bind_some, hu]

theorem guarded_true (s : S) (as : List A) : Guarded step (fun _ _ => True) s as := by
  induction as generalizing s with
  | nil => trivial
  | cons a as ih => exact ⟨trivial, fun t _ => ih t⟩

/-- What the guarded steps keep holds in every state of a guarded run. -/
theorem always_of_guarded {I : S → Prop} {P : S → A → Prop}
    (hstep : ∀ s a t, I s → P s a → step s a = some t → I t) {s : S} {as : List A} (hs : I s)
    (hguard : Guarded step P s as) : Always step I s as := by
  induction as generalizing s with
  | nil => exact hs
  | cons a as ih =>
    obtain ⟨hp, hrest⟩ := hguard
    exact ⟨hs, fun t ht => ih (hstep s a t hs hp ht) (hrest t ht)⟩

theorem Always.mono {Q R : S → Prop} (hqr : ∀ s, Q s → R s) {s : S} {as : List A}
    (h : Always step Q s as) : Always step R s as := by
  rw [always_iff] at h ⊢
  exact fun bs t hpre ht => hqr t (h bs t hpre ht)

theorem Always.last {Q : S → Prop} {s t : S} {as : List A} (h : Always step Q s as)
    (ht : exec step s as = some t) : Q t :=
  always_iff.mp h as t (List.prefix_refl as) ht

/-- What every step keeps holds at the end of a run. -/
theorem exec_invariant {I : S → Prop} (hstep : ∀ s a t, I s → step s a = some t → I t) {s t : S}
    {as : List A} (hs : I s) (ht : exec step s as = some t) : I t :=
  (always_of_guarded (P := fun _ _ => True) (fun s a t hi _ => hstep s a t hi) hs
    (guarded_true s as)).last ht

/-- If the guarded steps keep `I`, `I` gives `Q`, and every unguarded step out of `I` breaks `Q`, then
`Q` holds throughout a run exactly when the run is guarded. -/
theorem guarded_iff_always {I Q : S → Prop} {P : S → A → Prop}
    (hstep : ∀ s a t, I s → P s a → step s a = some t → I t) (hq : ∀ s, I s → Q s)
    (hbreak : ∀ s a t, I s → ¬ P s a → step s a = some t → ¬ Q t) {s t : S} {as : List A} (hs : I s)
    (ht : exec step s as = some t) : Always step Q s as ↔ Guarded step P s as := by
  constructor
  · intro halways
    induction as generalizing s with
    | nil => trivial
    | cons a as ih =>
      obtain ⟨u, hu, hrest⟩ := exec_cons_some step ht
      have hp : P s a := by
        by_contra hp
        exact hbreak s a u hs hp hu (halways.2 u hu).head
      refine ⟨hp, fun v hv => ?_⟩
      rw [hu, Option.some.injEq] at hv
      subst hv
      exact ih (hstep s a u hs hp hu) hrest (halways.2 u hu)
  · intro hguard
    exact (always_of_guarded hstep hs hguard).mono hq

theorem Guarded.and_mem {P : S → A → Prop} {Q : A → Prop} {s : S} {as : List A}
    (hguard : Guarded step P s as) (hq : ∀ a ∈ as, Q a) : Guarded step (fun s a => P s a ∧ Q a) s as := by
  induction as generalizing s with
  | nil => trivial
  | cons a as ih =>
    exact ⟨⟨hguard.1, hq a List.mem_cons_self⟩,
      fun t ht => ih (hguard.2 t ht) fun b hb => hq b (List.mem_cons_of_mem a hb)⟩

/-- What the actions of a run keep holds at its end. -/
theorem exec_invariant_of_mem {I : S → Prop} {s t : S} {as : List A}
    (hstep : ∀ a ∈ as, ∀ s t, I s → step s a = some t → I t) (hs : I s) (ht : exec step s as = some t) : I t :=
  (always_of_guarded (P := fun _ a => True ∧ a ∈ as) (fun s a t hi hp => hstep a hp.2 s t hi) hs
    ((guarded_true s as).and_mem fun _ ha => ha)).last ht

/-- A guard that an invariant gives for the actions of a run. -/
theorem guarded_of_invariant {I : S → Prop} {P : S → A → Prop} {Q : A → Prop}
    (hstep : ∀ s a t, I s → Q a → step s a = some t → I t) (hp : ∀ s a, I s → Q a → P s a) {s : S}
    {as : List A} (hs : I s) (hq : ∀ a ∈ as, Q a) : Guarded step P s as := by
  induction as generalizing s with
  | nil => trivial
  | cons a as ih =>
    have ha := hq a List.mem_cons_self
    exact ⟨hp s a hs ha, fun t ht => ih (hstep s a t hs ha ht) fun b hb => hq b (List.mem_cons_of_mem a hb)⟩

/-- Two guards that agree where the invariant of one holds guard the same runs. -/
theorem guarded_iff_guarded {I : S → Prop} {P R : S → A → Prop}
    (hstep : ∀ s a t, I s → P s a → step s a = some t → I t) (hiff : ∀ s a, I s → (R s a ↔ P s a)) {s : S}
    {as : List A} (hs : I s) : Guarded step R s as ↔ Guarded step P s as := by
  induction as generalizing s with
  | nil => exact Iff.rfl
  | cons a as ih =>
    simp only [Guarded, hiff s a hs]
    exact and_congr_right fun hp => forall_congr' fun t => imp_congr_right fun ht => ih (hstep s a t hs hp ht)

/-- Two machines that agree on guarded steps have the same guarded runs. -/
theorem exec_eq_of_guarded {step' : S → A → Option S} {P : S → A → Prop}
    (heq : ∀ s a, P s a → step' s a = step s a) {s : S} {as : List A} (hguard : Guarded step P s as) :
    exec step' s as = exec step s as := by
  induction as generalizing s with
  | nil => rfl
  | cons a as ih =>
    rw [exec_cons, exec_cons, heq s a hguard.1]
    cases hs : step s a with
    | none => rfl
    | some t => exact ih (hguard.2 t hs)

/-- If every guarded step is possible, so is a guarded run. -/
theorem exec_some_of_guarded {P : S → A → Prop} (hstep : ∀ s a, P s a → ∃ t, step s a = some t) {s : S}
    {as : List A} (hguard : Guarded step P s as) : ∃ t, exec step s as = some t := by
  induction as generalizing s with
  | nil => exact ⟨s, rfl⟩
  | cons a as ih =>
    obtain ⟨t, ht⟩ := hstep s a hguard.1
    obtain ⟨u, hu⟩ := ih (hguard.2 t ht)
    exact ⟨u, by rw [exec_cons, ht, Option.bind_some, hu]⟩

/-- Two machines that take the same guarded steps from related states stay related. -/
theorem exec_lockstep {T : Type*} {astep : T → A → Option T} {R : S → T → Prop} {P : S → A → Prop}
    (hsim : ∀ s a s' t, R s t → P s a → step s a = some s' → ∃ t', astep t a = some t' ∧ R s' t')
    {s s' : S} {t : T} {as : List A} (hr : R s t) (hguard : Guarded step P s as)
    (hrun : exec step s as = some s') : ∃ t', exec astep t as = some t' ∧ R s' t' := by
  induction as generalizing s t with
  | nil =>
    cases hrun
    exact ⟨t, rfl, hr⟩
  | cons a as ih =>
    obtain ⟨hp, hgrest⟩ := hguard
    obtain ⟨u, hu, hrest⟩ := exec_cons_some step hrun
    obtain ⟨v, hv, hr'⟩ := hsim s a u t hr hp hu
    obtain ⟨t', ht', hr''⟩ := ih hr' (hgrest u hu) hrest
    exact ⟨t', by rw [exec_cons, hv, Option.bind_some, ht'], hr''⟩

/-- A forward simulation: every guarded concrete step is matched by a run of the abstract machine. -/
theorem exec_simulation {T B : Type*} {astep : T → B → Option T} {R : S → T → Prop}
    {P : S → A → Prop}
    (hsim : ∀ s a s' t, R s t → P s a → step s a = some s' →
      ∃ bs t', exec astep t bs = some t' ∧ R s' t')
    {s s' : S} {t : T} {as : List A} (hr : R s t) (hguard : Guarded step P s as)
    (hrun : exec step s as = some s') : ∃ bs t', exec astep t bs = some t' ∧ R s' t' := by
  induction as generalizing s t with
  | nil =>
    cases hrun
    exact ⟨[], t, rfl, hr⟩
  | cons a as ih =>
    obtain ⟨hp, hgrest⟩ := hguard
    obtain ⟨u, hu, hrest⟩ := exec_cons_some step hrun
    obtain ⟨bs, t', hbs, hr'⟩ := hsim s a u t hr hp hu
    obtain ⟨cs, t'', hcs, hr''⟩ := ih hr' (hgrest u hu) hrest
    refine ⟨bs ++ cs, t'', ?_, hr''⟩
    rw [exec_append, hbs, Option.bind_some, hcs]

end Machine
