import MultiPartyTss.Lib.Run

/-!
# Parts of a machine that do not interfere

An observer owns some actions of a machine with outputs. `purge` is a run without the actions of others, and
`observed` is what the observer sees of a run: its actions with their outputs. If the actions of others keep
a relation to the states of a second machine, and an own action is one of the second machine with the same
output, then the purged run is a run of the second machine in which the same is seen (`exec_purge`).
-/

namespace Machine

variable {S T A O : Type*}

section Definitions

variable (step : S → A → Option S) (own : S → A → Bool) (out : S → A → O)

def purge (s : S) : List A → List A
  | [] => []
  | a :: as =>
    match step s a with
    | some t => if own s a then a :: purge t as else purge t as
    | none => []

def observed (s : S) : List A → List (A × O)
  | [] => []
  | a :: as =>
    match step s a with
    | some t => if own s a then (a, out s a) :: observed t as else observed t as
    | none => []

variable {step} {own} {out} {s t : S} {a : A}

theorem purge_own (h : step s a = some t) (ha : own s a = true) (as : List A) :
    purge step own s (a :: as) = a :: purge step own t as := by
  simp [purge, h, ha]

theorem purge_other (h : step s a = some t) (ha : own s a = false) (as : List A) :
    purge step own s (a :: as) = purge step own t as := by
  simp [purge, h, ha]

theorem observed_own (h : step s a = some t) (ha : own s a = true) (as : List A) :
    observed step own out s (a :: as) = (a, out s a) :: observed step own out t as := by
  simp [observed, h, ha]

theorem observed_other (h : step s a = some t) (ha : own s a = false) (as : List A) :
    observed step own out s (a :: as) = observed step own out t as := by
  simp [observed, h, ha]

end Definitions

variable {step : S → A → Option S} {own : S → A → Bool} {out : S → A → O} {step' : T → A → Option T}
  {out' : T → A → O} {R : S → T → Prop}

theorem exec_purge
    (hown : ∀ s t a s', R s t → own s a = true → step s a = some s' →
      ∃ t', step' t a = some t' ∧ R s' t' ∧ out s a = out' t a)
    (hother : ∀ s t a s', R s t → own s a = false → step s a = some s' → R s' t)
    {s s' : S} {t : T} {as : List A} (hr : R s t) (hrun : exec step s as = some s') :
    ∃ t', exec step' t (purge step own s as) = some t' ∧ R s' t' ∧
      observed step own out s as = observed step' (fun _ _ => true) out' t (purge step own s as) := by
  induction as generalizing s t with
  | nil =>
    cases hrun
    exact ⟨t, rfl, hr, rfl⟩
  | cons a as ih =>
    obtain ⟨u, hu, hrest⟩ := exec_cons_some step hrun
    cases ha : own s a with
    | true =>
      obtain ⟨v, hv, hr', hout⟩ := hown s t a u hr ha hu
      obtain ⟨t', ht', hr'', hobserved⟩ := ih hr' hrest
      refine ⟨t', ?_, hr'', ?_⟩
      · rw [purge_own hu ha, exec_cons, hv, Option.bind_some, ht']
      · rw [purge_own hu ha, observed_own hu ha, observed_own hv rfl, hobserved, hout]
    | false =>
      obtain ⟨t', ht', hr'', hobserved⟩ := ih (hother s t a u hr ha hu) hrest
      refine ⟨t', ?_, hr'', ?_⟩
      · rw [purge_other hu ha, ht']
      · rw [purge_other hu ha, observed_other hu ha, hobserved]

end Machine
