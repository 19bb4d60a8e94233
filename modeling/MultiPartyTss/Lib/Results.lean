import Mathlib.Data.List.Forall2

/-!
# Collected results

The values and the errors of a list of results, each in order.
-/

namespace Results

variable {ε α : Type*}

def oks (results : List (Except ε α)) : List α :=
  results.filterMap fun r => match r with | .ok a => some a | .error _ => none

def errors (results : List (Except ε α)) : List ε :=
  results.filterMap fun r => match r with | .ok _ => none | .error e => some e

@[simp] theorem oks_nil : oks ([] : List (Except ε α)) = [] := rfl

@[simp] theorem errors_nil : errors ([] : List (Except ε α)) = [] := rfl

@[simp] theorem oks_ok (a : α) (results : List (Except ε α)) : oks (.ok a :: results) = a :: oks results := rfl

@[simp] theorem oks_error (e : ε) (results : List (Except ε α)) : oks (.error e :: results) = oks results := rfl

@[simp] theorem errors_ok (a : α) (results : List (Except ε α)) : errors (.ok a :: results) = errors results :=
  rfl

@[simp] theorem errors_error (e : ε) (results : List (Except ε α)) :
    errors (.error e :: results) = e :: errors results := rfl

theorem errors_eq_nil_iff (results : List (Except ε α)) :
    errors results = [] ↔ ∀ r ∈ results, ∃ a, r = .ok a := by
  induction results with
  | nil => simp
  | cons r results ih => cases r <;> simp [ih]

/-- Without errors, the results are the values. -/
theorem eq_map_oks {results : List (Except ε α)} (h : errors results = []) :
    results = (oks results).map .ok := by
  induction results with
  | nil => rfl
  | cons r results ih =>
    cases r with
    | error e => cases h
    | ok a => rw [oks_ok, List.map_cons, ← ih h]

theorem mem_oks_iff {a : α} {results : List (Except ε α)} : a ∈ oks results ↔ .ok a ∈ results := by
  induction results with
  | nil => simp
  | cons r results ih => cases r <;> simp [ih]

/-- Without errors, each call has its value. -/
theorem forall₂_oks {β : Type*} {f : β → Except ε α} {calls : List β} (h : errors (calls.map f) = []) :
    List.Forall₂ (fun call a => f call = .ok a) calls (oks (calls.map f)) := by
  induction calls with
  | nil => exact List.Forall₂.nil
  | cons call calls ih =>
    rw [List.map_cons] at h ⊢
    cases hcall : f call with
    | error e =>
      rw [hcall] at h
      cases h
    | ok a =>
      rw [hcall] at h
      exact List.Forall₂.cons hcall (ih h)

theorem exists_of_forall₂ {β : Type*} {R : α → β → Prop} {xs : List α} {ys : List β}
    (h : List.Forall₂ R xs ys) {x : α} (hx : x ∈ xs) : ∃ y, R x y := by
  induction h with
  | nil => cases hx
  | cons hxy _ ih =>
    rcases List.mem_cons.mp hx with rfl | hx
    · exact ⟨_, hxy⟩
    · exact ih hx

end Results
