import Mathlib.Data.List.MinMax
import Mathlib.Data.List.Nodup

/-!
# A table with a unique key and a serial number

Rows get the next number of a sequence, and are inserted afterwards unless a row with the same key is there.
Numbers are handed out before the rows are inserted, so a row may come after one with a higher number.
A query asks for the matching row with the least number (`first`). As rows are never changed, what a query
finds can only be replaced by a row with a lower number that was not there before (`first_of_subset`); what
is asked for by its key never is (`first_of_key`).
-/

structure Table (ρ : Type) where
  rows : List ρ
  last_id : Nat

namespace Table

variable {ρ κ : Type}

/-- The matching row that comes first in the order of the numbers. -/
def first (id : ρ → Nat) (p : ρ → Bool) (t : Table ρ) : Option ρ := (t.rows.filter p).argmin id

/-- On a conflict nothing is inserted; also the number of inserted rows. -/
def insertNew [DecidableEq κ] (key : ρ → κ) (r : ρ) (t : Table ρ) : Nat × Table ρ :=
  if key r ∈ t.rows.map key then (0, t) else (1, { t with rows := t.rows ++ [r] })

/-- The next number of the sequence. -/
def next (t : Table ρ) : Nat × Table ρ := (t.last_id + 1, { t with last_id := t.last_id + 1 })

structure Valid (id : ρ → Nat) (key : ρ → κ) (t : Table ρ) : Prop where
  ids : (t.rows.map id).Nodup
  keys : (t.rows.map key).Nodup
  ids_le : ∀ r ∈ t.rows, id r ≤ t.last_id

variable {id : ρ → Nat} {key : ρ → κ} {p : ρ → Bool} {t t' : Table ρ} {r r' : ρ}

theorem eq_of_id (h : Valid id key t) (hr : r ∈ t.rows) (hr' : r' ∈ t.rows) (heq : id r = id r') : r = r' :=
  List.inj_on_of_nodup_map h.ids hr hr' heq

theorem eq_of_key (h : Valid id key t) (hr : r ∈ t.rows) (hr' : r' ∈ t.rows) (heq : key r = key r') : r = r' :=
  List.inj_on_of_nodup_map h.keys hr hr' heq

theorem first_eq_none_iff : t.first id p = none ↔ ∀ r ∈ t.rows, p r = false := by
  simp [first]

theorem mem_of_first (h : t.first id p = some r) : r ∈ t.rows ∧ p r = true :=
  List.mem_filter.mp (List.argmin_mem h)

theorem id_le_of_first (h : t.first id p = some r) (hr' : r' ∈ t.rows) (hp : p r' = true) : id r ≤ id r' :=
  List.le_of_mem_argmin (List.mem_filter.mpr ⟨hr', hp⟩) h

theorem exists_first (id : ρ → Nat) (hr : r ∈ t.rows) (hp : p r = true) : ∃ r', t.first id p = some r' := by
  rw [← Option.ne_none_iff_exists']
  intro hnone
  rw [first_eq_none_iff.mp hnone r hr] at hp
  cases hp

/-- What a query finds in a larger table. -/
theorem first_of_subset (hvalid : Valid id key t') (hsub : t.rows ⊆ t'.rows) (h : t.first id p = some r) :
    ∃ r', t'.first id p = some r' ∧ (r' = r ∨ r' ∉ t.rows ∧ id r' < id r) := by
  obtain ⟨hr, hp⟩ := mem_of_first h
  obtain ⟨r', hr'⟩ := exists_first id (hsub hr) hp
  refine ⟨r', hr', ?_⟩
  obtain ⟨hmem, hp'⟩ := mem_of_first hr'
  have hle := id_le_of_first hr' (hsub hr) hp
  obtain heq | hlt := Nat.eq_or_lt_of_le hle
  · exact Or.inl (eq_of_id hvalid hmem (hsub hr) heq)
  · refine Or.inr ⟨fun hold => ?_, hlt⟩
    have hge := id_le_of_first h hold hp'
    omega

/-- Rows that match have one key. -/
theorem first_of_key (hvalid : Valid id key t') (hsub : t.rows ⊆ t'.rows)
    (hkey : ∀ r r', p r = true → p r' = true → key r = key r') (h : t.first id p = some r) :
    t'.first id p = some r := by
  obtain ⟨hr, hp⟩ := mem_of_first h
  obtain ⟨r', hr', -⟩ := first_of_subset hvalid hsub h
  obtain ⟨hmem, hp'⟩ := mem_of_first hr'
  rw [hr', eq_of_key hvalid hmem (hsub hr) (hkey r' r hp' hp)]

theorem next_valid (h : Valid id key t) : Valid id key t.next.2 :=
  ⟨h.ids, h.keys, fun r hr => Nat.le_succ_of_le (h.ids_le r hr)⟩

section Insert

variable [DecidableEq κ]

theorem subset_insertNew : t.rows ⊆ (t.insertNew key r).2.rows := by
  unfold insertNew
  split_ifs
  · exact List.Subset.refl _
  · exact List.subset_append_left _ _

theorem insertNew_last_id : (t.insertNew key r).2.last_id = t.last_id := by
  unfold insertNew
  split_ifs <;> rfl

/-- The new row, or one with its key, is there. -/
theorem exists_insertNew (t : Table ρ) (key : ρ → κ) (r : ρ) :
    ∃ r' ∈ (t.insertNew key r).2.rows, key r' = key r := by
  unfold insertNew
  split_ifs with hmem
  · obtain ⟨r', hr', heq⟩ := List.mem_map.mp hmem
    exact ⟨r', hr', heq⟩
  · exact ⟨r, List.mem_append_right _ (List.mem_singleton_self r), rfl⟩

theorem mem_insertNew (h : r' ∈ (t.insertNew key r).2.rows) : r' ∈ t.rows ∨ r' = r := by
  unfold insertNew at h
  split_ifs at h
  · exact Or.inl h
  · rw [List.mem_append, List.mem_singleton] at h
    exact h

theorem insertNew_valid (h : Valid id key t) (hid : id r ≤ t.last_id) (hnew : ∀ r' ∈ t.rows, id r' ≠ id r) :
    Valid id key (t.insertNew key r).2 := by
  unfold insertNew
  split_ifs with hmem
  · exact h
  · refine ⟨?_, ?_, fun r' hr' => ?_⟩
    · rw [List.map_append, List.map_singleton, List.nodup_append]
      refine ⟨h.ids, List.nodup_singleton _, fun i hi j hj => ?_⟩
      obtain ⟨r', hr', rfl⟩ := List.mem_map.mp hi
      rw [List.mem_singleton.mp hj]
      exact hnew r' hr'
    · rw [List.map_append, List.map_singleton, List.nodup_append]
      refine ⟨h.keys, List.nodup_singleton _, fun i hi j hj => ?_⟩
      rw [List.mem_singleton.mp hj]
      rintro rfl
      exact hmem hi
    · obtain hr' | rfl := (List.mem_append.mp hr').imp_right List.mem_singleton.mp
      · exact h.ids_le r' hr'
      · exact hid

end Insert

end Table
