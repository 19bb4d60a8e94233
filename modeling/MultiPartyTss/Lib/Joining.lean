import MultiPartyTss.Lib.Network

/-!
# Parties that join late

Parties may join a network one after the other and learn only then which process they run; reserved keys of
the store hand out the places. `Late` relates such a network to one over the places alone, in which all
processes are there from the start and whoever has not joined yet has not moved. The processes stay away
from the reserved keys, so every run of the first is a run of the second (`Embeds`): what holds of all runs
of a fixed set of processes holds of the parties that have joined.
-/

namespace Network

open Proc

variable {P Q K V ω α : Type} {reserved : K → Bool}

/-- The process neither writes nor polls a reserved key. -/
def Apart (reserved : K → Bool) (x : Proc K V ω α) : Prop :=
  ∃ ops, x.Follows ops ∧ ∀ k, .put k ∈ ops ∨ .poll k ∈ ops → reserved k = false

namespace Apart

theorem fail : Apart reserved (.fail : Proc K V ω α) :=
  ⟨[], trivial, fun _ hk => hk.elim (fun h => (List.not_mem_nil h).elim) fun h => (List.not_mem_nil h).elim⟩

theorem put {k : K} {v : V} {next : Proc K V ω α} (h : Apart reserved (.put k v next)) :
    reserved k = false ∧ Apart reserved next := by
  obtain ⟨_, ⟨rest, rfl, hrest⟩, hops⟩ := h
  exact ⟨hops k (Or.inl List.mem_cons_self), rest, hrest,
    fun k' hk' => hops k' (hk'.imp (List.mem_cons_of_mem _) (List.mem_cons_of_mem _))⟩

theorem poll {k : K} {next : V → Proc K V ω α} (h : Apart reserved (.poll k next)) :
    reserved k = false ∧ ∀ v, Apart reserved (next v) := by
  obtain ⟨_, ⟨rest, rfl, hrest⟩, hops⟩ := h
  exact ⟨hops k (Or.inr List.mem_cons_self), fun v => ⟨rest, hrest v,
    fun k' hk' => hops k' (hk'.imp (List.mem_cons_of_mem _) (List.mem_cons_of_mem _))⟩⟩

theorem note {o : ω} {next : Proc K V ω α} (h : Apart reserved (.note o next)) : Apart reserved next := h

end Apart

/-- The parties of `late` sit at their places of `plain`, and the other places wait with their processes. -/
structure Late (reserved : K → Bool) (place : P → Option Q) (init : Q → Option (Proc K V ω α))
    (late : Net P K V ω α) (plain : Net Q K V ω α) : Prop where
  store : plain.store = visible reserved late.store
  distinct : ∀ p p' q, place p = some q → place p' = some q → p = p'
  joined : ∀ p q, place p = some q → late.party p ≠ none ∧ plain.party q = late.party p
  waiting : ∀ q, (∀ p, place p ≠ some q) → plain.party q = (init q).map fun x => ⟨x, x, [], []⟩
  others : ∀ p party, place p = none → late.party p = some party → party.cur = .fail
  apart : ∀ p party, late.party p = some party → Apart reserved party.cur

namespace Late

variable {place : P → Option Q} {init : Q → Option (Proc K V ω α)} {late late' : Net P K V ω α}
  {plain : Net Q K V ω α}

theorem start : Late reserved (fun _ => none) init (Net.start fun _ => none : Net P K V ω α) (Net.start init) := by
  refine ⟨?_, fun p p' q hp => (Option.some_ne_none q hp.symm).elim,
    fun p q hp => (Option.some_ne_none q hp.symm).elim, fun q _ => rfl,
    fun p party _ hp => (Option.some_ne_none party hp.symm).elim,
    fun p party hp => (Option.some_ne_none party hp.symm).elim⟩
  funext k
  exact (ite_self none).symm

theorem output (h : Late reserved place init late plain) {p : P} {q : Q} (hq : place p = some q) :
    plain.output q = late.output p := by
  rw [Net.output, Net.output, (h.joined p q hq).2]

variable [DecidableEq P]

theorem setParty [DecidableEq Q] (h : Late reserved place init late plain) {p : P} {q : Q} {party : Party K V ω α}
    (hq : place p = some q) (happart : Apart reserved party.cur) :
    Late reserved place init (late.setParty p party) (plain.setParty q party) := by
  refine ⟨h.store, h.distinct, fun p' q' hq' => ?_, fun q' hq' => ?_, fun p' party' hnone hp' => ?_,
    fun p' party' hp' => ?_⟩
  · by_cases heq : p' = p
    · subst heq
      obtain rfl : q = q' := Option.some.inj (hq.symm.trans hq')
      rw [setParty_self, setParty_self]
      exact ⟨Option.some_ne_none party, rfl⟩
    · have hne : q' ≠ q := by
        rintro rfl
        exact heq (h.distinct p' p q' hq' hq)
      rw [setParty_of_ne _ _ heq, setParty_of_ne _ _ hne]
      exact h.joined p' q' hq'
  · have hne : q' ≠ q := by
      rintro rfl
      exact hq' p hq
    rw [setParty_of_ne _ _ hne]
    exact h.waiting q' hq'
  · have hne : p' ≠ p := by
      rintro rfl
      exact Option.some_ne_none q (hq.symm.trans hnone)
    rw [setParty_of_ne _ _ hne] at hp'
    exact h.others p' party' hnone hp'
  · by_cases heq : p' = p
    · subst heq
      rw [setParty_self, Option.some.injEq] at hp'
      rwa [← hp']
    · rw [setParty_of_ne _ _ heq] at hp'
      exact h.apart p' party' hp'

/-- A party takes a free place, whose process is its own. -/
theorem spawn [DecidableEq Q] (h : Late reserved place init late plain) {p : P} {q : Q} {x : Proc K V ω α}
    (hnone : late.party p = none) (hfree : ∀ p', place p' ≠ some q) (hinit : init q = some x)
    (happart : Apart reserved x) :
    Late reserved (Function.update place p (some q)) init (late.spawn p x) plain := by
  refine ⟨h.store, fun p' p'' q' hp' hp'' => ?_, fun p' q' hq' => ?_, fun q' hq' => ?_,
    fun p' party' hp' hparty' => ?_, fun p' party' hp' => ?_⟩
  · by_cases heq : p' = p <;> by_cases heq' : p'' = p
    · rw [heq, heq']
    · subst heq
      rw [Function.update_self, Option.some.injEq] at hp'
      rw [Function.update_of_ne heq', ← hp'] at hp''
      exact (hfree p'' hp'').elim
    · subst heq'
      rw [Function.update_self, Option.some.injEq] at hp''
      rw [Function.update_of_ne heq, ← hp''] at hp'
      exact (hfree p' hp').elim
    · rw [Function.update_of_ne heq] at hp'
      rw [Function.update_of_ne heq'] at hp''
      exact h.distinct p' p'' q' hp' hp''
  · by_cases heq : p' = p
    · subst heq
      rw [Function.update_self, Option.some.injEq] at hq'
      subst hq'
      rw [Net.spawn, setParty_self, h.waiting q hfree, hinit]
      exact ⟨Option.some_ne_none _, rfl⟩
    · rw [Function.update_of_ne heq] at hq'
      rw [Net.spawn, setParty_of_ne _ _ heq]
      exact h.joined p' q' hq'
  · refine h.waiting q' fun p' hp' => ?_
    have hne : p' ≠ p := by
      rintro rfl
      exact (h.joined p' q' hp').1 hnone
    exact hq' p' ((Function.update_of_ne hne _ _).trans hp')
  · have hne : p' ≠ p := by
      rintro rfl
      rw [Function.update_self] at hp'
      exact Option.some_ne_none q hp'
    rw [Function.update_of_ne hne] at hp'
    rw [Net.spawn, setParty_of_ne _ _ hne] at hparty'
    exact h.others p' party' hp' hparty'
  · by_cases heq : p' = p
    · subst heq
      rw [Net.spawn, setParty_self, Option.some.injEq] at hp'
      rw [← hp']
      exact happart
    · rw [Net.spawn, setParty_of_ne _ _ heq] at hp'
      exact h.apart p' party' hp'

/-- A party that joins in vain. -/
theorem refuse (h : Late reserved place init late plain) {p : P} (hnone : late.party p = none) :
    Late reserved place init (late.spawn p .fail) plain := by
  have hplace : ∀ p' q', place p' = some q' → p' ≠ p := by
    rintro p' q' hq' rfl
    exact (h.joined p' q' hq').1 hnone
  refine ⟨h.store, h.distinct, fun p' q' hq' => ?_, h.waiting, fun p' party' hp' hparty' => ?_,
    fun p' party' hp' => ?_⟩
  · rw [Net.spawn, setParty_of_ne _ _ (hplace p' q' hq')]
    exact h.joined p' q' hq'
  · by_cases heq : p' = p
    · subst heq
      rw [Net.spawn, setParty_self, Option.some.injEq] at hparty'
      rw [← hparty']
    · rw [Net.spawn, setParty_of_ne _ _ heq] at hparty'
      exact h.others p' party' hp' hparty'
  · by_cases heq : p' = p
    · subst heq
      rw [Net.spawn, setParty_self, Option.some.injEq] at hp'
      rw [← hp']
      exact .fail
    · rw [Net.spawn, setParty_of_ne _ _ heq] at hp'
      exact h.apart p' party' hp'

variable [DecidableEq K]

omit [DecidableEq P] in
theorem writeReserved (h : Late reserved place init late plain) {k : K} (hk : reserved k = true) (v : Option V) :
    Late reserved place init { late with store := Function.update late.store k v } plain :=
  ⟨h.store.trans (visible_writeReserved hk v).symm, h.distinct, h.joined, h.waiting, h.others, h.apart⟩

omit [DecidableEq P] in
theorem write (h : Late reserved place init late plain) {k : K} (hk : reserved k = false) (v : V) :
    Late reserved place init { late with store := Function.update late.store k (some v) }
      { plain with store := Function.update plain.store k (some v) } := by
  refine ⟨?_, h.distinct, h.joined, h.waiting, h.others, h.apart⟩
  funext k'
  by_cases heq : k' = k
  · subst heq
    simp [visible, hk]
  · simp only [visible, Function.update_of_ne heq, h.store]

/-- A step of a party is the same step at its place. -/
theorem move [DecidableEq Q] (h : Late reserved place init late plain) {p : P} (hmove : late.move p = some late') :
    ∃ q plain', plain.move q = some plain' ∧ Late reserved place init late' plain' := by
  obtain ⟨party, hp⟩ : ∃ party, late.party p = some party := by
    cases hp : late.party p with
    | none => simp [Net.move, hp] at hmove
    | some party => exact ⟨party, rfl⟩
  have happart := h.apart p party hp
  cases hq : place p with
  | none => simp [Net.move, hp, h.others p party hq hp] at hmove
  | some q =>
    have hplain : plain.party q = some party := (h.joined p q hq).2.trans hp
    cases hcur : party.cur with
    | done a => simp [Net.move, hp, hcur] at hmove
    | fail => simp [Net.move, hp, hcur] at hmove
    | put k v next =>
      rw [hcur] at happart
      simp only [Net.move, hp, hcur, Option.some.injEq] at hmove
      subst hmove
      have hset : Late reserved place init
          (late.setParty p { party with cur := next, wrote := party.wrote ++ [(k, v)] })
          (plain.setParty q { party with cur := next, wrote := party.wrote ++ [(k, v)] }) :=
        h.setParty hq happart.put.2
      exact ⟨q, _, by simp only [Net.move, hplain, hcur]; rfl, hset.write happart.put.1 v⟩
    | poll k next =>
      rw [hcur] at happart
      have hsame : plain.store k = late.store k := by
        rw [h.store, visible, happart.poll.1]
        rfl
      cases hk : late.store k with
      | none =>
        simp only [Net.move, hp, hcur, hk, Option.some.injEq] at hmove
        subst hmove
        exact ⟨q, plain, by simp only [Net.move, hplain, hcur, hsame, hk], h⟩
      | some v =>
        simp only [Net.move, hp, hcur, hk, Option.some.injEq] at hmove
        subst hmove
        refine ⟨q, _, by simp only [Net.move, hplain, hcur, hsame, hk]; rfl, ?_⟩
        exact h.setParty hq (happart.poll.2 v)
    | note o next =>
      rw [hcur] at happart
      simp only [Net.move, hp, hcur, Option.some.injEq] at hmove
      subst hmove
      refine ⟨q, _, by simp only [Net.move, hplain, hcur]; rfl, ?_⟩
      exact h.setParty hq happart.note

end Late

/-! ### Runs -/

section Runs

variable [DecidableEq P] [DecidableEq Q] [DecidableEq K] {place : P → Option Q} {late late' : Net P K V ω α}

/-- The places run the processes of those who sit there. -/
def Fits (place : P → Option Q) (late : Net P K V ω α) (init : Q → Option (Proc K V ω α)) : Prop :=
  ∀ p q party, place p = some q → late.party p = some party → init q = some party.init

/-- Whatever processes the free places have, a run of the places comes to where the parties are. -/
def Embeds (reserved : K → Bool) (place : P → Option Q) (late : Net P K V ω α) : Prop :=
  ∀ init, Fits place late init → ∃ schedule plain,
    Machine.exec Net.move (Net.start init) schedule = some plain ∧ Late reserved place init late plain

omit [DecidableEq P] in
theorem Embeds.start : Embeds reserved (fun _ => (none : Option Q)) (Net.start fun _ => none : Net P K V ω α) :=
  fun init _ => ⟨[], Net.start init, rfl, .start⟩

omit [DecidableEq P] in
theorem Embeds.writeReserved (h : Embeds reserved place late) {k : K} (hk : reserved k = true) (v : Option V) :
    Embeds reserved place { late with store := Function.update late.store k v } := by
  intro init hfits
  obtain ⟨schedule, plain, hrun, hlate⟩ := h init hfits
  exact ⟨schedule, plain, hrun, hlate.writeReserved hk v⟩

omit [DecidableEq Q] [DecidableEq K] in
theorem fits_spawn {init : Q → Option (Proc K V ω α)} {p : P} {x : Proc K V ω α} {place' : P → Option Q}
    (hnone : late.party p = none) (hplace : ∀ p', p' ≠ p → place' p' = place p')
    (hfits : Fits place' (late.spawn p x) init) : Fits place late init := by
  intro p' q party hq hp'
  have hne : p' ≠ p := by
    rintro rfl
    rw [hnone] at hp'
    exact Option.some_ne_none party hp'.symm
  refine hfits p' q party ((hplace p' hne).trans hq) ?_
  rw [Net.spawn, setParty_of_ne _ _ hne]
  exact hp'

theorem Embeds.spawn (h : Embeds reserved place late) {p : P} {q : Q} {x : Proc K V ω α}
    (hnone : late.party p = none) (hfree : ∀ p', place p' ≠ some q) (happart : Apart reserved x) :
    Embeds reserved (Function.update place p (some q)) (late.spawn p x) := by
  intro init hfits
  have hinit : init q = some x :=
    hfits p q ⟨x, x, [], []⟩ (Function.update_self p _ place) (setParty_self late p _)
  obtain ⟨schedule, plain, hrun, hlate⟩ := h init
    (fits_spawn hnone (fun p' hne => Function.update_of_ne hne _ _) hfits)
  exact ⟨schedule, plain, hrun, hlate.spawn hnone hfree hinit happart⟩

theorem Embeds.refuse (h : Embeds reserved place late) {p : P} (hnone : late.party p = none) :
    Embeds reserved place (late.spawn p .fail) := by
  intro init hfits
  obtain ⟨schedule, plain, hrun, hlate⟩ := h init (fits_spawn hnone (fun _ _ => rfl) hfits)
  exact ⟨schedule, plain, hrun, hlate.refuse hnone⟩

theorem Embeds.move (h : Embeds reserved place late) {p : P} (hmove : late.move p = some late') :
    Embeds reserved place late' := by
  intro init hfits
  have hbefore : Fits place late init := by
    intro p' q party hq hp'
    have hinit := move_init hmove p'
    rw [hp', Option.map_some] at hinit
    obtain ⟨party', hparty', heq⟩ := Option.map_eq_some_iff.mp hinit
    rw [hfits p' q party' hq hparty', heq]
  obtain ⟨schedule, plain, hrun, hlate⟩ := h init hbefore
  obtain ⟨q, plain', hplain, hlate'⟩ := hlate.move hmove
  refine ⟨schedule ++ [q], plain', ?_, hlate'⟩
  rw [Machine.exec_append, hrun, Option.bind_some, Machine.exec_cons, hplain]
  rfl

end Runs

end Network
