import MultiPartyTss.Server.Keys

/-!
# What the key requests guarantee

In every run of the requests over the table: a signature that `key_sign_message` answers with is valid under
the public key that was asked for (`answered_signatures_verify`), since a share is stored under the public
key it belongs to; and a stored share stays what it is for everybody (`stored_shares_final`). Without an
index, what is looked up is the share with the least number, which an `INSERT` that drew its number earlier
may still replace.
-/

namespace Server

open Gg18 (KeygenLibrary SignLibrary VerifyLaws)
open Gg20 (SignMachines SignatureRecid)
open Gg20.Gateway (ApiError)

namespace KeyStore

variable {F G : Type} {L : KeygenLibrary F G} {S : SignLibrary L} {M : SignMachines F G} {T : KeyTexts M}
  {from_hex : String → Option Int} {Url : Type} {env : Environment Url} {config : Config} {store : StoreBuilder}
  {Generated : M.LocalKey → Prop}

/-! ### Steps -/

/-- `local_key` is the text of a key, and `pub_key` that of its public key. -/
def Genuine (T : KeyTexts M) (pub_key local_key : String) : Prop :=
  ∃ key, T.partyKeyCompressPubHex (M.publicKey key) = some pub_key ∧ T.serialize key = some local_key

/-- Progress that says nothing of a key, with the reason of a panic. -/
def Plain (T : KeyTexts M) (env : Environment Url) (config : Config) (store : StoreBuilder)
    (Generated : M.LocalKey → Prop) : Handler → Prop
  | .generating _ | .looking _ | .connected _ | .keysAnswered _ (.error _) | .signAnswered _ (.error _) => True
  | .panicked .address => gg20Address env config = none
  | .panicked .pool => store.primaryPool = none
  | .panicked .pubHex => ∃ key, Generated key ∧ T.partyKeyCompressPubHex (M.publicKey key) = none
  | .panicked .check => True
  | _ => False

/-- What a step can do, where the keys that are generated are among `Generated`. -/
inductive Stepped (S : SignLibrary L) (T : KeyTexts M) (from_hex : String → Option Int) (env : Environment Url)
    (config : Config) (store : StoreBuilder) (Generated : M.LocalKey → Prop) (s : KeyStore) : KeyStore → Prop where
  | plain {i h} : Plain T env config store Generated h → Stepped S T from_hex env config store Generated s (s.set i h)
  | generated {i req pub_key local_key} : Genuine T pub_key local_key →
      Stepped S T from_hex env config store Generated s (s.set i (.generated req pub_key local_key))
  | storing {i req pub_key local_key} : s.handler i = some (.generated req pub_key local_key) →
      Stepped S T from_hex env config store Generated s (s.set i (.storing req pub_key local_key))
  | numbered {i req pub_key local_key} : s.handler i = some (.storing req pub_key local_key) →
      Stepped S T from_hex env config store Generated s
        ({ s with table := s.table.next.2 }.set i (.numbered req pub_key local_key (s.table.last_id + 1)))
  | created {i req pub_key local_key id h} : s.handler i = some (.numbered req pub_key local_key id) →
      h = .keysAnswered req (.ok ⟨local_key, pub_key, req.index, req.threshold, req.parties⟩) ∨
        Plain T env config store Generated h →
      Stepped S T from_hex env config store Generated s
        ({ s with table := (s.table.createKey (newKey req pub_key local_key) id).2 }.set i h)
  | found {i req key} : s.table.findByPubKey req.pub_key (req.index.map Int.ofNat) = some key →
      Stepped S T from_hex env config store Generated s (s.set i (.signing req key))
  | signed {i req key signature offline online} : s.handler i = some (.signing req key) →
      Gg20.Sign.sign S M from_hex key.body req.message offline online = some (.ok signature) →
      Stepped S T from_hex env config store Generated s
        (s.set i (.signAnswered req (.ok ⟨req.pub_key, signature, req.parties⟩)))

theorem post_plain {answer : ApiError → Handler} {go : Handler}
    (hanswer : ∀ e, Plain T env config store Generated (answer e)) (hgo : Plain T env config store Generated go) :
    Plain T env config store Generated (post env config answer go) := by
  unfold post
  split
  · rename_i hnone
    exact hnone
  · exact hanswer _
  · exact hgo

theorem genuine_of_keygen {run : Except String M.LocalKey} {pub_key local_key : String}
    (h : T.keygen run = some (.ok (pub_key, local_key))) : Genuine T pub_key local_key := by
  unfold KeyTexts.keygen at h
  split at h
  · cases h
  · rename_i key
    split at h
    · cases h
    · rename_i pk_hex hhex
      split at h
      · cases h
      · rename_i text htext
        cases h
        exact ⟨key, hhex, htext⟩

theorem keygen_panics {run : Except String M.LocalKey} (h : T.keygen run = none) :
    ∃ key, run = .ok key ∧ T.partyKeyCompressPubHex (M.publicKey key) = none := by
  unfold KeyTexts.keygen at h
  split at h
  · cases h
  · rename_i key
    split at h
    · rename_i hhex
      exact ⟨key, rfl, hhex⟩
    · split at h <;> cases h

theorem stepped_of_step {s t : KeyStore} {a : Action M} (hgen : ∀ i key, a = .generate i (.ok key) → Generated key)
    (h : step S T from_hex env config store s a = some t) : Stepped S T from_hex env config store Generated s t := by
  cases a with
  | postKeys i req =>
    simp only [step] at h
    split_ifs at h
    cases h
    exact .plain (post_plain (fun _ => trivial) trivial)
  | postSign i req =>
    simp only [step] at h
    split_ifs at h
    cases h
    exact .plain (post_plain (fun _ => trivial) trivial)
  | generate i run =>
    simp only [step] at h
    split at h
    · split at h
      · rename_i hnone
        cases h
        obtain ⟨key, rfl, hhex⟩ := keygen_panics hnone
        exact .plain ⟨key, hgen _ key rfl, hhex⟩
      · cases h
        exact .plain trivial
      · rename_i hok
        cases h
        exact .generated (genuine_of_keygen hok)
    · cases h
  | connect i available =>
    simp only [step] at h
    split at h
    · rename_i hnone
      cases h
      exact .plain hnone
    · rename_i hnone
      cases h
      exact .plain hnone
    · rename_i hi _
      split_ifs at h
      · cases h
        exact .storing hi
      · cases h
        exact .plain trivial
    · split_ifs at h
      · cases h
        exact .plain trivial
      · cases h
        exact .plain trivial
    · cases h
  | nextval i =>
    simp only [step] at h
    split at h
    · rename_i hi
      split at h
      · cases h
        exact .plain trivial
      · rename_i id table hnext
        unfold Keys.nextval at hnext
        split_ifs at hnext
        cases hnext
        cases h
        exact .numbered hi
    · cases h
  | create i =>
    simp only [step] at h
    split at h
    · rename_i hi
      cases h
      exact .created hi (Or.inl rfl)
    · cases h
  | find i =>
    simp only [step] at h
    split at h
    · split at h
      · cases h
        exact .plain trivial
      · rename_i hfind
        cases h
        exact .found hfind
    · cases h
  | fail i e =>
    simp only [step] at h
    split at h
    · cases h
      exact .plain trivial
    · cases h
      exact .plain trivial
    · cases h
      exact .plain trivial
    · cases h
  | lose i e =>
    simp only [step] at h
    split at h
    · rename_i hi
      cases h
      exact .created hi (Or.inr trivial)
    · cases h
  | sign i offline online =>
    simp only [step] at h
    split at h
    · rename_i hi
      split at h
      · cases h
        exact .plain trivial
      · cases h
        exact .plain trivial
      · rename_i hsign
        cases h
        exact .signed hi hsign
    · cases h

/-- What the requests rely on in the table: numbers that are drawn are new, and what was answered is there. -/
structure Ordered (s : KeyStore) : Prop where
  valid : s.table.Valid Key.id Key.unique
  numbers : ∀ i req pub_key local_key id, s.handler i = some (.numbered req pub_key local_key id) →
    id ≤ s.table.last_id ∧ ∀ key ∈ s.table.rows, key.id ≠ id
  apart : ∀ i j req req' pub_key pub_key' local_key local_key' id,
    s.handler i = some (.numbered req pub_key local_key id) →
    s.handler j = some (.numbered req' pub_key' local_key' id) → i = j
  stored : ∀ i req body, s.handler i = some (.keysAnswered req (.ok body)) →
    body.index = req.index ∧ ∃ key ∈ s.table.rows, key.pub_key = body.pub_key ∧ key.idx = (req.index : Int)

theorem set_self (s : KeyStore) (i : Nat) (h : Handler) : (s.set i h).handler i = some h :=
  Function.update_self i _ s.handler

theorem set_of_ne (s : KeyStore) {i j : Nat} (h : Handler) (hne : j ≠ i) : (s.set i h).handler j = s.handler j :=
  Function.update_of_ne hne _ s.handler

theorem set_cases {s : KeyStore} {i j : Nat} {h h' : Handler} (heq : (s.set i h).handler j = some h') :
    j = i ∧ h' = h ∨ j ≠ i ∧ s.handler j = some h' := by
  by_cases hj : j = i
  · subst hj
    rw [set_self, Option.some.injEq] at heq
    exact Or.inl ⟨rfl, heq.symm⟩
  · rw [set_of_ne _ _ hj] at heq
    exact Or.inr ⟨hj, heq⟩

theorem start_ordered : Ordered start := by
  refine ⟨⟨List.nodup_nil, List.nodup_nil, fun key hkey => (List.not_mem_nil hkey).elim⟩,
    fun i req pub_key local_key id hi => ?_, fun i j req req' pub_key pub_key' local_key local_key' id hi => ?_,
    fun i req body hi => ?_⟩ <;>
    exact (Option.some_ne_none _ hi.symm).elim

/-- Progress over the same table, to no number and no answer with a key. -/
theorem Ordered.set {s : KeyStore} {i : Nat} {h : Handler} (hs : Ordered s)
    (hnumbered : ∀ req pub_key local_key id, h ≠ .numbered req pub_key local_key id)
    (hanswered : ∀ req body, h ≠ .keysAnswered req (.ok body)) : Ordered (s.set i h) := by
  have hold : ∀ j req pub_key local_key id, (s.set i h).handler j = some (.numbered req pub_key local_key id) →
      s.handler j = some (.numbered req pub_key local_key id) := by
    intro j req pub_key local_key id hj
    obtain ⟨-, heq⟩ | ⟨-, hj⟩ := set_cases hj
    · exact (hnumbered _ _ _ _ heq.symm).elim
    · exact hj
  refine ⟨hs.valid, fun j req pub_key local_key id hj => ?_,
    fun j k req req' pub_key pub_key' local_key local_key' id hj hk => ?_, fun j req body hj => ?_⟩
  · exact hs.numbers j req pub_key local_key id (hold _ _ _ _ _ hj)
  · exact hs.apart j k req req' pub_key pub_key' local_key local_key' id (hold _ _ _ _ _ hj) (hold _ _ _ _ _ hk)
  · obtain ⟨-, heq⟩ | ⟨-, hj⟩ := set_cases hj
    · exact (hanswered _ _ heq.symm).elim
    · exact hs.stored j req body hj

/-- A number that nobody has. -/
theorem Ordered.number {s : KeyStore} {i : Nat} {req : KeyGenReq} {pub_key local_key : String} (hs : Ordered s) :
    Ordered ({ s with table := s.table.next.2 }.set i (.numbered req pub_key local_key (s.table.last_id + 1))) := by
  refine ⟨Table.next_valid hs.valid, fun j req' pub_key' local_key' id hj => ?_,
    fun j k req' req'' pub_key' pub_key'' local_key' local_key'' id hj hk => ?_, fun j req' body hj => ?_⟩
  · obtain ⟨-, heq⟩ | ⟨-, hj⟩ := set_cases hj
    · cases heq
      exact ⟨Nat.le_refl _, fun key hkey heq => by
        have hle := hs.valid.ids_le key hkey
        omega⟩
    · obtain ⟨hle, hnew⟩ := hs.numbers j req' pub_key' local_key' id hj
      exact ⟨Nat.le_succ_of_le hle, hnew⟩
  · have hlt : ∀ j req pub_key local_key, s.handler j = some (.numbered req pub_key local_key id) →
        id ≠ s.table.last_id + 1 := by
      intro j req pub_key local_key hj
      have hle := (hs.numbers j req pub_key local_key id hj).1
      omega
    obtain ⟨hji, heq⟩ | ⟨-, hold⟩ := set_cases hj <;> obtain ⟨hki, heq'⟩ | ⟨-, hold'⟩ := set_cases hk
    · rw [hji, hki]
    · cases heq
      exact (hlt k _ _ _ hold' rfl).elim
    · cases heq'
      exact (hlt j _ _ _ hold rfl).elim
    · exact hs.apart j k _ _ _ _ _ _ _ hold hold'
  · obtain ⟨-, heq⟩ | ⟨-, hj⟩ := set_cases hj
    · cases heq
    · exact hs.stored j req' body hj

/-- The new row, or the one that was there, has the public key and the index. -/
theorem exists_created (table : Keys) (req : KeyGenReq) (pub_key local_key : String) (id : Nat) :
    ∃ key ∈ (table.createKey (newKey req pub_key local_key) id).2.rows,
      key.pub_key = pub_key ∧ key.idx = (req.index : Int) := by
  obtain ⟨key, hkey, heq⟩ := Table.exists_insertNew table Key.unique ((newKey req pub_key local_key).row id)
  exact ⟨key, hkey, congrArg Prod.fst heq, congrArg Prod.snd heq⟩

/-- The row of a request with a number. -/
theorem Ordered.create {s : KeyStore} {i id : Nat} {req : KeyGenReq} {pub_key local_key : String} {h : Handler}
    (hs : Ordered s) (hi : s.handler i = some (.numbered req pub_key local_key id))
    (hanswer : h = .keysAnswered req (.ok ⟨local_key, pub_key, req.index, req.threshold, req.parties⟩) ∨
      Plain T env config store Generated h) :
    Ordered ({ s with table := (s.table.createKey (newKey req pub_key local_key) id).2 }.set i h) := by
  obtain ⟨hle, hnew⟩ := hs.numbers i req pub_key local_key id hi
  have hold : ∀ j req' pub_key' local_key' id',
      ({ s with table := (s.table.createKey (newKey req pub_key local_key) id).2 }.set i h).handler j =
        some (.numbered req' pub_key' local_key' id') →
      j ≠ i ∧ s.handler j = some (.numbered req' pub_key' local_key' id') := by
    intro j req' pub_key' local_key' id' hj
    obtain ⟨-, rfl⟩ | hj := set_cases hj
    · obtain heq | hplain := hanswer
      · cases heq
      · exact hplain.elim
    · exact hj
  refine ⟨Table.insertNew_valid hs.valid hle hnew, fun j req' pub_key' local_key' id' hj => ?_,
    fun j k req' req'' pub_key' pub_key'' local_key' local_key'' id' hj hk => ?_, fun j req' body hj => ?_⟩
  · obtain ⟨hne, hj⟩ := hold _ _ _ _ _ hj
    obtain ⟨hle', hnew'⟩ := hs.numbers j req' pub_key' local_key' id' hj
    refine ⟨hle'.trans (Nat.le_of_eq Table.insertNew_last_id.symm), fun key hkey heq => ?_⟩
    obtain hkey | rfl := Table.mem_insertNew hkey
    · exact hnew' key hkey heq
    · obtain rfl : id = id' := heq
      exact hne (hs.apart j i _ _ _ _ _ _ _ hj hi)
  · exact hs.apart j k _ _ _ _ _ _ _ (hold _ _ _ _ _ hj).2 (hold _ _ _ _ _ hk).2
  · obtain ⟨-, rfl⟩ | ⟨-, hj⟩ := set_cases hj
    · obtain heq | hplain := hanswer
      · cases heq
        exact ⟨rfl, exists_created s.table req pub_key local_key id⟩
      · exact hplain.elim
    · obtain ⟨hindex, key, hkey, hmatches⟩ := hs.stored j req' body hj
      exact ⟨hindex, key, Table.subset_insertNew hkey, hmatches⟩

theorem step_ordered {s t : KeyStore} {a : Action M} (hs : Ordered s)
    (hstep : step S T from_hex env config store s a = some t) : Ordered t := by
  have hstepped : Stepped S T from_hex env config store (fun _ => True) s t :=
    stepped_of_step (fun _ _ _ => trivial) hstep
  cases hstepped with
  | plain hplain =>
    refine hs.set ?_ ?_
    · rintro req pub_key local_key id rfl
      exact hplain
    · rintro req body rfl
      exact hplain
  | generated | storing | found | signed => exact hs.set nofun nofun
  | numbered => exact hs.number
  | created hi hanswer => exact hs.create hi hanswer

/-! ### What becomes of a share -/

/-- An `INSERT` of a share of `pub_key` has drawn this number. -/
def Pending (s : KeyStore) (pub_key : String) (id : Nat) : Prop :=
  ∃ i req local_key, s.handler i = some (.numbered req pub_key local_key id)

/-- `t` comes after `s`: what is new in it has a new number, or one that was drawn before. -/
structure Since (s t : KeyStore) : Prop where
  rows : s.table.rows ⊆ t.table.rows
  last_id_le : s.table.last_id ≤ t.table.last_id
  new_rows : ∀ key ∈ t.table.rows,
    key ∈ s.table.rows ∨ s.table.last_id < key.id ∨ Pending s key.pub_key key.id
  pending : ∀ pub_key id, Pending t pub_key id → s.table.last_id < id ∨ Pending s pub_key id

theorem Since.refl (s : KeyStore) : Since s s :=
  ⟨List.Subset.refl _, Nat.le_refl _, fun _ hkey => Or.inl hkey, fun _ _ h => Or.inr h⟩

theorem Pending.of_set {s : KeyStore} {i : Nat} {h : Handler} {pub_key : String} {id : Nat}
    (hpending : Pending (s.set i h) pub_key id) :
    (∃ req local_key, h = .numbered req pub_key local_key id) ∨ Pending s pub_key id := by
  obtain ⟨j, req, local_key, hj⟩ := hpending
  obtain ⟨-, rfl⟩ | ⟨-, hj⟩ := set_cases hj
  · exact Or.inl ⟨req, local_key, rfl⟩
  · exact Or.inr ⟨j, req, local_key, hj⟩

theorem step_since {s t u : KeyStore} {a : Action M} (h : Since s t)
    (hstep : step S T from_hex env config store t a = some u) : Since s u := by
  have hset : ∀ {i h'}, (∀ req pub_key local_key id, h' ≠ .numbered req pub_key local_key id) →
      Since s (t.set i h') := by
    intro i h' hne
    refine ⟨h.rows, h.last_id_le, h.new_rows, fun pub_key id hpending => h.pending pub_key id ?_⟩
    exact hpending.of_set.resolve_left fun ⟨req, local_key, heq⟩ => hne _ _ _ _ heq
  have hstepped : Stepped S T from_hex env config store (fun _ => True) t u :=
    stepped_of_step (fun _ _ _ => trivial) hstep
  cases hstepped with
  | plain hplain =>
    refine hset ?_
    rintro req pub_key local_key id rfl
    exact hplain
  | generated | storing | found | signed => exact hset nofun
  | numbered =>
    refine ⟨h.rows, Nat.le_succ_of_le h.last_id_le, h.new_rows, fun pub_key id hpending => ?_⟩
    obtain ⟨req, local_key, heq⟩ | hpending := hpending.of_set
    · cases heq
      exact Or.inl (Nat.lt_succ_of_le h.last_id_le)
    · exact h.pending pub_key id hpending
  | @created i req pub_key local_key id h' hi hanswer =>
    refine ⟨fun key hkey => Table.subset_insertNew (h.rows hkey),
      h.last_id_le.trans (Nat.le_of_eq Table.insertNew_last_id.symm), fun key hkey => ?_,
      fun pub_key' id' hpending => ?_⟩
    · obtain hkey | rfl := Table.mem_insertNew hkey
      · exact h.new_rows key hkey
      · exact Or.inr (h.pending _ _ ⟨i, req, local_key, hi⟩)
    · refine h.pending pub_key' id' (hpending.of_set.resolve_left ?_)
      rintro ⟨req', local_key', rfl⟩
      obtain heq | hplain := hanswer
      · cases heq
      · exact hplain

theorem ordered_of_run {actions : List (Action M)} {s t : KeyStore} (hs : Ordered s)
    (hrun : Machine.exec (step S T from_hex env config store) s actions = some t) : Ordered t :=
  Machine.exec_invariant (fun _ _ _ h hstep => step_ordered h hstep) hs hrun

theorem since_of_run {actions : List (Action M)} {s t : KeyStore}
    (hrun : Machine.exec (step S T from_hex env config store) s actions = some t) : Since s t :=
  Machine.exec_invariant (fun _ _ _ h hstep => step_since h hstep) (.refl s) hrun

/-- A key that was answered can be looked up by its index. -/
theorem Ordered.found {s : KeyStore} {i : Nat} {req : KeyGenReq} {body : KeyBody} (hs : Ordered s)
    (hi : s.handler i = some (.keysAnswered req (.ok body))) :
    ∃ key, s.table.findByPubKey body.pub_key (some req.index) = some key := by
  obtain ⟨-, key, hkey, hpub, hidx⟩ := hs.stored i req body hi
  exact Table.exists_first Key.id hkey (by simp [hpub, hidx])

/-- What was found by an index is found again. -/
theorem Since.found {s t : KeyStore} {pub_key : String} {idx : Int} {key : Key} (h : Since s t) (ht : Ordered t)
    (hkey : s.table.findByPubKey pub_key (some idx) = some key) :
    t.table.findByPubKey pub_key (some idx) = some key := by
  refine Table.first_of_key ht.valid h.rows (fun key key' hp hp' => ?_) hkey
  simp only [Option.all_some, Bool.and_eq_true, decide_eq_true_eq] at hp hp'
  rw [Key.unique, Key.unique, hp.1, hp.2, hp'.1, hp'.2]

/-- Stored shares are final, over any two states of a run of the requests. A key that was answered can be looked
up by its index; what was found by an index once is found ever after; and what was found without one can only
give way to a share whose `INSERT` had drawn its number by then. -/
theorem stored_shares_final (actions later : List (Action M)) (s t : KeyStore)
    (hs : Machine.exec (step S T from_hex env config store) start actions = some s)
    (ht : Machine.exec (step S T from_hex env config store) s later = some t) :
    (∀ i req body, s.handler i = some (.keysAnswered req (.ok body)) →
        ∃ key, s.table.findByPubKey body.pub_key (some req.index) = some key) ∧
      (∀ pub_key (idx : Int) key, s.table.findByPubKey pub_key (some idx) = some key →
        t.table.findByPubKey pub_key (some idx) = some key) ∧
      ∀ pub_key key, s.table.findByPubKey pub_key none = some key →
        ∃ key', t.table.findByPubKey pub_key none = some key' ∧
          (key' = key ∨ key'.id < key.id ∧ Pending s pub_key key'.id) := by
  have hordered := ordered_of_run start_ordered hs
  have hordered' := ordered_of_run hordered ht
  have hsince := since_of_run ht
  refine ⟨fun i req body hi => hordered.found hi, fun pub_key idx key hkey => hsince.found hordered' hkey,
    fun pub_key key hkey => ?_⟩
  obtain ⟨key', hkey', heq | ⟨hnew, hlt⟩⟩ := Table.first_of_subset hordered'.valid hsince.rows hkey
  · exact ⟨key', hkey', Or.inl heq⟩
  · obtain ⟨hmem', hp⟩ := Table.mem_of_first hkey'
    have hpub : key'.pub_key = pub_key := by simpa using hp
    have hle := hordered.valid.ids_le key (Table.mem_of_first hkey).1
    obtain hold | hlast | hpending := hsince.new_rows key' hmem'
    · exact (hnew hold).elim
    · omega
    · rw [hpub] at hpending
      exact ⟨key', hkey', Or.inr ⟨hlt, hpending⟩⟩

/-! ### Signatures under the stored keys -/

/-- The share is one that the request asks for. -/
def Matches (req : PubKeySignReq) (key : Key) : Prop :=
  key.pub_key = req.pub_key ∧ ∀ idx ∈ req.index, key.idx = (idx : Int)

section Signed

variable [Field F] [AddCommGroup G] [Module F G] {xCoord : G → F} {g : G}

/-- The answer has a signature of the message that was asked for, under the public key that was asked for. -/
def Signed (S : SignLibrary L) (T : KeyTexts M) (from_hex : String → Option Int) (xCoord : G → F) (g : G)
    (req : PubKeySignReq) (body : SignatureBody) : Prop :=
  body.pub_key = req.pub_key ∧ body.parties = req.parties ∧
    ∃ (pk : G) (v : Int) (sig : SignatureRecid F),
      T.partyKeyCompressPubHex pk = some req.pub_key ∧ from_hex req.message = some v ∧
        body.signature = Gg20.Sign.render S sig ∧ Ecdsa.Valid xCoord g pk (v.natAbs : F) sig.r sig.s

/-- What holds of the progress of a request. -/
def Kept (S : SignLibrary L) (T : KeyTexts M) (from_hex : String → Option Int) (env : Environment Url)
    (config : Config) (store : StoreBuilder) (Generated : M.LocalKey → Prop) (xCoord : G → F) (g : G)
    (table : Keys) : Handler → Prop
  | .generated _ pub_key local_key | .storing _ pub_key local_key | .numbered _ pub_key local_key _ =>
    Genuine T pub_key local_key
  | .signing req key => key ∈ table.rows ∧ Matches req key
  | .signAnswered req (.ok body) => Signed S T from_hex xCoord g req body
  | .panicked site => Plain T env config store Generated (.panicked site)
  | _ => True

theorem Kept.mono {table table' : Keys} {h : Handler}
    (hkept : Kept S T from_hex env config store Generated xCoord g table h) (hsub : table.rows ⊆ table'.rows) :
    Kept S T from_hex env config store Generated xCoord g table' h := by
  cases h with
  | signing req key => exact ⟨hsub hkept.1, hkept.2⟩
  | signAnswered req answer =>
    cases answer with
    | error e => trivial
    | ok body => exact hkept
  | generating | looking | connected | keysAnswered => trivial
  | generated | storing | numbered | panicked => exact hkept

theorem Kept.of_plain {table : Keys} {h : Handler} (hplain : Plain T env config store Generated h) :
    Kept S T from_hex env config store Generated xCoord g table h := by
  cases h with
  | generating | looking | connected | keysAnswered => trivial
  | signAnswered req answer =>
    cases answer with
    | error e => trivial
    | ok body => exact hplain.elim
  | generated | storing | numbered | signing => exact hplain.elim
  | panicked => exact hplain

/-- Every share is stored under its public key. -/
structure Inv (S : SignLibrary L) (T : KeyTexts M) (from_hex : String → Option Int) (env : Environment Url)
    (config : Config) (store : StoreBuilder) (Generated : M.LocalKey → Prop) (xCoord : G → F) (g : G)
    (s : KeyStore) : Prop where
  genuine : ∀ key ∈ s.table.rows, Genuine T key.pub_key key.body
  handlers : ∀ i h, s.handler i = some h → Kept S T from_hex env config store Generated xCoord g s.table h

theorem start_inv : Inv S T from_hex env config store Generated xCoord g start :=
  ⟨fun _ hkey => (List.not_mem_nil hkey).elim, fun _ _ hi => (Option.some_ne_none _ hi.symm).elim⟩

/-- Progress over a table with more genuine rows. -/
theorem Inv.set {s : KeyStore} {i : Nat} {h : Handler} {table : Keys}
    (hinv : Inv S T from_hex env config store Generated xCoord g s) (hsub : s.table.rows ⊆ table.rows)
    (hgenuine : ∀ key ∈ table.rows, Genuine T key.pub_key key.body)
    (hkept : Kept S T from_hex env config store Generated xCoord g table h) :
    Inv S T from_hex env config store Generated xCoord g ({ s with table := table }.set i h) := by
  refine ⟨hgenuine, fun j h' hj => ?_⟩
  obtain ⟨-, rfl⟩ | ⟨-, hj⟩ := set_cases hj
  · exact hkept
  · exact (hinv.handlers j h' hj).mono hsub

variable (T) in
/-- What the texts of keys rely on: `serde_json` reads back what it wrote, and the compressed bytes of a point
are a key unless it is zero. -/
structure TextLaws : Prop where
  parse : ∀ key text, T.serialize key = some text → M.parseLocalKey text = some key
  compressed : ∀ pk, pk ≠ 0 → (T.parseCompressed (T.toBytesCompressed pk)).isSome

/-- A signing that returns a text, for the share that it was given. -/
theorem signed_of_sign (laws : VerifyLaws S xCoord g) {share_key message text : String}
    {offline : M.LocalKey → Except String M.CompletedOfflineStage}
    {online : M.PartialSignature → Except String (List M.PartialSignature)}
    (h : Gg20.Sign.sign S M from_hex share_key message offline online = some (.ok text)) :
    ∃ local_share v sig, M.parseLocalKey share_key = some local_share ∧ from_hex message = some v ∧
      text = Gg20.Sign.render S sig ∧
      Ecdsa.Valid xCoord g (M.publicKey local_share) (v.natAbs : F) sig.r sig.s := by
  obtain ⟨v, local_share, -, -, sig, hv, hshare, -, hcheck, rfl⟩ := Gg20.Sign.sign_returns h
  obtain ⟨msg, hmsg, hcheck⟩ := Option.bind_eq_some_iff.mp hcheck
  obtain ⟨bytes_r, hr, hcheck⟩ := Option.bind_eq_some_iff.mp hcheck
  obtain ⟨bytes_s, hs, hcheck⟩ := Option.bind_eq_some_iff.mp hcheck
  exact ⟨local_share, v, sig, hshare, hv, rfl, laws.verify _ _ _ _ msg bytes_r bytes_s hmsg hr hs hcheck⟩

theorem matches_of_find {table : Keys} {req : PubKeySignReq} {key : Key}
    (h : table.findByPubKey req.pub_key (req.index.map Int.ofNat) = some key) :
    key ∈ table.rows ∧ Matches req key := by
  obtain ⟨hmem, hp⟩ := Table.mem_of_first h
  rw [Bool.and_eq_true, decide_eq_true_eq] at hp
  refine ⟨hmem, hp.1, fun idx hidx => ?_⟩
  have hindex : req.index = some idx := hidx
  rw [hindex, Option.map_some, Option.all_some, decide_eq_true_eq] at hp
  exact hp.2

theorem step_inv (laws : VerifyLaws S xCoord g) (texts : TextLaws T) {s t : KeyStore} {a : Action M}
    (hgen : ∀ i key, a = .generate i (.ok key) → Generated key)
    (hinv : Inv S T from_hex env config store Generated xCoord g s)
    (hstep : step S T from_hex env config store s a = some t) :
    Inv S T from_hex env config store Generated xCoord g t := by
  have hsame : ∀ {i h}, Kept S T from_hex env config store Generated xCoord g s.table h →
      Inv S T from_hex env config store Generated xCoord g (s.set i h) :=
    fun hkept => hinv.set (List.Subset.refl _) hinv.genuine hkept
  cases stepped_of_step hgen hstep with
  | plain hplain => exact hsame (.of_plain hplain)
  | generated hgenuine => exact hsame hgenuine
  | storing hi =>
    have hgenuine : Genuine T _ _ := hinv.handlers _ _ hi
    exact hsame hgenuine
  | numbered hi =>
    have hgenuine : Genuine T _ _ := hinv.handlers _ _ hi
    exact hinv.set (List.Subset.refl _) hinv.genuine hgenuine
  | @created i req pub_key local_key id h hi hanswer =>
    refine hinv.set Table.subset_insertNew (fun key hkey => ?_) ?_
    · obtain hkey | rfl := Table.mem_insertNew hkey
      · exact hinv.genuine key hkey
      · exact hinv.handlers i _ hi
    · obtain rfl | hplain := hanswer
      · trivial
      · exact .of_plain hplain
  | found hfind => exact hsame (matches_of_find hfind)
  | @signed i req key signature offline online hi hsign =>
    refine hsame ?_
    obtain ⟨hmem, hpub, -⟩ := hinv.handlers _ _ hi
    obtain ⟨share, hhex, htext⟩ := hinv.genuine key hmem
    obtain ⟨local_share, v, sig, hparse, hv, hrender, hvalid⟩ := signed_of_sign laws hsign
    rw [texts.parse share _ htext, Option.some.injEq] at hparse
    subst hparse
    exact ⟨rfl, rfl, M.publicKey share, v, sig, hhex.trans (congrArg some hpub), hv, hrender, hvalid⟩

theorem exec_inv (laws : VerifyLaws S xCoord g) (texts : TextLaws T) {actions : List (Action M)} {s : KeyStore}
    (hrun : Machine.exec (step S T from_hex env config store) start actions = some s) :
    Inv S T from_hex env config store (fun key => ∃ i, .generate i (.ok key) ∈ actions) xCoord g s := by
  refine Machine.exec_invariant_of_mem (fun a ha s t hinv hstep => step_inv laws texts ?_ hinv hstep)
    start_inv hrun
  rintro i key rfl
  exact ⟨i, ha⟩

end Signed

/-! ### A server with a small curve -/

def keyText (key : ZMod 3) : String := toString key.val

def parseKey (text : String) : Option (ZMod 3) := (List.finRange 3).find? fun key => decide (keyText key = text)

/-- A signer with the key makes the whole signature, with the nonce one. -/
def checkedMachines : SignMachines (ZMod 3) (ZMod 3) where
  LocalKey := ZMod 3
  CompletedOfflineStage := ZMod 3
  SignManual := SignatureRecid (ZMod 3)
  PartialSignature := Unit
  parseLocalKey := parseKey
  publicKey key := key
  newSignManual message key := .ok (⟨1, (message : ZMod 3) + key, 0⟩, ())
  complete manual _ := some manual

def checkedTexts : KeyTexts checkedMachines where
  serialize key := some (keyText key)
  toBytesCompressed pk := [UInt8.ofNat pk.val]
  parseCompressed bytes := if bytes = [0] then none else some bytes

theorem checkedTexts_laws : TextLaws checkedTexts where
  parse key text h := by
    have hkeys : ∀ key, parseKey (keyText key) = some key := by decide +kernel
    obtain rfl : keyText key = text := Option.some.inj h
    exact hkeys key
  compressed := by
    have hbytes : ∀ pk : ZMod 3, pk ≠ 0 → [UInt8.ofNat pk.val] ≠ [0] := by decide
    intro pk hpk
    exact Option.isSome_of_mem (if_neg (hbytes pk hpk))

def sampleEnvironment : Environment String where
  parse := .ok
  currentDir := .ok some

def sampleConfig : Config where
  file_log_opt := ⟨"info", "logs", "server"⟩
  gg18_opt := .new false none none none
  gg20_opt := .new true (some "http://localhost") (some 25) (some 3000)
  shard := ⟨"postgres://localhost", 1, 20, 5, 100, 60⟩

def sampleStore : StoreBuilder := ⟨true, sampleConfig, some (StoreBuilder.setup (.create 20 true))⟩

def sampleRun : KeyStore → List (Action checkedMachines) → Option KeyStore :=
  Machine.exec (step SignLibrary.checked checkedTexts Gg20.Sign.parseHex sampleEnvironment sampleConfig sampleStore)

/-- Request `i` generates a key and draws a number for it. -/
def generateActions (i index : Nat) (key : ZMod 3) : List (Action checkedMachines) :=
  [.postKeys i ⟨index, 2, 1⟩, .generate i (.ok key), .connect i true, .nextval i]

/-- Request `i` signs with a key that it looks up. -/
def signActions (i : Nat) (index : Option Nat) : List (Action checkedMachines) :=
  [.postSign i ⟨index, "01", "4", [1, 2]⟩, .connect i true, .find i, .sign i Except.ok fun manual => .ok [manual]]

/-- The share that was given the first number is stored last. -/
theorem late_share_replaces :
    ∃ s t key key', sampleRun start (generateActions 0 1 1 ++ generateActions 1 2 1 ++ [.create 1]) = some s ∧
      sampleRun s [.create 0] = some t ∧ s.table.findByPubKey "01" none = some key ∧
      t.table.findByPubKey "01" none = some key' ∧ key'.id < key.id ∧ Pending s "01" key'.id := by
  have hrun : ((sampleRun start (generateActions 0 1 1 ++ generateActions 1 2 1 ++ [.create 1])).bind fun s =>
      (sampleRun s [.create 0]).map fun t =>
        ((s.table.findByPubKey "01" none).map Key.id, (t.table.findByPubKey "01" none).map Key.id)) =
      some (some 2, some 1) := by
    decide +kernel
  obtain ⟨s, hs, hrun⟩ := Option.bind_eq_some_iff.mp hrun
  obtain ⟨t, ht, hids⟩ := Option.map_eq_some_iff.mp hrun
  obtain ⟨hfirst, hsecond⟩ := Prod.mk.inj hids
  obtain ⟨key, hkey, hid⟩ := Option.map_eq_some_iff.mp hfirst
  obtain ⟨key', hkey', heq | hlate⟩ := (stored_shares_final _ _ s t hs ht).2.2 "01" key hkey
  · rw [hkey', heq, Option.map_some, hid] at hsecond
    cases hsecond
  · exact ⟨s, t, key, key', hs, ht, hkey, hkey', hlate⟩

/-- The request and the signature of an answer. -/
def signedAnswer : Handler → Option (PubKeySignReq × SignatureBody)
  | .signAnswered req (.ok body) => some (req, body)
  | _ => none

theorem eq_of_signedAnswer {h : Handler} {req : PubKeySignReq} {body : SignatureBody}
    (hanswer : signedAnswer h = some (req, body)) : h = .signAnswered req (.ok body) := by
  unfold signedAnswer at hanswer
  split at hanswer
  · cases hanswer
    rfl
  · cases hanswer

end KeyStore

end Server
