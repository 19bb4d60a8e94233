import MultiPartyTss.Lib.Network
import MultiPartyTss.Lib.Slots
import MultiPartyTss.Gg18.Adapter

/-!
# Exchange of round messages

`broadcast`, `send_p2p` and the two polling loops of the GG18 parties, as processes over the map. A
broadcast of party `i` in a round has the key `i-round-uuid`, a message from `a` to `b` the key
`a-b-round-uuid`. Within one session the keys of different messages differ (`broadcastKey_inj`,
`p2pKey_inj`, `broadcastKey_ne_p2pKey`): numbers have no dash and no letter, and round names have no dash
and a letter.
-/

namespace Gg18

open Proc Slots

/-! ### Keys -/

/-- `format!("{}-{}-{}", party_num, round, sender_uuid)`. -/
def broadcastKey (party_num : Nat) (round uuid : String) : String :=
  Nat.repr party_num ++ "-" ++ (round ++ "-" ++ uuid)

/-- `format!("{}-{}-{}-{}", party_from, party_to, round, sender_uuid)`. -/
def p2pKey (party_from party_to : Nat) (round uuid : String) : String :=
  Nat.repr party_from ++ "-" ++ (Nat.repr party_to ++ "-" ++ (round ++ "-" ++ uuid))

/-- A round name: it has no dash, and it is not a number. -/
structure RoundName (round : String) : Prop where
  dash : '-' ∉ round.toList
  letter : ∃ c ∈ round.toList, c.isDigit = false

instance (round : String) : Decidable (RoundName round) :=
  decidable_of_iff ((round.toList.all fun c => c != '-') ∧ round.toList.any fun c => !c.isDigit) <| by
    rw [List.all_eq_true, List.any_eq_true]
    constructor
    · intro h
      exact ⟨fun hdash => by simpa using h.1 '-' hdash, by simpa using h.2⟩
    · intro h
      exact ⟨fun c hc => bne_iff_ne.mpr fun heq => h.dash (heq ▸ hc), by simpa using h.letter⟩

theorem digits_repr (n : Nat) : ∀ c ∈ (Nat.repr n).toList, c.isDigit = true := by
  intro c hc
  rw [Nat.toList_repr] at hc
  exact Nat.isDigit_of_mem_toDigits (by decide) (by decide) hc

theorem dash_repr (n : Nat) : '-' ∉ (Nat.repr n).toList := by
  intro h
  have hdigit := digits_repr n '-' h
  revert hdigit
  decide

theorem repr_inj {m n : Nat} (h : Nat.repr m = Nat.repr n) : m = n := by
  have hdigits := congrArg (fun s : String => Nat.ofDigitChars 10 s.toList 0) h
  simp only [Nat.toList_repr, Nat.ofDigitChars_ten_toDigits] at hdigits
  exact hdigits

/-- The first field of a dashed text is determined by the text. -/
theorem splitDash {x y s t : List Char} (hx : '-' ∉ x) (hy : '-' ∉ y)
    (h : x ++ '-' :: s = y ++ '-' :: t) : x = y ∧ s = t := by
  induction x generalizing y with
  | nil =>
    cases y with
    | nil => exact ⟨rfl, List.tail_eq_of_cons_eq h⟩
    | cons b y =>
      have hb := List.head_eq_of_cons_eq h
      exact (hy (by rw [← hb]; exact List.mem_cons_self)).elim
  | cons a x ih =>
    cases y with
    | nil =>
      have ha := List.head_eq_of_cons_eq h
      exact (hx (by rw [ha]; exact List.mem_cons_self)).elim
    | cons b y =>
      obtain rfl := List.head_eq_of_cons_eq h
      obtain ⟨rfl, rfl⟩ := ih (fun hmem => hx (List.mem_cons_of_mem a hmem))
        (fun hmem => hy (List.mem_cons_of_mem a hmem)) (List.tail_eq_of_cons_eq h)
      exact ⟨rfl, rfl⟩

theorem field_inj {x y s t : String} (hx : '-' ∉ x.toList) (hy : '-' ∉ y.toList)
    (h : x ++ "-" ++ s = y ++ "-" ++ t) : x = y ∧ s = t := by
  have hlist := congrArg String.toList h
  simp only [String.toList_append, List.append_assoc] at hlist
  obtain ⟨hxy, hst⟩ := splitDash hx hy hlist
  exact ⟨String.toList_inj.mp hxy, String.toList_inj.mp hst⟩

/-- A broadcast key tells its number, its round and its session. -/
theorem broadcastKey_fields {i i' : Nat} {round round' uuid uuid' : String} (hr : RoundName round)
    (hr' : RoundName round') (h : broadcastKey i round uuid = broadcastKey i' round' uuid') :
    i = i' ∧ round = round' ∧ uuid = uuid' := by
  obtain ⟨hi, hrest⟩ := field_inj (dash_repr i) (dash_repr i') h
  obtain ⟨hround, huuid⟩ := field_inj hr.dash hr'.dash hrest
  exact ⟨repr_inj hi, hround, huuid⟩

theorem p2pKey_fields {a a' b b' : Nat} {round round' uuid uuid' : String} (hr : RoundName round)
    (hr' : RoundName round') (h : p2pKey a b round uuid = p2pKey a' b' round' uuid') :
    a = a' ∧ b = b' ∧ round = round' ∧ uuid = uuid' := by
  obtain ⟨ha, hrest⟩ := field_inj (dash_repr a) (dash_repr a') h
  obtain ⟨hb, hrest⟩ := field_inj (dash_repr b) (dash_repr b') hrest
  obtain ⟨hround, huuid⟩ := field_inj hr.dash hr'.dash hrest
  exact ⟨repr_inj ha, repr_inj hb, hround, huuid⟩

theorem broadcastKey_inj {i i' : Nat} {round round' uuid : String} (hr : RoundName round)
    (hr' : RoundName round') (h : broadcastKey i round uuid = broadcastKey i' round' uuid) :
    i = i' ∧ round = round' := by
  obtain ⟨hi, hround, -⟩ := broadcastKey_fields hr hr' h
  exact ⟨hi, hround⟩

theorem p2pKey_inj {a a' b b' : Nat} {round round' uuid : String} (hr : RoundName round)
    (hr' : RoundName round') (h : p2pKey a b round uuid = p2pKey a' b' round' uuid) :
    a = a' ∧ b = b' ∧ round = round' := by
  obtain ⟨ha, hb, hround, -⟩ := p2pKey_fields hr hr' h
  exact ⟨ha, hb, hround⟩

theorem broadcastKey_ne_p2pKey {i a b : Nat} {round round' uuid uuid' : String} (hr : RoundName round) :
    broadcastKey i round uuid ≠ p2pKey a b round' uuid' := by
  intro h
  obtain ⟨-, hrest⟩ := field_inj (dash_repr i) (dash_repr a) h
  obtain ⟨rfl, -⟩ := field_inj hr.dash (dash_repr b) hrest
  obtain ⟨c, hc, hletter⟩ := hr.letter
  rw [digits_repr b c hc] at hletter
  cases hletter

/-! ### Sending and polling -/

section Exchange

variable {ω : Type}

/-- A process of a GG18 party over the map. -/
abbrev PartyProc (ω α : Type) := Proc String String ω α

def broadcast (party_num : Nat) (round data uuid : String) : PartyProc ω Unit :=
  write (broadcastKey party_num round uuid) data

def sendP2p (party_from party_to : Nat) (round data uuid : String) : PartyProc ω Unit :=
  write (p2pKey party_from party_to round uuid) data

/-- The polling loop over the other parties. -/
def pollLoop (key : Nat → String) (party_num : Nat) : List Nat → PartyProc ω (List String)
  | [] => pure []
  | i :: is =>
    if i = party_num then pollLoop key party_num is
    else do
      let answer ← read (key i)
      let ans_vec ← pollLoop key party_num is
      pure (answer :: ans_vec)

def pollForBroadcasts (party_num n : Nat) (round uuid : String) : PartyProc ω (List String) :=
  pollLoop (fun i => broadcastKey i round uuid) party_num (List.range' 1 n)

def pollForP2p (party_num n : Nat) (round uuid : String) : PartyProc ω (List String) :=
  pollLoop (fun i => p2pKey i party_num round uuid) party_num (List.range' 1 n)

theorem pollLoop_follows (key : Nat → String) (p : Nat) (is : List Nat) :
    (pollLoop key p is : PartyProc ω (List String)).Follows ((others p is).map fun i => .poll (key i)) := by
  induction is with
  | nil => rfl
  | cons i is ih =>
    by_cases hip : i = p
    · subst hip
      rw [pollLoop, if_pos rfl, others_self]
      exact ih
    · rw [pollLoop, if_neg hip, others_of_ne is hip]
      refine ⟨(others p is).map fun i => .poll (key i), rfl, fun answer => ?_⟩
      rw [← List.append_nil ((others p is).map _)]
      exact ih.bind fun ans_vec => pure_follows _

/-- What the loop returns is in the store, under the keys of the others in order. -/
theorem pollLoop_holds {C : Contract String String ω} {key : Nat → String} {p : Nat} {is : List Nat}
    {post : List String → Prop}
    (hpost : ∀ ans, List.Forall₂ (fun i v => C.store (key i) = some v) (others p is) ans → post ans) :
    (pollLoop key p is).Holds C post := by
  induction is generalizing post with
  | nil => exact hpost [] List.Forall₂.nil
  | cons i is ih =>
    by_cases hip : i = p
    · subst hip
      rw [pollLoop, if_pos rfl]
      rw [others_self] at hpost
      exact ih hpost
    · rw [pollLoop, if_neg hip, holds_bind, holds_read]
      intro v hv
      rw [holds_bind]
      apply ih
      intro ans hans
      rw [holds_pure]
      apply hpost
      rw [others_of_ne is hip]
      exact List.Forall₂.cons hv hans

/-- Run over a store with all that it polls, the loop returns the entries of the others in order. -/
theorem pollLoop_eval_some {store : String → Option String} {key : Nat → String} {p : Nat} {is : List Nat}
    {ans : List String} (h : (pollLoop key p is : PartyProc ω (List String)).eval store = some ans) :
    List.Forall₂ (fun i v => store (key i) = some v) (others p is) ans := by
  induction is generalizing ans with
  | nil =>
    obtain rfl : [] = ans := Option.some.inj h
    exact List.Forall₂.nil
  | cons i is ih =>
    by_cases hip : i = p
    · subst hip
      rw [pollLoop, if_pos rfl] at h
      rw [others_self]
      exact ih h
    · simp only [pollLoop, if_neg hip, eval_bind, eval_read, eval_pure, Option.bind_eq_some_iff,
        Option.some.injEq] at h
      obtain ⟨answer, hanswer, ans_vec, hans, rfl⟩ := h
      rw [others_of_ne is hip]
      exact List.Forall₂.cons hanswer (ih hans)

end Exchange

/-! ### What the store says that a party sent -/

/-- The entry `k` is there and decodes to `b`. -/
def Stored {β : Type} [Serde β] (store : String → Option String) (k : String) (b : β) : Prop :=
  ∃ v, store k = some v ∧ Serde.fromStr v = some b

theorem stored_toStr {β : Type} [Serde β] {store : String → Option String} {k : String} {b : β}
    (h : store k = some (Serde.toStr b)) : Stored store k b := ⟨_, h, Serde.round_trip b⟩

theorem Stored.unique {β : Type} [Serde β] {store : String → Option String} {k : String} {b c : β}
    (hb : Stored store k b) (hc : Stored store k c) : b = c := by
  obtain ⟨v, hv, hb⟩ := hb
  obtain ⟨w, hw, hc⟩ := hc
  rw [hv, Option.some.injEq] at hw
  subst hw
  rw [hb, Option.some.injEq] at hc
  exact hc

/-- The values of parties `1..=n` in a round, as the store has them. -/
def Everyone {β : Type} [Serde β] (store : String → Option String) (n : Nat) (round uuid : String)
    (vec : List β) : Prop :=
  List.Forall₂ (fun i b => Stored store (broadcastKey i round uuid) b) (List.range' 1 n) vec

theorem Everyone.unique {β : Type} [Serde β] {store : String → Option String} {n : Nat}
    {round uuid : String} {vec vec' : List β} (h : Everyone store n round uuid vec)
    (h' : Everyone store n round uuid vec') : vec = vec' :=
  forall₂_unique (fun _ _ _ _ hb hc => hb.unique hc) h h'

theorem Everyone.length {β : Type} [Serde β] {store : String → Option String} {n : Nat}
    {round uuid : String} {vec : List β} (h : Everyone store n round uuid vec) : vec.length = n :=
  (forall₂_range'_iff.mp h).1

/-- The entry of party `i`. -/
theorem Everyone.at {β : Type} [Serde β] {store : String → Option String} {n : Nat}
    {round uuid : String} {vec : List β} (h : Everyone store n round uuid vec) {i : Nat} (hi : 1 ≤ i)
    (hn : i ≤ n) : ∃ b, vec[i - 1]? = some b ∧ Stored store (broadcastKey i round uuid) b :=
  forall₂_range'_at h hi hn

/-! ### A round of broadcasts -/

section Rounds

variable {ω : Type}

/-- Writing one's own broadcast of a round and polling those of the others. -/
def roundPlan (p n : Nat) (round uuid : String) : List (Op String) :=
  .put (broadcastKey p round uuid) ::
    (others p (List.range' 1 n)).map fun i => .poll (broadcastKey i round uuid)

/-- Sending a message to each of the others. -/
def sendPlan (p n : Nat) (round uuid : String) : List (Op String) :=
  (others p (List.range' 1 n)).map fun i => .put (p2pKey p i round uuid)

/-- Polling the messages of the others. -/
def receivePlan (p n : Nat) (round uuid : String) : List (Op String) :=
  (others p (List.range' 1 n)).map fun i => .poll (p2pKey i p round uuid)

/-- A broadcast of the own value, and the values of all parties in order. -/
def shareRound {β : Type} [Serde β] (party_num n : Nat) (round uuid : String) (own : β) :
    PartyProc ω (List β) := do
  broadcast party_num round (Serde.toStr own) uuid
  let ans_vec ← pollForBroadcasts party_num n round uuid
  ofOption (weave own Serde.fromStr party_num ans_vec (List.range' 1 n) 0)

/-! A broadcast, the answers of the others, and a function that puts the own value among them. -/

theorem mergeRound_follows {β : Type} (p n : Nat) (round uuid own : String) (merge : List String → Option β) :
    (do
      broadcast p round own uuid
      let ans_vec ← pollForBroadcasts p n round uuid
      ofOption (merge ans_vec) : PartyProc ω β).Follows (roundPlan p n round uuid) := by
  apply Follows.writeBind
  rw [← List.append_nil (List.map _ _)]
  exact (pollLoop_follows _ p _).bind fun ans_vec => ofOption_follows _

theorem mergeRound_holds {β : Type} {C : Contract String String ω} {p n : Nat} {round uuid own : String}
    {merge : List String → Option β} {post : β → Prop}
    (hwrite : C.writes (broadcastKey p round uuid) own)
    (hmerge : ∀ ans_vec out, C.store (broadcastKey p round uuid) = some own →
      List.Forall₂ (fun i v => C.store (broadcastKey i round uuid) = some v) (others p (List.range' 1 n))
        ans_vec → merge ans_vec = some out → post out) :
    (do
      broadcast p round own uuid
      let ans_vec ← pollForBroadcasts p n round uuid
      ofOption (merge ans_vec) : PartyProc ω β).Holds C post := by
  rw [broadcast, holds_bind, holds_write]
  refine ⟨hwrite, fun hown => ?_⟩
  rw [holds_bind]
  apply pollLoop_holds
  intro ans_vec hans
  rw [holds_ofOption]
  intro out hout
  exact hmerge ans_vec out hown hans hout

theorem shareRound_follows {β : Type} [Serde β] (p n : Nat) (round uuid : String) (own : β) :
    (shareRound p n round uuid own : PartyProc ω (List β)).Follows (roundPlan p n round uuid) :=
  mergeRound_follows p n round uuid _ _

theorem weave_everyone {β : Type} [Serde β] {store : String → Option String} {p n : Nat}
    {round uuid : String} {own : β} {ans : List String} {vec : List β}
    (hown : store (broadcastKey p round uuid) = some (Serde.toStr own))
    (hans : List.Forall₂ (fun i v => store (broadcastKey i round uuid) = some v)
      (others p (List.range' 1 n)) ans)
    (hvec : weave own Serde.fromStr p ans (List.range' 1 n) 0 = some vec) :
    Everyone store n round uuid vec := by
  rw [← List.drop_zero (l := ans)] at hans
  exact weave_spec (R := fun i b => Stored store (broadcastKey i round uuid) b) (stored_toStr hown)
    (fun _ v _ hv hb => ⟨v, hv, hb⟩) hans hvec

theorem shareRound_holds {β : Type} [Serde β] {C : Contract String String ω} {p n : Nat}
    {round uuid : String} {own : β} {post : List β → Prop}
    (hwrite : C.writes (broadcastKey p round uuid) (Serde.toStr own))
    (hpost : ∀ vec, Everyone C.store n round uuid vec → post vec) :
    (shareRound p n round uuid own).Holds C post :=
  mergeRound_holds hwrite fun _ vec hown hans hvec => hpost vec (weave_everyone hown hans hvec)

end Rounds

end Gg18
