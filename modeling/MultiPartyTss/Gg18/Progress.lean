import MultiPartyTss.Gg18.Reassembly
import MultiPartyTss.Gg18.Session
import MultiPartyTss.Lib.Progress

/-!
# Rounds without a deadlock

The plans of a session can be timed by their rounds: in a round a party first writes and then polls, and
what is received was sent in an earlier round (`Supplied`). So parties that keep to their plans never wait
in a circle (`session_scheduled`, `session_settled`).
-/

namespace Gg18

open Proc Slots Network

/-! ### Timed plans -/

/-- The operations of round number `j`: it writes at `2 * j` and polls at `2 * j + 1`. -/
def Round.timed (p n : Nat) (uuid : String) (j : Nat) : Round → List (Nat × Op String)
  | share round =>
    (2 * j, .put (broadcastKey p round uuid)) ::
      (others p (List.range' 1 n)).map fun i => (2 * j + 1, .poll (broadcastKey i round uuid))
  | send round => (others p (List.range' 1 n)).map fun i => (2 * j, .put (p2pKey p i round uuid))
  | receive round => (others p (List.range' 1 n)).map fun i => (2 * j + 1, .poll (p2pKey i p round uuid))

def timedPlan (p n : Nat) (uuid : String) : Nat → List Round → List (Nat × Op String)
  | _, [] => []
  | j, r :: rounds => r.timed p n uuid j ++ timedPlan p n uuid (j + 1) rounds

/-- Each round of receiving comes after the one of sending. -/
def Supplied (sent : List String) : List Round → Prop
  | [] => True
  | .share _ :: rounds => Supplied sent rounds
  | .send round :: rounds => Supplied (round :: sent) rounds
  | .receive round :: rounds => round ∈ sent ∧ Supplied sent rounds

variable {p n : Nat} {uuid : String} {rounds : List Round}

theorem timed_plan (p n : Nat) (uuid : String) (j : Nat) (r : Round) :
    (r.timed p n uuid j).map Prod.snd = r.plan p n uuid := by
  cases r <;> simp [Round.timed, Round.plan, roundPlan, sendPlan, receivePlan, Function.comp_def]

theorem timedPlan_plan (p n : Nat) (uuid : String) (j : Nat) (rounds : List Round) :
    (timedPlan p n uuid j rounds).map Prod.snd = exchangePlan p n uuid rounds := by
  induction rounds generalizing j with
  | nil => rfl
  | cons r rounds ih => rw [timedPlan, List.map_append, timed_plan, ih, exchangePlan]

/-- The times of a round. -/
theorem timed_time {j : Nat} {r : Round} {x : Nat × Op String} (hx : x ∈ r.timed p n uuid j) :
    (x.1 = 2 * j ∧ ∃ k, x.2 = .put k) ∨ (x.1 = 2 * j + 1 ∧ ∃ k, x.2 = .poll k) := by
  cases r with
  | share round =>
    rcases List.mem_cons.mp hx with rfl | hx
    · exact Or.inl ⟨rfl, _, rfl⟩
    · obtain ⟨i, -, rfl⟩ := List.mem_map.mp hx
      exact Or.inr ⟨rfl, _, rfl⟩
  | send round =>
    obtain ⟨i, -, rfl⟩ := List.mem_map.mp hx
    exact Or.inl ⟨rfl, _, rfl⟩
  | receive round =>
    obtain ⟨i, -, rfl⟩ := List.mem_map.mp hx
    exact Or.inr ⟨rfl, _, rfl⟩

theorem timedPlan_time {j : Nat} {x : Nat × Op String} (hx : x ∈ timedPlan p n uuid j rounds) : 2 * j ≤ x.1 := by
  induction rounds generalizing j with
  | nil => exact (List.not_mem_nil hx).elim
  | cons r rounds ih =>
    rcases List.mem_append.mp hx with hx | hx
    · have := timed_time hx
      omega
    · have := ih hx
      omega

theorem timed_sorted (p n : Nat) (uuid : String) (j : Nat) (r : Round) :
    (r.timed p n uuid j).Pairwise fun x y => x.1 ≤ y.1 := by
  have hmap : ∀ (time : Nat) (op : Nat → Op String) (is : List Nat),
      (is.map fun i => (time, op i)).Pairwise fun x y => x.1 ≤ y.1 := by
    intro time op is
    exact List.pairwise_map.mpr (List.pairwise_of_forall fun _ _ => Nat.le_refl _)
  cases r with
  | share round =>
    refine List.pairwise_cons.mpr ⟨fun x hx => ?_, hmap _ _ _⟩
    obtain ⟨i, -, rfl⟩ := List.mem_map.mp hx
    exact Nat.le_succ _
  | send round => exact hmap _ _ _
  | receive round => exact hmap _ _ _

theorem timedPlan_sorted (p n : Nat) (uuid : String) (j : Nat) (rounds : List Round) :
    (timedPlan p n uuid j rounds).Pairwise fun x y => x.1 ≤ y.1 := by
  induction rounds generalizing j with
  | nil => exact List.Pairwise.nil
  | cons r rounds ih =>
    refine List.pairwise_append.mpr ⟨timed_sorted p n uuid j r, ih (j + 1), fun x hx y hy => ?_⟩
    have hx := timed_time hx
    have hy := timedPlan_time hy
    omega

/-- What party `p` polls is written by one of the parties before, or was sent in a round before these. -/
theorem timedPlan_supply {j i : Nat} {sent : List String} {k : String} (hsupplied : Supplied sent rounds)
    (hp : 1 ≤ p ∧ p ≤ n) (hk : (i, .poll k) ∈ timedPlan p n uuid j rounds) :
    (∃ q time, (1 ≤ q ∧ q ≤ n) ∧ time < i ∧ (time, .put k) ∈ timedPlan q n uuid j rounds) ∨
      ∃ q, (1 ≤ q ∧ q ≤ n ∧ q ≠ p) ∧ ∃ round ∈ sent, k = p2pKey q p round uuid := by
  have hothers : ∀ q, q ∈ others p (List.range' 1 n) → 1 ≤ q ∧ q ≤ n ∧ q ≠ p := by
    intro q hq
    rw [mem_others, List.mem_range'_1] at hq
    omega
  induction rounds generalizing j sent with
  | nil => exact (List.not_mem_nil hk).elim
  | cons r rounds ih =>
    have hlater : (∃ q time, (1 ≤ q ∧ q ≤ n) ∧ time < i ∧
        (time, .put k) ∈ timedPlan q n uuid (j + 1) rounds) →
        ∃ q time, (1 ≤ q ∧ q ≤ n) ∧ time < i ∧ (time, .put k) ∈ timedPlan q n uuid j (r :: rounds) := by
      intro h
      obtain ⟨q, time, hq, htime, hmem⟩ := h
      exact ⟨q, time, hq, htime, List.mem_append_right _ hmem⟩
    rcases List.mem_append.mp hk with hk | hrest
    · cases r with
      | share round =>
        rcases List.mem_cons.mp hk with hk | hk
        · simp at hk
        · obtain ⟨q, hq, heq⟩ := List.mem_map.mp hk
          obtain ⟨rfl, hop⟩ := Prod.ext_iff.mp heq
          obtain rfl := Op.poll.inj hop
          obtain ⟨hpos, hle, -⟩ := hothers q hq
          exact Or.inl ⟨q, 2 * j, ⟨hpos, hle⟩, Nat.lt_succ_self _,
            List.mem_append_left _ List.mem_cons_self⟩
      | send round =>
        obtain ⟨q, -, heq⟩ := List.mem_map.mp hk
        simp at heq
      | receive round =>
        obtain ⟨q, hq, heq⟩ := List.mem_map.mp hk
        obtain rfl := Op.poll.inj (congrArg Prod.snd heq)
        exact Or.inr ⟨q, hothers q hq, round, hsupplied.1, rfl⟩
    · cases r with
      | share round => exact (ih hsupplied hrest).imp_left hlater
      | receive round => exact (ih hsupplied.2 hrest).imp_left hlater
      | send round =>
        rcases ih hsupplied hrest with h | ⟨q, hq, round', hround, rfl⟩
        · exact Or.inl (hlater h)
        · rcases List.mem_cons.mp hround with rfl | hround
          · -- sent in this round
            have htime := timedPlan_time hrest
            refine Or.inl ⟨q, 2 * j, ⟨hq.1, hq.2.1⟩, by omega,
              List.mem_append_left _ (List.mem_map.mpr ⟨p, ?_, rfl⟩)⟩
            rw [mem_others, List.mem_range'_1]
            omega
          · exact Or.inr ⟨q, hq, round', hround, rfl⟩

/-- The plans of parties with all the numbers `1..=n` can be timed. -/
theorem session_scheduled {P : Type} {number : P → Option Nat} (hsupplied : Supplied [] rounds)
    (hbounds : ∀ p i, number p = some i → 1 ≤ i ∧ i ≤ n)
    (hall : ∀ i, 1 ≤ i → i ≤ n → ∃ p, number p = some i) :
    Scheduled (sessionPlan number n uuid rounds) := by
  let timed : P → List (Nat × Op String) := fun p => (number p).elim [] fun i => timedPlan i n uuid 0 rounds
  have htimed : ∀ p i, number p = some i → timed p = timedPlan i n uuid 0 rounds := by
    intro p i hi
    simp only [timed, hi, Option.elim_some]
  have hnone : ∀ p, number p = none → timed p = [] := by
    intro p hp
    simp only [timed, hp, Option.elim_none]
  refine ⟨timed, fun p => ?_, fun p => ?_, fun p i k hk => ?_⟩
  · cases hp : number p with
    | none => simp [hnone p hp, sessionPlan, hp]
    | some i => rw [htimed p i hp, timedPlan_plan, sessionPlan_of_some hp]
  · cases hp : number p with
    | none => simp [hnone p hp]
    | some i =>
      rw [htimed p i hp]
      exact timedPlan_sorted i n uuid 0 rounds
  · cases hp : number p with
    | none => simp [hnone p hp] at hk
    | some m =>
      rw [htimed p m hp] at hk
      obtain ⟨q, time, hq, htime, hmem⟩ | ⟨_, _, _, hround, -⟩ := timedPlan_supply hsupplied (hbounds p m hp) hk
      · obtain ⟨p', hp'⟩ := hall q hq.1 hq.2
        refine ⟨p', time, htime, ?_⟩
        rwa [htimed p' q hp']
      · exact (List.not_mem_nil hround).elim

theorem parties_scheduled (hsupplied : Supplied [] rounds) :
    Scheduled (sessionPlan (parties n fun p => p) n uuid rounds) := by
  refine session_scheduled hsupplied (fun p i hi => ?_) fun i hi hn => ⟨i, parties_of_bounds ⟨hi, hn⟩⟩
  obtain ⟨hp, rfl⟩ := parties_some hi
  exact hp

/-- Parties `1..=n` that come to the end of their plans when they are run in advance. -/
theorem session_settled {A ω : Type} {input : Nat → A} {process : A → PartyProc ω String}
    {E : String → String → Prop} {crash : Prop} {schedule : List Nat} {net : Net Nat String String ω String}
    (hprocess : ∀ p, 1 ≤ p → p ≤ n →
      (process (input p)).Completes E crash (exchangePlan p n uuid rounds) fun _ => True)
    (hrun : Machine.exec Net.move (Net.start fun p => (parties n input p).map process) schedule = some net) :
    Settled E crash (sessionPlan (parties n fun p => p) n uuid rounds) net ∧
      ∀ p, sessionPlan (parties n fun p => p) n uuid rounds p ≠ [] → ∃ party, net.party p = some party := by
  refine Machine.exec_invariant
    (I := fun net => Settled E crash (sessionPlan (parties n fun p => p) n uuid rounds) net ∧
      ∀ p, sessionPlan (parties n fun p => p) n uuid rounds p ≠ [] → ∃ party, net.party p = some party)
    (fun s p t h hmove => ⟨move_settled h.1 hmove, fun q hq => (move_present hmove).mpr (h.2 q hq)⟩)
    ⟨start_settled fun p x hx => ?_, fun p hp => ?_⟩ hrun
  · obtain ⟨a, ha, rfl⟩ := Option.map_eq_some_iff.mp hx
    obtain ⟨hp, rfl⟩ := parties_some ha
    rw [sessionPlan_of_some (parties_of_bounds hp)]
    exact hprocess p hp.1 hp.2
  · obtain ⟨op, hop⟩ := List.exists_mem_of_ne_nil _ hp
    obtain ⟨i, hi, -⟩ := mem_sessionPlan hop
    have hparty : parties n input p = some (input p) := parties_of_bounds (parties_some hi).1
    exact ⟨⟨process (input p), process (input p), [], []⟩, by simp [Net.start, hparty]⟩

/-! ### The rounds of one party -/

/-- What parties `1..=n` of a session write, given what each of them broadcasts and sends. -/
def Expected (n : Nat) (uuid : String) (broadcasts : Nat → String → String → Prop)
    (sends : Nat → Nat → String → Prop) (k v : String) : Prop :=
  ∃ p, (1 ≤ p ∧ p ≤ n) ∧ Written p uuid (broadcasts p) (sends p) k v

section Expected

variable {broadcasts : Nat → String → String → Prop} {sends : Nat → Nat → String → Prop} {v : String}

theorem expected_broadcast {i : Nat} {round : String} (hr : RoundName round)
    (h : Expected n uuid broadcasts sends (broadcastKey i round uuid) v) : broadcasts i round v := by
  obtain ⟨q, -, hwritten⟩ := h
  obtain ⟨rfl, hv⟩ := hwritten.of_broadcast hr rfl
  exact hv

theorem expected_send {i b : Nat} {round : String} (hr : RoundName round)
    (h : Expected n uuid broadcasts sends (p2pKey i b round uuid) v) : sends i b v := by
  obtain ⟨q, -, hwritten⟩ := h
  obtain ⟨rfl, hv⟩ := hwritten.of_send hr rfl
  exact hv

end Expected

section Rounds

variable {ω : Type} {E : String → String → Prop}

theorem pollLoop_completes {key m : Nat → String} {is : List Nat} (hread : ∀ i v, E (key i) v → v = m i) :
    (pollLoop key p is : PartyProc ω (List String)).Completes E False
      ((others p is).map fun i => .poll (key i)) fun ans => ans = (others p is).map m := by
  induction is with
  | nil => exact completes_pure rfl
  | cons i is ih =>
    by_cases hip : i = p
    · subst hip
      rw [pollLoop, if_pos rfl, others_self]
      exact ih
    · rw [pollLoop, if_neg hip, others_of_ne is hip]
      refine ⟨(others p is).map fun i => .poll (key i), rfl, fun answer hanswer => ?_⟩
      rw [← List.append_nil ((others p is).map fun i => Op.poll (key i))]
      refine ih.bind fun ans_vec hans => completes_pure ?_
      rw [hans, hread i answer hanswer, List.map_cons]

variable {β : Type} [Serde β] {m : Nat → β} {round : String}

/-- A round in which party `i` broadcasts `m i`. -/
theorem mergeRound_completes {γ : Type} {merge : List String → Option γ} {out : γ}
    (hwrite : E (broadcastKey p round uuid) (Serde.toStr (m p)))
    (hread : ∀ i v, E (broadcastKey i round uuid) v → v = Serde.toStr (m i))
    (hmerge : merge ((others p (List.range' 1 n)).map fun i => Serde.toStr (m i)) = some out) :
    (do
      broadcast p round (Serde.toStr (m p)) uuid
      let ans_vec ← pollForBroadcasts p n round uuid
      ofOption (merge ans_vec) : PartyProc ω γ).Completes E False (roundPlan p n round uuid)
      fun vec => vec = out := by
  apply Completes.writeBind hwrite
  rw [← List.append_nil (List.map _ _)]
  refine (pollLoop_completes hread).bind fun ans_vec hans => ?_
  rw [hans]
  exact completes_ofOption hmerge rfl

theorem shareRound_completes (hwrite : E (broadcastKey p round uuid) (Serde.toStr (m p)))
    (hread : ∀ i v, E (broadcastKey i round uuid) v → v = Serde.toStr (m i)) :
    (shareRound p n round uuid (m p) : PartyProc ω (List β)).Completes E False (roundPlan p n round uuid)
      fun vec => vec = everyone n m :=
  mergeRound_completes hwrite hread (weave_eq (fun i _ => Serde.round_trip (m i)) rfl)

end Rounds

end Gg18
