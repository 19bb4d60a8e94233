import Mathlib.Data.List.Sort
import Mathlib.Logic.Encodable.Basic
import MultiPartyTss.Lib.Serde
import MultiPartyTss.Gg20.Db

/-!
# Joining a computation

`join_computation` gives a node three things: the index that the room issued to it, the incoming messages
that its filter lets through, and a sink. Two numberings meet here. The filter works with the index that
was issued, by order of arrival. The protocols work with other ones: `keygen` with the index of its
request, and `sign` with the issued index as a position in the sorted list of keygen indices.

`keygen_routing_iff` and `sign_position_iff` say that each of them is right exactly when the nodes arrive
in the order of their indices. Both come from `issued_agree_iff`: the `k`-th node served is issued `k`.
-/

namespace Gg20

/-- `round_based::Msg`. -/
structure Msg (M : Type) where
  sender : Nat
  receiver : Option Nat
  body : M
  deriving DecidableEq, Repr

instance {M : Type} [Encodable M] : Encodable (Msg M) :=
  Encodable.ofEquiv (Nat × Option Nat × M)
    ⟨fun m => (m.sender, m.receiver, m.body), fun m => ⟨m.1, m.2.1, m.2.2⟩, fun _ => rfl, fun _ => rfl⟩

namespace SmClient

section Incoming

variable {M : Type} [Serde (Msg M)]

/-- One item of the subscription, deserialized. -/
def deserialize : Except String String → Except String (Msg M)
  | .ok text =>
    match Serde.fromStr text with
    | some msg => .ok msg
    | none => .error "deserialize message"
  | .error e => .error e

/-- The condition of `try_filter`. -/
def addressedTo (index : Nat) (msg : Msg M) : Bool :=
  msg.sender != index && (msg.receiver.isNone || msg.receiver == some index)

/-- The incoming stream of `join_computation`; `try_filter` lets errors through. -/
def incoming (index : Nat) (texts : List (Except String String)) : List (Except String (Msg M)) :=
  (texts.map deserialize).filter fun item =>
    match item with
    | .ok msg => addressedTo index msg
    | .error _ => true

theorem mem_incoming {index : Nat} {texts : List (Except String String)} {msg : Msg M} :
    .ok msg ∈ incoming index texts ↔
      .ok msg ∈ texts.map deserialize ∧ msg.sender ≠ index ∧
        (msg.receiver = none ∨ msg.receiver = some index) := by
  simp [incoming, addressedTo]

end Incoming

/-- The `issue_unique_idx` calls of some nodes, in the order in which the room serves them: who was issued
which index. -/
def issueAll {ν : Type*} (room : Room) : List ν → List (ν × Nat)
  | [] => []
  | v :: arrival => (v, room.issueUniqueIdx.1) :: issueAll room.issueUniqueIdx.2 arrival

theorem issueAll_eq {ν : Type*} (room : Room) (arrival : List ν)
    (hfit : room.next_idx + arrival.length ≤ U16.size) :
    issueAll room arrival = arrival.zipIdx room.next_idx := by
  induction arrival generalizing room with
  | nil => rfl
  | cons v arrival ih =>
    rw [List.length_cons] at hfit
    rw [issueAll, List.zipIdx_cons]
    refine congrArg _ ?_
    cases arrival with
    | nil => rfl
    | cons w arrival =>
      rw [List.length_cons] at hfit
      have hnext : room.issueUniqueIdx.2.next_idx = room.next_idx + 1 :=
        U16.fetchAdd_of_lt (show room.next_idx + 1 < U16.size by omega)
      rw [ih room.issueUniqueIdx.2 (by rw [hnext, List.length_cons]; omega), hnext]

/-- In a fresh room, the `k`-th node served is issued `k`. -/
theorem mem_issueAll_empty {ν : Type*} {arrival : List ν} (hfit : arrival.length < U16.size) {v : ν}
    {i : Nat} : (v, i) ∈ issueAll Room.empty arrival ↔ 1 ≤ i ∧ arrival[i - 1]? = some v := by
  rw [issueAll_eq Room.empty arrival (by show 1 + _ ≤ _; omega)]
  exact List.mk_mem_zipIdx_iff_le_and_getElem?_sub

/-- The issued indices are the positions of the nodes in a list exactly if they arrive in its order. -/
theorem issued_agree_iff {ν α : Type*} {arrival : List ν} (f : ν → α) {ordered : List α}
    (hfit : arrival.length < U16.size) (hlen : arrival.length = ordered.length) :
    (∀ v i, (v, i) ∈ issueAll Room.empty arrival → ordered[i - 1]? = some (f v)) ↔
      arrival.map f = ordered := by
  constructor
  · intro h
    refine List.ext_getElem? fun j => ?_
    rw [List.getElem?_map]
    cases hj : arrival[j]? with
    | none =>
      rw [List.getElem?_eq_none_iff] at hj
      rw [Option.map_none, List.getElem?_eq_none (by omega)]
    | some v => exact (h v (j + 1) ((mem_issueAll_empty hfit).mpr ⟨Nat.le_add_left 1 j, hj⟩)).symm
  · rintro rfl v i hmem
    rw [List.getElem?_map, ((mem_issueAll_empty hfit).mp hmem).2, Option.map_some]

end SmClient

open SmClient

/-! ### Key generation -/

section Keygen

variable {M : Type} [Serde (Msg M)]

/-- A message of the keygen of `n` parties: sent by a party, to all or to a party. -/
def ProtocolMsg (n : Nat) (msg : Msg M) : Prop :=
  (1 ≤ msg.sender ∧ msg.sender ≤ n) ∧ ∀ r, msg.receiver = some r → 1 ≤ r ∧ r ≤ n

/-- The stream filtered with the issued index `i` gives to party `p` the messages of the others that are
broadcast or for `p`, and no other message. -/
def RoutedAs (M : Type) [Serde (Msg M)] (n p i : Nat) : Prop :=
  ∀ texts : List (Except String String),
    (∀ msg : Msg M, .ok msg ∈ texts.map deserialize → ProtocolMsg n msg) →
    ∀ msg : Msg M, .ok msg ∈ texts.map deserialize →
      (.ok msg ∈ incoming i texts ↔ msg.sender ≠ p ∧ (msg.receiver = none ∨ msg.receiver = some p))

theorem routedAs_iff [Inhabited M] {n p i : Nat} (hp : 1 ≤ p) (hn : p ≤ n) : RoutedAs M n p i ↔ i = p := by
  constructor
  · intro h
    by_contra hne
    -- a broadcast of `p` itself
    have hback : ([.ok (Serde.toStr (⟨p, none, default⟩ : Msg M))] : List (Except String String)).map
        deserialize = [Except.ok (⟨p, none, default⟩ : Msg M)] := by
      simp [deserialize]
    have hrouted := h [.ok (Serde.toStr (⟨p, none, default⟩ : Msg M))] (fun msg hmsg => by
      rw [hback, List.mem_singleton, Except.ok.injEq] at hmsg
      subst hmsg
      exact ⟨⟨hp, hn⟩, by rintro r ⟨⟩⟩) ⟨p, none, default⟩
        (by rw [hback]; exact List.mem_singleton_self _)
    rw [mem_incoming] at hrouted
    exact (hrouted.mp ⟨by rw [hback]; exact List.mem_singleton_self _, Ne.symm hne, Or.inl rfl⟩).1 rfl
  · rintro rfl texts - msg hmsg
    rw [mem_incoming]
    exact ⟨fun h => h.2, fun h => ⟨hmsg, h⟩⟩

/-- Every party of a keygen gets its messages exactly if the nodes are served in the order of the indices
they were requested to run with. -/
theorem keygen_routing_iff [Inhabited M] {ν : Type} (arrival : List ν) (requested : ν → Nat)
    (hfit : arrival.length < U16.size)
    (hperm : (arrival.map requested).Perm (List.range' 1 arrival.length)) :
    (∀ v i, (v, i) ∈ issueAll Room.empty arrival → RoutedAs M arrival.length (requested v) i) ↔
      arrival.map requested = List.range' 1 arrival.length := by
  rw [← issued_agree_iff requested hfit (by simp)]
  refine forall_congr' fun v => forall_congr' fun i => forall_congr' fun hmem => ?_
  obtain ⟨hi, hget⟩ := (mem_issueAll_empty hfit).mp hmem
  have hv : requested v ∈ List.range' 1 arrival.length :=
    hperm.subset (List.mem_map_of_mem (List.mem_of_getElem? hget))
  rw [List.mem_range'_1] at hv
  have hlt := (List.getElem?_eq_some_iff.mp hget).1
  rw [routedAs_iff hv.1 (by omega), List.getElem?_range' (by omega), Option.some.injEq]
  omega

end Keygen

/-- The second of three nodes served in the order of their indices. -/
theorem ordered_keygen_routed :
    letI := Serde.numeric (Msg Nat)
    RoutedAs Nat 3 2 2 := by
  let _ := Serde.numeric (Msg Nat)
  exact (keygen_routing_iff ["x", "y", "z"] (fun v => if v = "x" then 1 else if v = "y" then 2 else 3)
    (by decide) (by decide)).mpr (by decide) "y" 2 (by decide)

/-- Two nodes served in the other order: each filters with the index of the other. -/
theorem swapped_keygen_misrouted :
    ¬ ∀ (_ : Serde (Msg Nat)) (arrival : List String) (requested : String → Nat),
      arrival.length < U16.size → (arrival.map requested).Perm (List.range' 1 arrival.length) →
        ∀ v i, (v, i) ∈ issueAll Room.empty arrival → RoutedAs Nat arrival.length (requested v) i := by
  intro h
  let _ := Serde.numeric (Msg Nat)
  have hrouted := h (Serde.numeric (Msg Nat)) ["y", "x"] (fun v => if v = "x" then 1 else 2) (by decide)
    (by decide) "y" 1 (by decide)
  have heq := (routedAs_iff (by decide) (by decide)).mp hrouted
  revert heq
  decide

/-! ### Signing -/

/-- An entry of the gateway's `nodes`. -/
structure PubKeyIndex where
  index : Nat
  parties : Nat
  threshold : Nat
  node : String
  deriving DecidableEq, Repr

/-- The list `parties` that the gateway sends to every signer; `sort_by` is stable, as this sort is. -/
def signParties (nodes : List PubKeyIndex) : List Nat :=
  (nodes.insertionSort fun a b => a.index ≤ b.index).map PubKeyIndex.index

/-- A signer: its entry at the gateway and the index `i` of its own `local_share`, which is the one it had
in keygen. -/
structure Signer where
  entry : PubKeyIndex
  i : Nat
  stored : i = entry.index

/-- The `i` of every `OfflineStage::new(i, parties, local_share)` is the position of the signer in `parties`
exactly if the signers are served in the order of their keygen indices. -/
theorem sign_position_iff (signers arrival : List Signer) (hperm : arrival.Perm signers)
    (hfit : signers.length < U16.size) :
    (∀ v i, (v, i) ∈ issueAll Room.empty arrival →
        (signParties (signers.map Signer.entry))[i - 1]? = some v.i) ↔
      arrival.map Signer.i = signParties (signers.map Signer.entry) := by
  refine issued_agree_iff Signer.i (by rw [hperm.length_eq]; exact hfit) ?_
  rw [signParties, List.length_map, (List.perm_insertionSort _ _).length_eq, List.length_map, hperm.length_eq]

/-- Signers 1 and 3 of three keygen parties, served in this order: signer 3 is second. -/
theorem ordered_signers_positioned :
    (signParties [⟨3, 3, 1, "z"⟩, ⟨1, 3, 1, "x"⟩])[2 - 1]? = some 3 :=
  (sign_position_iff [⟨⟨3, 3, 1, "z"⟩, 3, rfl⟩, ⟨⟨1, 3, 1, "x"⟩, 1, rfl⟩]
    [⟨⟨1, 3, 1, "x"⟩, 1, rfl⟩, ⟨⟨3, 3, 1, "z"⟩, 3, rfl⟩] (List.Perm.swap _ _ _) (by decide)).mpr
    (by decide) ⟨⟨3, 3, 1, "z"⟩, 3, rfl⟩ 2 (List.mem_cons_of_mem _ List.mem_cons_self)

/-- The same two signers served the other way round: signer 3 is told that it is the first of `[1, 3]`. -/
theorem swapped_signers_misplaced :
    ¬ ∀ signers arrival : List Signer, arrival.Perm signers → signers.length < U16.size →
      ∀ v i, (v, i) ∈ issueAll Room.empty arrival →
        (signParties (signers.map Signer.entry))[i - 1]? = some v.i := by
  intro h
  have hplaced := h [⟨⟨1, 3, 1, "x"⟩, 1, rfl⟩, ⟨⟨3, 3, 1, "z"⟩, 3, rfl⟩]
    [⟨⟨3, 3, 1, "z"⟩, 3, rfl⟩, ⟨⟨1, 3, 1, "x"⟩, 1, rfl⟩] (List.Perm.swap _ _ _) (by decide)
    ⟨⟨3, 3, 1, "z"⟩, 3, rfl⟩ 1 List.mem_cons_self
  revert hplaced
  decide

end Gg20
