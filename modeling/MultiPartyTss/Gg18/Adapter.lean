import Mathlib.Data.List.Basic
import Mathlib.Logic.Function.Basic
import MultiPartyTss.Lib.Serde

/-!
# The in-process community store

The manager keeps one `HashMap<String, String>` behind a `RwLock`. `StoreCommunity` is the adapter over
it: `get_entry` and `set_entry` take the lock once, `get_party_signup` takes it twice, first to read the
signup entry and decide, then to write the new one. The two sections of `get_party_signup` are separate
functions here, because another caller can run between them.
-/

namespace Gg18

structure Entry where
  key : String
  value : String
  deriving DecidableEq, Repr

/-- A slot in a signup room: the `u16` number and the uuid of the session. -/
structure PartySignup where
  number : Nat
  uuid : String
  deriving DecidableEq, Repr

/-! ### The compact JSON of a signup

The text `serde_json` writes for a `PartySignup` whose uuid needs no escape, and its reader. -/

namespace PartySignup

def render (p : PartySignup) : List Char :=
  "\x7b\"number\":".toList ++ (Nat.toDigits 10 p.number ++ (",\"uuid\":\"".toList ++
    (p.uuid.toList ++ "\"\x7d".toList)))

/-- Reads the two fields at their places, and accepts the text if it is the rendering of what was read. -/
def parse (text : List Char) : Option PartySignup :=
  let fields := text.drop 10
  let digits := fields.takeWhile Char.isDigit
  let tail := fields.drop (digits.length + 9)
  let p : PartySignup := ⟨Nat.ofDigitChars 10 digits 0, String.ofList (tail.take (tail.length - 2))⟩
  if p.render = text then some p else none

theorem parse_render (p : PartySignup) : parse p.render = some p := by
  have hfields : p.render.drop 10 = Nat.toDigits 10 p.number ++ (",\"uuid\":\"".toList ++
      (p.uuid.toList ++ "\"\x7d".toList)) := rfl
  have hdigits := Serde.takeWhile_digits p.number (",\"uuid\":\"".toList ++
    (p.uuid.toList ++ "\"\x7d".toList)) rfl
  have htail : (p.render.drop 10).drop ((Nat.toDigits 10 p.number).length + 9)
      = p.uuid.toList ++ "\"\x7d".toList := by
    rw [hfields, ← List.drop_drop, List.drop_left]
    rfl
  have hfound : (⟨Nat.ofDigitChars 10 (Nat.toDigits 10 p.number) 0,
      String.ofList ((p.uuid.toList ++ "\"\x7d".toList).take
        ((p.uuid.toList ++ "\"\x7d".toList).length - 2))⟩ : PartySignup) = p := by
    have hlen : (p.uuid.toList ++ "\"\x7d".toList).length - 2 = p.uuid.toList.length := by simp
    rw [hlen, List.take_left, String.ofList_toList, Nat.ofDigitChars_ten_toDigits]
  simp only [parse]
  rw [hfields, hdigits, ← hfields, htail, hfound, if_pos rfl]

/-- The compact JSON reader and writer, for runs on given inputs. -/
@[reducible] def compact : Serde PartySignup where
  toStr p := String.ofList p.render
  fromStr text := parse text.toList
  round_trip p := by rw [String.toList_ofList, parse_render]

end PartySignup

/-! ### The map -/

/-- The contents of the shared `HashMap<String, String>`. -/
abbrev Store := String → Option String

namespace Store

def empty : Store := fun _ => none

def insert (hm : Store) (key value : String) : Store :=
  fun k => if k = key then some value else hm k

@[simp] theorem insert_self (hm : Store) (key value : String) : hm.insert key value key = some value :=
  if_pos rfl

theorem insert_eq_update (hm : Store) (key value : String) :
    hm.insert key value = Function.update hm key (some value) := by
  funext k
  rw [insert, Function.update_apply]

end Store

/-! ### The adapter -/

namespace StoreCommunity

def getEntry (hm : Store) (key : String) : Except Unit Entry :=
  match hm key with
  | some v => .ok ⟨key, v⟩
  | none => .error ()

def setEntry (hm : Store) (entry : Entry) : Except Unit Entry × Store :=
  (.ok entry, hm.insert entry.key entry.value)

variable [Serde PartySignup]

/-- The read-lock section of `get_party_signup`: look the room up and decide. `fresh` is the answer of
`Uuid::new_v4`; `none` is the panic of `unwrap` on a value that is no signup. -/
def readPartySignup (num : Nat) (key fresh : String) (hm : Store) : Option (Except Unit PartySignup) :=
  match hm key with
  | some value =>
    match (Serde.fromStr value : Option PartySignup) with
    | some client_signup =>
      -- below `num ≤ u16::MAX`, so the addition cannot overflow
      if client_signup.number < num then
        some (.ok ⟨client_signup.number + 1, client_signup.uuid⟩)
      else some (.error ())
    | none => none
  | none => some (.ok ⟨1, fresh⟩)

/-- The write-lock section of `get_party_signup`. -/
def writePartySignup (key : String) (party_signup : PartySignup) (hm : Store) : Store :=
  hm.insert key (Serde.toStr party_signup)

/-- `get_party_signup` when no other caller runs between its two sections. -/
def getPartySignup (num : Nat) (key fresh : String) (hm : Store) :
    Option (Except Unit PartySignup × Store) :=
  match readPartySignup num key fresh hm with
  | some (.ok party_signup) => some (.ok party_signup, writePartySignup key party_signup hm)
  | some (.error ()) => some (.error (), hm)
  | none => none

/-! ### Reading an issued entry back -/

/-- The signup entry after `m` slots were issued in session `uuid`. -/
def issuedEntry (m : Nat) (uuid : String) : Option String :=
  if m = 0 then none else some (Serde.toStr (⟨m, uuid⟩ : PartySignup))

theorem issuedEntry_injective {m m' : Nat} {uuid : String}
    (h : issuedEntry m uuid = issuedEntry m' uuid) : m = m' := by
  unfold issuedEntry at h
  split_ifs at h with hm hm'
  · omega
  · have hp := Serde.toStr_injective (Option.some.inj h)
    exact congrArg PartySignup.number hp

theorem writePartySignup_issued (key : String) (m : Nat) (uuid : String) (hm : Store) :
    writePartySignup key ⟨m + 1, uuid⟩ hm key = issuedEntry (m + 1) uuid := by
  rw [writePartySignup, Store.insert_self, issuedEntry, if_neg (Nat.succ_ne_zero m)]

theorem readPartySignup_issued {num m : Nat} {key uuid : String} (fresh : String) {hm : Store}
    (hkey : hm key = issuedEntry m uuid) (hlt : m < num) :
    readPartySignup num key fresh hm = some (.ok ⟨m + 1, if m = 0 then fresh else uuid⟩) := by
  unfold readPartySignup
  rw [hkey, issuedEntry]
  split_ifs with hzero
  · subst hzero
    rfl
  · simp [hlt]

theorem readPartySignup_full {num m : Nat} {key uuid : String} (fresh : String) {hm : Store}
    (hkey : hm key = issuedEntry m uuid) (hpos : m ≠ 0) (hfull : num ≤ m) :
    readPartySignup num key fresh hm = some (.error ()) := by
  unfold readPartySignup
  rw [hkey, issuedEntry, if_neg hpos]
  simp [Nat.not_lt.mpr hfull]

end StoreCommunity

end Gg18
