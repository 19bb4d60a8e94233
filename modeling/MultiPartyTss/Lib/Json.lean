import Mathlib.Data.List.Nodup
import Mathlib.Data.List.Perm.Basic
import MultiPartyTss.Lib.Serde

/-!
# Flat JSON objects

A JSON object whose fields are numbers and strings, in the order of its text. A struct is decoded from an
object by the names of its fields, each of which must be there once; other fields are skipped. A generic
value sorts its fields and keeps the last of several with one name (`canonical`), which a struct does not
see when the names differ (`field_canonical`). `compact` is the text without blanks and its reader.
-/

namespace Json

inductive Scalar where
  | number (n : Nat)
  | string (s : String)
  deriving DecidableEq, Repr

abbrev Object := List (String × Scalar)

namespace Object

def names (o : Object) : List String := o.map Prod.fst

/-- The value of the field, if it is there once. -/
def field (o : Object) (name : String) : Option Scalar :=
  match o.filter fun e => e.1 = name with
  | [e] => some e.2
  | _ => none

def string (o : Object) (name : String) : Option String :=
  match o.field name with
  | some (.string s) => some s
  | _ => none

/-- A number below `bound`, as an unsigned integer type takes it. -/
def number (bound : Nat) (o : Object) (name : String) : Option Nat :=
  match o.field name with
  | some (.number n) => if n < bound then some n else none
  | _ => none

/-- Insertion into a sorted map. -/
def insert (key : String) (v : Scalar) : Object → Object
  | [] => [(key, v)]
  | (k, w) :: rest =>
    if key < k then (key, v) :: (k, w) :: rest
    else if key = k then (key, v) :: rest
    else (k, w) :: insert key v rest

/-- The fields as a generic value has them. -/
def canonical (o : Object) : Object := o.foldl (fun m e => m.insert e.1 e.2) []

theorem field_perm {o o' : Object} (h : o.Perm o') (name : String) : o.field name = o'.field name := by
  have hperm := h.filter fun e => decide (e.1 = name)
  unfold field
  split
  · rename_i e he
    rw [he] at hperm
    rw [← List.singleton_perm.mp hperm]
  · rename_i hne
    split
    · rename_i e he
      rw [he] at hperm
      exact (hne e (List.perm_singleton.mp hperm)).elim
    · rfl

theorem field_of_not_mem {o : Object} {name : String} (h : name ∉ o.names) : o.field name = none := by
  have hnil : (o.filter fun e => decide (e.1 = name)) = [] := by
    rw [List.filter_eq_nil_iff]
    intro e he heq
    exact h (List.mem_map.mpr ⟨e, he, of_decide_eq_true heq⟩)
  rw [field, hnil]

theorem insert_perm {key : String} (v : Scalar) {o : Object} (h : key ∉ o.names) :
    (o.insert key v).Perm ((key, v) :: o) := by
  induction o with
  | nil => exact List.Perm.refl _
  | cons e rest ih =>
    simp only [names, List.map_cons, List.mem_cons, not_or] at h
    unfold insert
    split_ifs with hlt heq
    · exact List.Perm.refl _
    · exact (h.1 heq).elim
    · exact ((ih h.2).cons e).trans (List.Perm.swap _ _ _)

theorem canonical_perm {o : Object} (h : o.names.Nodup) : o.canonical.Perm o := by
  have hfold : ∀ o m : Object, (names (m ++ o)).Nodup →
      (o.foldl (fun m e => m.insert e.1 e.2) m).Perm (m ++ o) := by
    intro o
    induction o with
    | nil => simp
    | cons e rest ih =>
      intro m hnodup
      have hmove : (m ++ e :: rest).Perm (e :: m ++ rest) := List.perm_middle
      have hnodup' : (names (e :: m ++ rest)).Nodup := (hmove.map Prod.fst).nodup_iff.mp hnodup
      have hfresh : e.1 ∉ names m := by
        intro hmem
        obtain ⟨e', he', heq⟩ := List.mem_map.mp hmem
        exact (List.nodup_cons.mp hnodup').1
          (List.mem_map.mpr ⟨e', List.mem_append_left rest he', heq⟩)
      have hins := (insert_perm e.2 hfresh).append_right rest
      have hrest := ih (m.insert e.1 e.2) ((hins.map Prod.fst).nodup_iff.mpr hnodup')
      exact (hrest.trans hins).trans hmove.symm
  exact hfold o [] h

/-- A struct does not see the order of the fields. -/
theorem field_canonical {o : Object} (h : o.names.Nodup) (name : String) :
    o.canonical.field name = o.field name := field_perm (canonical_perm h) name

theorem canonical_nodup {o : Object} (h : o.names.Nodup) : o.canonical.names.Nodup :=
  ((canonical_perm h).map Prod.fst).nodup_iff.mpr h

/-- A reader of objects that looks at fields by their names only. -/
def Fieldwise {α : Type*} (read : Object → Option α) : Prop :=
  ∀ o o' : Object, (∀ name, o.field name = o'.field name) → read o = read o'

theorem Fieldwise.canonical {α : Type*} {read : Object → Option α} (hread : Fieldwise read) {o : Object}
    (h : o.names.Nodup) : read o.canonical = read o := hread _ _ (field_canonical h)

end Object

/-! ### Compact text -/

/-- The escapes of one letter. -/
def shortEscapes : List (Char × Char) :=
  [('\"', '\"'), ('\\', '\\'), ('\x08', 'b'), ('\t', 't'), ('\n', 'n'), ('\x0c', 'f'), ('\r', 'r')]

def hexDigits : List Char := "0123456789abcdef".toList

def escapeChar (c : Char) : List Char :=
  match shortEscapes.lookup c with
  | some e => ['\\', e]
  | none =>
    if c.toNat < 32 then
      "\\u00".toList ++ [hexDigits.getD (c.toNat / 16) '0', hexDigits.getD (c.toNat % 16) '0']
    else [c]

/-- Whether the text of a string has an escape in it. -/
def needsEscape (s : String) : Bool := s.toList.any fun c => escapeChar c ≠ [c]

/-- What a letter after a backslash stands for. -/
def unescape (e : Char) : Option Char := (shortEscapes.map Prod.swap).lookup e

/-- Reads the rest of a string, up to its closing quote. -/
def readString : List Char → Option (List Char × List Char)
  | '\\' :: 'u' :: '0' :: '0' :: a :: b :: rest =>
    (readString rest).map fun r => (Char.ofNat (16 * hexDigits.idxOf a + hexDigits.idxOf b) :: r.1, r.2)
  | '\\' :: e :: rest =>
    (unescape e).bind fun c => (readString rest).map fun r => (c :: r.1, r.2)
  | '\"' :: rest => some ([], rest)
  | c :: rest => (readString rest).map fun r => (c :: r.1, r.2)
  | [] => none

theorem unescape_of_lookup {c e : Char} (h : shortEscapes.lookup c = some e) :
    unescape e = some c ∧ e ≠ 'u' := by
  have hall : ∀ p ∈ shortEscapes, unescape p.2 = some p.1 ∧ p.2 ≠ 'u' := by decide
  obtain ⟨before, after, heq, -⟩ := List.lookup_eq_some_iff.mp h
  exact hall (c, e) (heq ▸ List.mem_append_right before List.mem_cons_self)

theorem hexDigits_value {n : Nat} (h : n < 32) :
    16 * hexDigits.idxOf (hexDigits.getD (n / 16) '0') + hexDigits.idxOf (hexDigits.getD (n % 16) '0') = n := by
  revert n
  decide

theorem readString_cons {c : Char} (hquote : c ≠ '\"') (hback : c ≠ '\\') (rest : List Char) :
    readString (c :: rest) = (readString rest).map fun r => (c :: r.1, r.2) := by
  rw [readString.eq_def]
  split <;> simp_all

theorem readString_escapeChar (c : Char) (rest : List Char) :
    readString (escapeChar c ++ rest) = (readString rest).map fun r => (c :: r.1, r.2) := by
  unfold escapeChar
  split
  · rename_i e he
    obtain ⟨hc, hu⟩ := unescape_of_lookup he
    simp [readString, hc, hu]
  · rename_i hnone
    split_ifs with hlt
    · have hvalue := hexDigits_value hlt
      simp only [List.getD_eq_getElem?_getD] at hvalue
      simp [readString, hvalue]
    · have hquote : c ≠ '\"' := by
        rintro rfl
        revert hnone
        decide
      have hback : c ≠ '\\' := by
        rintro rfl
        revert hnone
        decide
      exact readString_cons hquote hback rest

theorem readString_escape (s rest : List Char) :
    readString (s.flatMap escapeChar ++ '\"' :: rest) = some (s, rest) := by
  induction s with
  | nil => simp [readString]
  | cons c s ih => rw [List.flatMap_cons, List.append_assoc, readString_escapeChar, ih, Option.map_some]

def renderString (s : String) : List Char := '\"' :: (s.toList.flatMap escapeChar ++ ['\"'])

def renderScalar : Scalar → List Char
  | .number n => Nat.toDigits 10 n
  | .string s => renderString s

def renderField (e : String × Scalar) : List Char := renderString e.1 ++ ':' :: renderScalar e.2

/-- The fields after the opening brace. -/
def renderFields : Object → List Char
  | [] => ['\x7d']
  | [e] => renderField e ++ ['\x7d']
  | e :: o => renderField e ++ ',' :: renderFields o

def render (o : Object) : List Char := '\x7b' :: renderFields o

def readScalar : List Char → Option (Scalar × List Char)
  | '\"' :: text => (readString text).map fun r => (.string (String.ofList r.1), r.2)
  | text =>
    let digits := text.takeWhile Char.isDigit
    if digits = [] then none
    else some (.number (Nat.ofDigitChars 10 digits 0), text.drop digits.length)

def readField : List Char → Option ((String × Scalar) × List Char)
  | '\"' :: text =>
    (readString text).bind fun r =>
      match r.2 with
      | ':' :: text => (readScalar text).map fun v => ((String.ofList r.1, v.1), v.2)
      | _ => none
  | _ => none

/-- Reads at most `fuel` fields and the closing brace. -/
def readFields : Nat → List Char → Option (Object × List Char)
  | 0, _ => none
  | fuel + 1, text =>
    (readField text).bind fun r =>
      match r.2 with
      | ',' :: text => (readFields fuel text).map fun o => (r.1 :: o.1, o.2)
      | '\x7d' :: text => some ([r.1], text)
      | _ => none

def parse : List Char → Option Object
  | ['\x7b', '\x7d'] => some []
  | '\x7b' :: text =>
    match readFields text.length text with
    | some (o, []) => some o
    | _ => none
  | _ => none

theorem readScalar_render (v : Scalar) (rest : List Char) (hrest : rest.head?.all fun c => !c.isDigit) :
    readScalar (renderScalar v ++ rest) = some (v, rest) := by
  cases v with
  | string s =>
    have hread := readString_escape s.toList rest
    simp [renderScalar, renderString, readScalar, hread]
  | number n =>
    have hdigits := Serde.takeWhile_digits n rest hrest
    have hne : Nat.toDigits 10 n ≠ [] := Nat.toDigits_ne_nil
    unfold renderScalar readScalar
    split
    · rename_i text heq
      rw [heq] at hdigits
      exact (hne hdigits.symm).elim
    · simp [hdigits, hne, Nat.ofDigitChars_ten_toDigits]

theorem readField_render (e : String × Scalar) (rest : List Char)
    (hrest : rest.head?.all fun c => !c.isDigit) :
    readField (renderField e ++ rest) = some (e, rest) := by
  have hkey := readString_escape e.1.toList (':' :: (renderScalar e.2 ++ rest))
  simp [renderField, renderString, readField, hkey, readScalar_render e.2 rest hrest]

theorem readFields_render {o : Object} (hne : o ≠ []) {fuel : Nat} (hfuel : o.length ≤ fuel)
    (rest : List Char) : readFields fuel (renderFields o ++ rest) = some (o, rest) := by
  induction o generalizing fuel with
  | nil => exact (hne rfl).elim
  | cons e o ih =>
    obtain ⟨fuel, rfl⟩ : ∃ n, fuel = n + 1 := ⟨fuel - 1, by simp at hfuel; omega⟩
    cases o with
    | nil =>
      have hfield := readField_render e ('\x7d' :: rest) rfl
      simp [renderFields, readFields, hfield]
    | cons e' o =>
      have hfield := readField_render e (',' :: (renderFields (e' :: o) ++ rest)) rfl
      have htail := ih (List.cons_ne_nil e' o) (by simp at hfuel ⊢; omega)
      simp [renderFields, readFields, hfield, htail]

theorem length_le_renderFields {o : Object} (hne : o ≠ []) : o.length ≤ (renderFields o).length := by
  induction o with
  | nil => exact (hne rfl).elim
  | cons e o ih =>
    cases o with
    | nil => simp [renderFields]
    | cons e' o =>
      have htail := ih (List.cons_ne_nil e' o)
      simp only [renderFields, List.length_append, List.length_cons] at htail ⊢
      omega

theorem parse_render (o : Object) : parse (render o) = some o := by
  cases o with
  | nil => rfl
  | cons e o =>
    have hfields := readFields_render (List.cons_ne_nil e o)
      (length_le_renderFields (List.cons_ne_nil e o)) []
    rw [List.append_nil] at hfields
    have hhead : renderFields (e :: o) ≠ ['\x7d'] := by
      cases o <;> simp [renderFields, renderField, renderString]
    unfold render parse
    split
    · rename_i heq
      exact (hhead (List.cons.inj heq).2).elim
    · rename_i text _ heq
      rw [← (List.cons.inj heq).2, hfields]
    · rename_i hno
      exact (hno _ rfl).elim

/-- Text without blanks, and its reader. -/
@[reducible] def compact : Serde Object where
  toStr o := String.ofList (render o)
  fromStr text := parse text.toList
  round_trip o := by rw [String.toList_ofList, parse_render]

end Json
