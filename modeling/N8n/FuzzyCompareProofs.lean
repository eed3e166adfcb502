import N8n.JsValuesProofs
import N8n.DirectedGraphProofs

/-! # Fuzzy comparison — values that stand for each other

    `fuzzyCompare` without fuzziness is deep equality.  With it, values of
    one type are compared deeply, and values of two types where one stands
    for the other: a number for its text, an object for its JSON, nothing
    for the empty.

    Every branch has its mirror image, so the order of the two values does
    not matter (`fuzzyCompare_comm`).

    A field is read from an object that inherits the members of
    `Object.prototype`: a field that is missing may read a function. -/

namespace N8nFuzzyCompare

open N8nJsonText N8nJsValues N8nOrderedMap
open N8nDirectedGraph (objectPrototype)

/-- The numbers, the letters, and what `jsonParse` reads; a value that is
    read holds no key twice. -/
structure Platform (F : Type) where
  numbers : Numbers F
  toLocaleLowerCase : JsString → JsString
  jsonParse : JsString → Option (Value F)
  distinct : ∀ text v, jsonParse text = some v → Distinct v

/-! ## Fields -/

section

variable {F : Type}

def isUndefined (value : Value F) : Bool := value matches .undefined

/-- What a member access reads: a value, or an inherited function. -/
inductive FieldValue (F : Type) where
  | value (v : Value F)
  | method (name : JsString)

instance lawfulJsString : LawfulBEq JsString := inferInstance

/-- `object[key]`. -/
def member (members : List (JsString × Value F)) (key : JsString) : FieldValue F :=
  match findKey key members with
  | some v => .value v
  | none =>
    if key = ofString "__proto__" then .value (.object [])
    else if key ∈ objectPrototype.map ofString then .method key
    else .value .undefined

def isUndefinedField : FieldValue F → Bool
  | .value v => isUndefined v
  | .method _ => false

end

variable {F : Type} [LinearOrder F] (p : Platform F)

/-! ## The comparison -/

def isNull (value : Value F) : Bool := value matches .null

def isFalsy (value : Value F) : Bool := value matches .null | .string [] | .array []

/-- A text that cannot be parsed is equal to nothing. -/
def parseStringAndCompareToObject (str : JsString) (value : Value F) : Bool :=
  match p.jsonParse str with
  | some parsed => isEqual parsed value
  | none => false

/-- `0` or `"0"`. -/
def isZero : Value F → Bool
  | .number n => n = .real (p.numbers.ofNat 0)
  | .string s => s = ofString "0"
  | _ => false

def representsBoolean (b : Bool) (s : JsString) : Bool :=
  p.toLocaleLowerCase s = ofString (if b then "true" else "false")
    || s = ofString (if b then "1" else "0")

/-- The comparisons of values of two types. -/
def compareTypes (item1 item2 : Value F) : Bool :=
  match item1, item2 with
  | .number n, .string s => p.numbers.text n = s
  | .string s, .number n => s = p.numbers.text n
  | .array elements, .string s => parseStringAndCompareToObject p s (.array elements)
  | .object members, .string s => parseStringAndCompareToObject p s (.object members)
  | .string s, .array elements => parseStringAndCompareToObject p s (.array elements)
  | .string s, .object members => parseStringAndCompareToObject p s (.object members)
  | .bool b, .string s => representsBoolean p b s || isEqual item1 item2
  | .string s, .bool b => representsBoolean p b s || isEqual item1 item2
  | .bool b, .number n =>
    n = .real (p.numbers.ofNat (if b then 1 else 0)) || isEqual item1 item2
  | .number n, .bool b =>
    n = .real (p.numbers.ofNat (if b then 1 else 0)) || isEqual item1 item2
  | item1, item2 => isEqual item1 item2

/-- `fuzzyCompare(useFuzzyCompare, compareVersion)`. -/
def fuzzyCompare (useFuzzyCompare : Bool) (compareVersion : F) (item1 item2 : Value F) : Bool :=
  if !useFuzzyCompare then isEqual item1 item2
  else if !isNull item1 && !isNull item2 && typeOf item1 = typeOf item2 then
    isEqual item1 item2
  else if p.numbers.ofNat 2 ≤ compareVersion
      && (isNull item1 && (isNull item2 || isZero p item2)) then true
  else if p.numbers.ofNat 2 ≤ compareVersion
      && (isNull item2 && (isNull item1 || isZero p item1)) then true
  else if isFalsy item1 && isFalsy item2 then true
  else if isFalsy item1 && isUndefined item2 then true
  else if isUndefined item1 && isFalsy item2 then true
  else compareTypes p item1 item2

/-! ## The order of the values -/

theorem isEqual_comm {v w : Value F} (hv : Distinct v) (hw : Distinct w) :
    isEqual v w = isEqual w v := by
  rw [Bool.eq_iff_iff]
  exact ⟨isEqual_symm hv hw, isEqual_symm hw hv⟩

theorem compareTypes_comm {v w : Value F} (hv : Distinct v)
    (hw : Distinct w) : compareTypes p v w = compareTypes p w v := by
  have hcomm := isEqual_comm hv hw
  cases v <;> cases w <;> simp [compareTypes, hcomm, eq_comm]

/-- One of the values is nothing and the other stands for nothing. -/
def bothEmpty (compareVersion : F) (v w : Value F) : Bool :=
  (p.numbers.ofNat 2 ≤ compareVersion
    && (isNull v && (isNull w || isZero p w)
      || isNull w && (isNull v || isZero p v)))
  || (isFalsy v && (isFalsy w || isUndefined w)
    || isUndefined v && isFalsy w)

theorem bothEmpty_comm (compareVersion : F) (v w : Value F) :
    bothEmpty p compareVersion v w = bothEmpty p compareVersion w v := by
  rw [bothEmpty, bothEmpty]
  grind

theorem fuzzyCompare_eq (compareVersion : F) (v w : Value F) :
    fuzzyCompare p true compareVersion v w
      = if !isNull v && !isNull w && typeOf v = typeOf w then isEqual v w
        else bothEmpty p compareVersion v w || compareTypes p v w := by
  rw [fuzzyCompare, if_neg (by simp)]
  split
  · rfl
  · simp [bothEmpty, Bool.and_or_distrib_left, Bool.or_assoc]

/-- **THE ORDER OF THE VALUES** does not matter. -/
theorem fuzzyCompare_comm (useFuzzyCompare : Bool) (compareVersion : F)
    {v w : Value F} (hv : Distinct v) (hw : Distinct w) :
    fuzzyCompare p useFuzzyCompare compareVersion v w
      = fuzzyCompare p useFuzzyCompare compareVersion w v := by
  cases useFuzzyCompare with
  | false => exact isEqual_comm hv hw
  | true =>
    have htypes : decide (typeOf v = typeOf w)
        = decide (typeOf w = typeOf v) := decide_eq_decide.mpr eq_comm
    rw [fuzzyCompare_eq, fuzzyCompare_eq, isEqual_comm hv hw, compareTypes_comm p hv hw,
      bothEmpty_comm, Bool.and_comm (!isNull v), htypes]

/-- The comparison of two fields. -/
def isEntriesEqual (useFuzzyCompare : Bool) (compareVersion : F) :
    FieldValue F → FieldValue F → Bool
  | .value v, .value w => fuzzyCompare p useFuzzyCompare compareVersion v w
  | .method name, .method other => name = other
  | _, _ => false

/-- Whole numbers, where no text is JSON. -/
def integerPlatform : Platform Int where
  numbers := integers
  toLocaleLowerCase := id
  jsonParse _ := none
  distinct _ _ h := (Option.some_ne_none _ h.symm).elim

end N8nFuzzyCompare
