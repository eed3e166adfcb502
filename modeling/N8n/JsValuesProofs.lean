import Mathlib.Data.List.Lex
import Mathlib.Order.Fin.Basic
import Mathlib.Data.List.Perm.Subperm
import N8n.JsonTextProofs
import N8n.OrderedMapProofs

/-! # JavaScript values — types, conversions, comparisons, deep equality

    The values are the trees of `N8n.JsonTextProofs`, over numbers that may
    be not a number.  An object made of data has no method of its own, so it
    is converted by the methods it inherits: a member of the name `toString`
    hides the inherited one, and the conversion throws.

    Deep equality pairs the members of two objects by their keys.  Where no
    object holds a key twice it is symmetric (`isEqual_symm`), by induction
    over the first value. -/

namespace N8nJsValues

open N8nJsonText N8nOrderedMap List

/-! ## Numbers -/

/-- A number: not a number, or one of an order in which the two zeros are
    one number. -/
inductive Number (F : Type) where
  | nan
  | real (x : F)
deriving DecidableEq

abbrev Value (F : Type) := Json (Number F)

structure Numbers (F : Type) where
  ofNat : Nat → F
  /-- `Number::toString`. -/
  text : Number F → JsString
  /-- `StringToNumber`. -/
  ofText : JsString → Number F

variable {F : Type}

/-! ## Types -/

inductive TypeName where
  | undefined
  | object
  | boolean
  | number
  | string
deriving DecidableEq

def TypeName.text : TypeName → JsString
  | .undefined => ofString "undefined"
  | .object => ofString "object"
  | .boolean => ofString "boolean"
  | .number => ofString "number"
  | .string => ofString "string"

/-- `typeof`. -/
def typeOf : Value F → TypeName
  | .undefined => .undefined
  | .null => .object
  | .bool _ => .boolean
  | .number _ => .number
  | .string _ => .string
  | .array _ => .object
  | .object _ => .object

/-! ## Conversions -/

section

variable (num : Numbers F)

mutual

/-- `ToString`.  No result: a `TypeError`. -/
def toText : Value F → Option JsString
  | .undefined => some (ofString "undefined")
  | .null => some (ofString "null")
  | .bool b => some (ofString (if b then "true" else "false"))
  | .number n => some (num.text n)
  | .string s => some s
  | .array elements => (elementTexts elements).map join
  | .object members =>
    if ofString "toString" ∈ members.map Prod.fst then none
    else some (ofString "[object Object]")

/-- The texts that `Array.prototype.join` puts together. -/
def elementTexts : List (Value F) → Option (List JsString)
  | [] => some []
  | .undefined :: rest => (elementTexts rest).map (([] : JsString) :: ·)
  | .null :: rest => (elementTexts rest).map (([] : JsString) :: ·)
  | e :: rest =>
    match toText e with
    | none => none
    | some text => (elementTexts rest).map (text :: ·)

end

/-- `ToPrimitive`.  Arrays and objects come out as texts. -/
def toPrimitive (v : Value F) : Option (Value F) :=
  match v with
  | .array _ => (toText num v).map .string
  | .object _ => (toText num v).map .string
  | v => some v

/-- `ToNumber` of a primitive value. -/
def primitiveNumber : Value F → Number F
  | .null => .real (num.ofNat 0)
  | .bool b => .real (if b then num.ofNat 1 else num.ofNat 0)
  | .number n => n
  | .string s => num.ofText s
  | _ => .nan

/-- `ToNumber`. -/
def toNumber (v : Value F) : Option (Number F) := (toPrimitive num v).map (primitiveNumber num)

/-- `ToBoolean`. -/
def truthy [DecidableEq F] : Value F → Bool
  | .undefined => false
  | .null => false
  | .bool b => b
  | .number n => decide (n ≠ .nan ∧ n ≠ .real (num.ofNat 0))
  | .string s => !s.isEmpty
  | .array _ => true
  | .object _ => true

/-! ## Comparisons -/

/-- A relational operator: on two texts by code units, else on numbers,
    where nothing holds of not a number. -/
def relational (onTexts : JsString → JsString → Bool)
    (onNumbers : F → F → Bool) (x y : Value F) : Option Bool :=
  match toPrimitive num x, toPrimitive num y with
  | some (.string s), some (.string t) => some (onTexts s t)
  | some p, some q =>
    match primitiveNumber num p, primitiveNumber num q with
    | .real a, .real b => some (onNumbers a b)
    | _, _ => some false
  | _, _ => none

variable [LinearOrder F]

def lessThan (x y : Value F) : Option Bool :=
  relational num (fun s t => s < t) (fun a b => a < b) x y

def greaterThan (x y : Value F) : Option Bool :=
  relational num (fun s t => t < s) (fun a b => b < a) x y

def atMost (x y : Value F) : Option Bool := relational num (fun s t => s ≤ t) (fun a b => a ≤ b) x y

def atLeast (x y : Value F) : Option Bool :=
  relational num (fun s t => t ≤ s) (fun a b => b ≤ a) x y

end

/-- `SameValueZero`, between objects that are not the same one. -/
def sameValueZero [DecidableEq F] : Value F → Value F → Bool
  | .undefined, .undefined => true
  | .null, .null => true
  | .bool b, .bool c => b == c
  | .number m, .number n => decide (m = n)
  | .string s, .string t => s == t
  | _, _ => false

/-- The operator `===`, between objects that are not the same one. -/
def strictEquals [DecidableEq F] : Value F → Value F → Bool
  | .number m, .number n => decide (m = n ∧ m ≠ .nan)
  | v, w => sameValueZero v w

/-! ## Deep equality -/

section

variable {N : Type} [DecidableEq N]

mutual

/-- `isEqual`. -/
def isEqual : Json N → Json N → Bool
  | .undefined, .undefined => true
  | .null, .null => true
  | .bool b, .bool c => b == c
  | .number m, .number n => decide (m = n)
  | .string s, .string t => s == t
  | .array xs, .array ys => equalElements xs ys
  | .object ms, .object ns => decide (ms.length = ns.length) && equalMembers ms ns
  | _, _ => false

def equalElements : List (Json N) → List (Json N) → Bool
  | [], [] => true
  | x :: xs, y :: ys => isEqual x y && equalElements xs ys
  | _, _ => false

def equalMembers :
    List (JsString × Json N) → List (JsString × Json N) → Bool
  | [], _ => true
  | (key, v) :: rest, ns =>
    (match findKey key ns with
      | none => false
      | some w => isEqual v w) && equalMembers rest ns

end

attribute [local simp] isEqual equalElements equalMembers

/-- No object in the value holds a key twice. -/
inductive Distinct : Json N → Prop where
  | undefined : Distinct .undefined
  | null : Distinct .null
  | bool (b : Bool) : Distinct (.bool b)
  | number (n : N) : Distinct (.number n)
  | string (s : JsString) : Distinct (.string s)
  | array {elements : List (Json N)} (h : ∀ e ∈ elements, Distinct e) : Distinct (.array elements)
  | object {members : List (JsString × Json N)} (hkeys : (members.map Prod.fst).Nodup)
      (h : ∀ m ∈ members, Distinct m.2) : Distinct (.object members)

variable {xs : List (Json N)}

theorem equalElements_iff {ys : List (Json N)} :
    equalElements xs ys = true ↔ List.Forall₂ (fun x y => isEqual x y = true) xs ys := by
  induction xs generalizing ys with
  | nil => cases ys <;> simp [equalElements]
  | cons x xs ih => cases ys <;> simp [equalElements, ih]

variable {ms ns : List (JsString × Json N)}

theorem equalMembers_iff :
    equalMembers ms ns = true ↔ ∀ m ∈ ms, ∃ w, findKey m.1 ns = some w ∧ isEqual m.2 w = true := by
  induction ms with
  | nil => simp [equalMembers]
  | cons m rest ih =>
    obtain ⟨key, v⟩ := m
    rw [equalMembers, Bool.and_eq_true, ih, forall_mem_cons]
    refine and_congr_left fun _ => ?_
    cases hfind : findKey key ns with
    | none => simp
    | some w => simp

theorem isEqual_array {ys : List (Json N)} :
    isEqual (.array xs) (.array ys) = true
      ↔ List.Forall₂ (fun x y => isEqual x y = true) xs ys := by
  rw [isEqual, equalElements_iff]

theorem isEqual_object :
    isEqual (.object ms) (.object ns) = true
      ↔ ms.length = ns.length ∧ ∀ m ∈ ms, ∃ w, findKey m.1 ns = some w ∧ isEqual m.2 w = true := by
  rw [isEqual, Bool.and_eq_true, decide_eq_true_iff, equalMembers_iff]

variable {w : Json N}

theorem isEqual_undefined : isEqual .undefined w = true ↔ w = .undefined := by
  cases w <;> simp [isEqual]

theorem isEqual_null : isEqual .null w = true ↔ w = .null := by
  cases w <;> simp [isEqual]

theorem isEqual_bool {b : Bool} : isEqual (.bool b) w = true ↔ w = .bool b := by
  cases w with
  | bool c => rw [isEqual, beq_iff_eq, Json.bool.injEq, eq_comm]
  | _ => simp [isEqual]

theorem isEqual_number {n : N} : isEqual (.number n) w = true ↔ w = .number n := by
  cases w with
  | number m => rw [isEqual, decide_eq_true_iff, Json.number.injEq, eq_comm]
  | _ => simp [isEqual]

theorem isEqual_string {s : JsString} : isEqual (.string s) w = true ↔ w = .string s := by
  cases w with
  | string t => rw [isEqual, beq_iff_eq, Json.string.injEq, eq_comm]
  | _ => simp [isEqual]

theorem array_of_isEqual (h : isEqual (.array xs) w = true) : ∃ ys, w = .array ys := by
  cases w <;> simp [isEqual] at h ⊢

theorem object_of_isEqual (h : isEqual (.object ms) w = true) : ∃ ns, w = .object ns := by
  cases w <;> simp [isEqual] at h ⊢

theorem mem_keys_of_length (hms : (ms.map Prod.fst).Nodup) (hlength : ms.length = ns.length)
    (hsub : ∀ m ∈ ms, ∃ w, findKey m.1 ns = some w ∧ isEqual m.2 w = true)
    {key : JsString} (hkey : key ∈ ns.map Prod.fst) :
    key ∈ ms.map Prod.fst := by
  have hsubset : ms.map Prod.fst ⊆ ns.map Prod.fst := by
    intro k hk
    obtain ⟨m, hm, rfl⟩ := mem_map.mp hk
    obtain ⟨w, hw, -⟩ := hsub m hm
    exact mem_map.mpr ⟨(m.1, w), mem_of_findKey hw, rfl⟩
  have hperm := (List.Nodup.subperm hms hsubset).perm_of_length_le (by simp [hlength])
  exact hperm.mem_iff.mpr hkey

theorem forall₂_turn {α : Type} {R S : α → α → Prop} {xs ys : List α} (h : List.Forall₂ R xs ys)
    (hturn : ∀ x ∈ xs, ∀ y ∈ ys, R x y → S y x) : List.Forall₂ S ys xs := by
  induction h with
  | nil => exact .nil
  | cons hxy _ ih =>
    refine .cons (hturn _ (mem_cons_self ..) _ (mem_cons_self ..) hxy) (ih ?_)
    intro x hx y hy
    exact hturn x (mem_cons_of_mem _ hx) y (mem_cons_of_mem _ hy)

theorem isEqual_symm {v : Json N} (hv : Distinct v) (hw : Distinct w)
    (h : isEqual v w = true) : isEqual w v = true := by
  induction v using Json.tree_induction generalizing w with
  | undefined =>
    obtain rfl := isEqual_undefined.mp h
    exact h
  | null =>
    obtain rfl := isEqual_null.mp h
    exact h
  | bool b =>
    obtain rfl := isEqual_bool.mp h
    exact h
  | number n =>
    obtain rfl := isEqual_number.mp h
    exact h
  | string s =>
    obtain rfl := isEqual_string.mp h
    exact h
  | array xs ih =>
    obtain ⟨ys, rfl⟩ := array_of_isEqual h
    cases hv with
    | array hv =>
      cases hw with
      | array hw =>
        rw [isEqual_array] at h ⊢
        exact forall₂_turn h fun x hx y hy hxy =>
          ih x hx (hv x hx) (hw y hy) hxy
  | object ms ih =>
    obtain ⟨ns, rfl⟩ := object_of_isEqual h
    cases hv with
    | object hms hv =>
      cases hw with
      | object hns hw =>
        obtain ⟨hlength, hsub⟩ := isEqual_object.mp h
        refine isEqual_object.mpr ⟨hlength.symm, ?_⟩
        intro n hn
        obtain ⟨m, hm, hmn⟩ := mem_map.mp (mem_keys_of_length hms hlength hsub (mem_map_of_mem hn))
        obtain ⟨w, hfind, heq⟩ := hsub m hm
        rw [hmn, findKey_of_mem hns hn] at hfind
        obtain rfl : n.2 = w := Option.some.inj hfind
        refine ⟨m.2, ?_, ih m hm (hv m hm) (hw n hn) heq⟩
        rw [← hmn]
        exact findKey_of_mem hms hm

end

/-! ## The integers -/

/-- The number of a text of digits. -/
def digits? (s : JsString) : Option Nat :=
  if !s.isEmpty && s.all (fun u => 48 ≤ u.val && u.val ≤ 57) then
    some (s.foldl (fun n u => 10 * n + (u.val - 48)) 0)
  else none

/-- The integers as numbers; other texts than theirs are none. -/
def integers : Numbers Int where
  ofNat n := n
  text
    | .nan => ofString "NaN"
    | .real n => ofString (toString n)
  ofText s :=
    if s = [] then .real 0
    else
      match digits? s with
      | some n => .real n
      | none => .nan

end N8nJsValues
