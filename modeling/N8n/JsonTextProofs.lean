import Mathlib.Data.List.Basic
import Mathlib.Data.Fin.Basic

/-! # JSON texts — what `JSON.stringify` writes can be read in one way only

    A JavaScript string is a list of code units, of any kind: a surrogate
    that stands alone is written as an escape.  Values are trees, in which
    `undefined` may stand: a member that holds it is left out and an element
    that holds it is written as `null`.

    Two texts that agree up to a comma or a closing bracket come from the
    same value (`text_unique`).  Strings are taken apart unit by unit, lists
    of items by one lemma for arrays and objects. -/

namespace N8nJsonText

open List

/-- A UTF-16 code unit. -/
abbrev CodeUnit := Fin 65536

instance (priority := 2000) neZeroCodeUnits :
    @NeZero Nat Zero.ofOfNat0 65536 := ⟨Nat.succ_ne_zero _⟩

abbrev JsString := List CodeUnit

/-- The code units of a character. -/
def units (c : Char) : JsString :=
  if c.toNat < 65536 then [Fin.ofNat 65536 c.toNat]
  else [Fin.ofNat 65536 (0xD800 + (c.toNat - 65536) / 1024),
    Fin.ofNat 65536 (0xDC00 + (c.toNat - 65536) % 1024)]

def ofString (s : String) : JsString := s.toList.flatMap units

theorem toNat_bounds (c : Char) : c.toNat < 0x110000 ∧ (c.toNat < 0xD800 ∨ 0xDFFF < c.toNat) := by
  rcases c.valid with hlow | ⟨hhigh, hlt⟩
  · exact ⟨Nat.lt_trans hlow (by decide), .inl hlow⟩
  · exact ⟨hlt, .inr hhigh⟩

theorem units_unique {c d : Char} {x y : JsString}
    (h : units c ++ x = units d ++ y) : c = d ∧ x = y := by
  have hc := toNat_bounds c
  have hd := toNat_bounds d
  rw [units, units] at h
  split at h
  · split at h
    · obtain ⟨hunit, htail⟩ := List.cons.inj h
      have hval := congrArg Fin.val hunit
      simp only [Fin.ofNat] at hval
      exact ⟨Char.toNat_inj.mp (by omega), htail⟩
    · obtain ⟨hunit, htail⟩ := List.cons.inj h
      have hval := congrArg Fin.val hunit
      simp only [Fin.ofNat] at hval
      omega
  · split at h
    · obtain ⟨hunit, htail⟩ := List.cons.inj h
      have hval := congrArg Fin.val hunit
      simp only [Fin.ofNat] at hval
      omega
    · obtain ⟨hunit, hrest⟩ := List.cons.inj h
      obtain ⟨hunit', htail⟩ := List.cons.inj hrest
      have hval := congrArg Fin.val hunit
      have hval' := congrArg Fin.val hunit'
      simp only [Fin.ofNat] at hval hval'
      exact ⟨Char.toNat_inj.mp (by omega), htail⟩

theorem ofString_injective {s t : String} (h : ofString s = ofString t) : s = t := by
  refine String.toList_inj.mp ?_
  rw [ofString, ofString] at h
  generalize s.toList = l at h ⊢
  generalize t.toList = k at h ⊢
  induction l generalizing k with
  | nil =>
    cases k with
    | nil => rfl
    | cons d k =>
      rw [flatMap_cons, units] at h
      split at h <;> cases h
  | cons c l ih =>
    cases k with
    | nil =>
      rw [flatMap_cons, units] at h
      split at h <;> cases h
    | cons d k =>
      obtain ⟨rfl, htail⟩ := units_unique h
      rw [ih k htail]
/-! ## Values -/

inductive Json (N : Type) where
  | undefined
  | null
  | bool (b : Bool)
  | number (n : N)
  | string (s : JsString)
  | array (elements : List (Json N))
  | object (members : List (JsString × Json N))

variable {N : Type}

@[elab_as_elim] theorem Json.tree_induction {P : Json N → Prop} (undefined : P .undefined)
    (null : P .null) (bool : ∀ b, P (.bool b)) (number : ∀ n, P (.number n))
    (string : ∀ s, P (.string s)) (array : ∀ elements, (∀ e ∈ elements, P e) → P (.array elements))
    (object : ∀ members, (∀ m ∈ members, P m.2) → P (.object members)) :
    ∀ v, P v :=
  @Json.rec N P (fun l => ∀ e ∈ l, P e) (fun l => ∀ m ∈ l, P m.2)
    (fun m => P m.2) undefined null bool number string (fun elements ih => array elements ih)
    (fun members ih => object members ih) (fun _ he => by cases he)
    (fun _ _ ihe ihrest => forall_mem_cons.mpr ⟨ihe, ihrest⟩) (fun _ hm => by cases hm)
    (fun _ _ ihm ihrest => forall_mem_cons.mpr ⟨ihm, ihrest⟩) (fun _ _ ih => ih)

/-! ## Quoting -/

/-- A hexadecimal digit, in lower case. -/
def hexDigit (n : Nat) : CodeUnit :=
  if n < 10 then Fin.ofNat 65536 (48 + n) else Fin.ofNat 65536 (87 + n)

/-- The four digits of `\uXXXX`. -/
def unicodeEscape (u : CodeUnit) : JsString :=
  [92, 117, hexDigit (u / 4096), hexDigit (u / 256 % 16), hexDigit (u / 16 % 16), hexDigit (u % 16)]

/-- A unit that is no surrogate, as `QuoteJSONString` writes it. -/
def quoteUnit (u : CodeUnit) : JsString :=
  if u = 8 then ofString "\\b"
  else if u = 9 then ofString "\\t"
  else if u = 10 then ofString "\\n"
  else if u = 12 then ofString "\\f"
  else if u = 13 then ofString "\\r"
  else if u = 34 then ofString "\\\""
  else if u = 92 then ofString "\\\\"
  else if u < 32 then unicodeEscape u
  else [u]

def isLeading (u : CodeUnit) : Bool := 0xD800 ≤ u && u < 0xDC00

def isTrailing (u : CodeUnit) : Bool := 0xDC00 ≤ u && u < 0xE000

/-- A unit that is not one of a pair. -/
def quoteSingle (u : CodeUnit) : JsString :=
  if isLeading u || isTrailing u then unicodeEscape u else quoteUnit u

def quoteUnits : JsString → JsString
  | [] => []
  | [u] => quoteSingle u
  | u :: v :: rest =>
    if isLeading u && isTrailing v then u :: v :: quoteUnits rest
    else quoteSingle u ++ quoteUnits (v :: rest)

def quote (s : JsString) : JsString := 34 :: (quoteUnits s ++ [34])

/-! ## Reading a quoted string -/

def hexValue (u : CodeUnit) : Nat := if u < 58 then u - 48 else u - 87

/-- The unit behind `\`, and what comes after it. -/
def readEscape : JsString → Option (CodeUnit × JsString)
  | 117 :: a :: b :: c :: d :: rest =>
    some (Fin.ofNat 65536 (hexValue a * 4096 + hexValue b * 256
      + hexValue c * 16 + hexValue d), rest)
  | 98 :: rest => some (8, rest)
  | 116 :: rest => some (9, rest)
  | 110 :: rest => some (10, rest)
  | 102 :: rest => some (12, rest)
  | 114 :: rest => some (13, rest)
  | u :: rest => some (u, rest)
  | [] => none

/-- One unit from the front of a text, up to the closing quote. -/
def readUnit : JsString → Option (CodeUnit × JsString)
  | [] => none
  | u :: rest =>
    if u = 34 then none
    else if u = 92 then readEscape rest
    else some (u, rest)

theorem hexValue_hexDigit : ∀ n < 16, hexValue (hexDigit n) = n := by
  decide

section

variable (u : CodeUnit) (rest : JsString)

theorem readUnit_unicodeEscape : readUnit (unicodeEscape u ++ rest) = some (u, rest) := by
  show some (Fin.ofNat 65536 (hexValue (hexDigit (u / 4096)) * 4096
    + hexValue (hexDigit (u / 256 % 16)) * 256
    + hexValue (hexDigit (u / 16 % 16)) * 16
    + hexValue (hexDigit (u % 16))), rest) = _
  rw [hexValue_hexDigit _ (by omega), hexValue_hexDigit _ (by omega),
    hexValue_hexDigit _ (by omega), hexValue_hexDigit _ (by omega)]
  have hvalue : (u : Nat) / 4096 * 4096 + u / 256 % 16 * 256
      + u / 16 % 16 * 16 + u % 16 = u := by omega
  rw [hvalue, Fin.ofNat_val_eq_self]

theorem readUnit_quoteUnit : readUnit (quoteUnit u ++ rest) = some (u, rest) := by
  rw [quoteUnit]
  split_ifs with h8 h9 h10 h12 h13 hquote hslash hcontrol
  · rw [h8]
    rfl
  · rw [h9]
    rfl
  · rw [h10]
    rfl
  · rw [h12]
    rfl
  · rw [h13]
    rfl
  · rw [hquote]
    rfl
  · rw [hslash]
    rfl
  · exact readUnit_unicodeEscape u rest
  · rw [singleton_append, readUnit, if_neg hquote, if_neg hslash]

theorem readUnit_quoteSingle : readUnit (quoteSingle u ++ rest) = some (u, rest) := by
  rw [quoteSingle]
  split
  · exact readUnit_unicodeEscape u rest
  · exact readUnit_quoteUnit u rest

end

theorem readUnit_surrogate {u : CodeUnit} (h : 0xD800 ≤ u)
    (rest : JsString) : readUnit (u :: rest) = some (u, rest) := by
  have hquote : u ≠ 34 := by
    rintro rfl
    exact absurd h (by decide)
  have hslash : u ≠ 92 := by
    rintro rfl
    exact absurd h (by decide)
  rw [readUnit, if_neg hquote, if_neg hslash]

/-- A text that is read unit by unit. -/
inductive Reads : JsString → JsString → Prop where
  | nil : Reads [] []
  | cons {u : CodeUnit} {block s text : JsString}
      (hblock : ∀ rest, readUnit (block ++ rest) = some (u, rest))
      (hrest : Reads s text) : Reads (u :: s) (block ++ text)

theorem reads_quoteUnits (s : JsString) : Reads s (quoteUnits s) := by
  induction s using quoteUnits.induct with
  | case1 => exact .nil
  | case2 u =>
    have h := Reads.cons (readUnit_quoteSingle u) .nil
    rwa [append_nil] at h
  | case3 u v rest hpair ih =>
    rw [quoteUnits, if_pos hpair]
    obtain ⟨hu, hv⟩ := Bool.and_eq_true_iff.mp hpair
    have hleading := of_decide_eq_true (Bool.and_eq_true_iff.mp hu).1
    have htrailing := of_decide_eq_true (Bool.and_eq_true_iff.mp hv).1
    refine @Reads.cons u [u] _ _ (readUnit_surrogate hleading)
      (@Reads.cons v [v] _ _ (readUnit_surrogate ?_) ih)
    exact Fin.le_trans (by decide) htrailing
  | case4 u v rest hpair ih =>
    rw [quoteUnits, if_neg hpair]
    exact .cons (readUnit_quoteSingle u) ih

theorem Reads.unique {s t x y : JsString} (hx : Reads s x) (hy : Reads t y)
    {r q : JsString} (h : x ++ 34 :: r = y ++ 34 :: q) : s = t ∧ r = q := by
  induction hx generalizing t y with
  | nil =>
    cases hy with
    | nil =>
      cases h
      exact ⟨rfl, rfl⟩
    | @cons u block t text hblock hrest =>
      have hread := hblock (text ++ 34 :: q)
      rw [← append_assoc, ← h] at hread
      cases hread
  | @cons u block s text hblock hrest ih =>
    have hread := hblock (text ++ 34 :: r)
    rw [← append_assoc, h] at hread
    cases hy with
    | nil => cases hread
    | @cons v block' t text' hblock' hrest' =>
      have hread' := hblock' (text' ++ 34 :: q)
      rw [← append_assoc, hread] at hread'
      injection hread' with hpair
      injection hpair with hunit htail
      obtain ⟨hs, hr⟩ := ih hrest' htail
      exact ⟨by rw [hunit, hs], hr⟩

theorem quote_unique {s t r q : JsString} (h : quote s ++ r = quote t ++ q) : s = t ∧ r = q := by
  refine (reads_quoteUnits s).unique (reads_quoteUnits t) ?_
  have htail : quoteUnits s ++ [34] ++ r = quoteUnits t ++ [34] ++ q := tail_eq_of_cons_eq h
  rwa [append_assoc, append_assoc] at htail

/-! ## Texts -/

/-- The units of a number: digits, signs, the point and the exponent. -/
def numberUnits : List CodeUnit := [43, 45, 46, 48, 49, 50, 51, 52, 53, 54, 55, 56, 57, 101]

/-- `Number::toString` for the finite numbers, with one zero: different
    numbers have different texts, of the units of a number. -/
structure NumberText (N : Type) where
  text : N → JsString
  injective : ∀ m n, text m = text n → m = n
  nonempty : ∀ n, text n ≠ []
  digits : ∀ n, ∀ u ∈ text n, u ∈ numberUnits

instance (priority := 2000) neZeroDigits : @NeZero Nat Zero.ofOfNat0 10 := ⟨Nat.succ_ne_zero _⟩

/-- The numbers of one digit, as a type of numbers. -/
def digitText : NumberText (Fin 10) where
  text n := [Fin.ofNat 65536 (48 + n)]
  injective := by decide
  nonempty n := cons_ne_nil _ _
  digits n u hu := by
    have hall : ∀ n : Fin 10, Fin.ofNat 65536 (48 + n) ∈ numberUnits := by
      decide
    rw [mem_singleton.mp hu]
    exact hall n

/-- The texts with commas between them. -/
def join : List JsString → JsString
  | [] => []
  | text :: rest => text ++ rest.flatMap fun next => 44 :: next

section

variable (num : NumberText N)

mutual

/-- `JSON.stringify`. -/
def stringify : Json N → Option JsString
  | .undefined => none
  | .null => some (ofString "null")
  | .bool b => some (ofString (if b then "true" else "false"))
  | .number n => some (num.text n)
  | .string s => some (quote s)
  | .array elements => some (91 :: (join (stringifyElements elements) ++ [93]))
  | .object members => some (123 :: (join (stringifyMembers members) ++ [125]))

def stringifyElements : List (Json N) → List JsString
  | [] => []
  | e :: rest => (stringify e).getD (ofString "null") :: stringifyElements rest

def stringifyMembers : List (JsString × Json N) → List JsString
  | [] => []
  | (key, v) :: rest =>
    match stringify v with
    | none => stringifyMembers rest
    | some text => (quote key ++ 58 :: text) :: stringifyMembers rest

end

/-- A value with no `undefined` in it. -/
inductive IsPlain : Json N → Prop where
  | null : IsPlain .null
  | bool (b : Bool) : IsPlain (.bool b)
  | number (n : N) : IsPlain (.number n)
  | string (s : JsString) : IsPlain (.string s)
  | array {elements : List (Json N)} (h : ∀ e ∈ elements, IsPlain e) : IsPlain (.array elements)
  | object {members : List (JsString × Json N)}
      (h : ∀ m ∈ members, IsPlain m.2) : IsPlain (.object members)

def text (v : Json N) : JsString := (stringify num v).getD (ofString "null")

def memberText (m : JsString × Json N) : JsString := quote m.1 ++ 58 :: text num m.2

theorem stringifyElements_eq (elements : List (Json N)) :
    stringifyElements num elements = elements.map (text num) := by
  induction elements with
  | nil => rfl
  | cons e rest ih =>
    rw [stringifyElements, ih]
    rfl

theorem stringify_plain {v : Json N} (h : IsPlain v) : stringify num v = some (text num v) := by
  cases h <;> rfl

theorem stringifyMembers_plain {members : List (JsString × Json N)}
    (h : ∀ m ∈ members, IsPlain m.2) :
    stringifyMembers num members = members.map (memberText num) := by
  induction members with
  | nil => rfl
  | cons m rest ih =>
    obtain ⟨hm, hrest⟩ := forall_mem_cons.mp h
    rw [stringifyMembers, stringify_plain num hm, ih hrest]
    rfl

theorem text_array (elements : List (Json N)) :
    text num (.array elements) = 91 :: (join (elements.map (text num)) ++ [93]) := by
  rw [← stringifyElements_eq]
  rfl

theorem text_object {members : List (JsString × Json N)} (h : ∀ m ∈ members, IsPlain m.2) :
    text num (.object members) = 123 :: (join (members.map (memberText num)) ++ [125]) := by
  rw [← stringifyMembers_plain num h]
  rfl

end

/-! ## Taking lists apart -/

/-- What follows an item: nothing, a comma or a closing bracket. -/
def Ends (r : JsString) : Prop := ∀ u ∈ r.head?, u = 44 ∨ u = 93 ∨ u = 125

/-- Texts that follow an item and agree come from one item. -/
def Unique {ι : Type} (t : ι → JsString) (a b : ι) : Prop :=
  ∀ r q, Ends r → Ends q → t a ++ r = t b ++ q → a = b ∧ r = q

section

variable {ι : Type} {t : ι → JsString} {c : CodeUnit}

theorem ends_tail (hc : c = 93 ∨ c = 125) (l : List ι) (r : JsString) :
    Ends ((l.flatMap fun a => 44 :: t a) ++ c :: r) := by
  intro u hu
  cases l with
  | nil =>
    cases hu
    exact .inr hc
  | cons a rest =>
    cases hu
    exact .inl rfl

section

variable {k l : List ι} (hc : c = 93 ∨ c = 125) (h : ∀ a ∈ l, ∀ b ∈ k, Unique t a b)
include hc h

theorem tail_unique {r q : JsString} (heq : (l.flatMap fun a => 44 :: t a) ++ c :: r
      = (k.flatMap fun a => 44 :: t a) ++ c :: q) : l = k ∧ r = q := by
  have hcomma : c ≠ 44 := by
    rintro rfl
    rcases hc with h | h
    · cases h
    · cases h
  induction l generalizing k with
  | nil =>
    cases k with
    | nil =>
      cases heq
      exact ⟨rfl, rfl⟩
    | cons b k => exact absurd (head_eq_of_cons_eq heq) hcomma
  | cons a l ih =>
    cases k with
    | nil => exact absurd (head_eq_of_cons_eq heq) hcomma.symm
    | cons b k =>
      obtain ⟨hab, hrest⟩ := forall_mem_cons.mp h
      rw [flatMap_cons, flatMap_cons, append_assoc, append_assoc] at heq
      obtain ⟨rfl, htail⟩ := hab b (mem_cons_self ..) _ _
        (ends_tail hc l r) (ends_tail hc k q) (tail_eq_of_cons_eq heq)
      obtain ⟨rfl, hr⟩ := ih (fun a ha b hb =>
        hrest a ha b (mem_cons_of_mem _ hb)) htail
      exact ⟨rfl, hr⟩

/-- **ITEMS**: a list of items is read off its text, if each item is and
    none begins with the bracket that closes the list. -/
theorem join_unique (hl : ∀ a ∈ l, ∀ r, (t a ++ r).head? ≠ some c)
    (hk : ∀ b ∈ k, ∀ r, (t b ++ r).head? ≠ some c) {r q : JsString}
    (heq : join (l.map t) ++ c :: r = join (k.map t) ++ c :: q) :
    l = k ∧ r = q := by
  cases l with
  | nil =>
    cases k with
    | nil =>
      cases heq
      exact ⟨rfl, rfl⟩
    | cons b k =>
      rw [map_cons, join, append_assoc] at heq
      exact absurd (congrArg List.head? heq).symm (hk b (mem_cons_self ..) _)
  | cons a l =>
    cases k with
    | nil =>
      rw [map_cons, join, append_assoc] at heq
      exact absurd (congrArg List.head? heq) (hl a (mem_cons_self ..) _)
    | cons b k =>
      rw [map_cons, join, map_cons, join, append_assoc,
        append_assoc, flatMap_map, flatMap_map] at heq
      obtain ⟨rfl, htail⟩ := h a (mem_cons_self ..) b
        (mem_cons_self ..) _ _ (ends_tail hc l r) (ends_tail hc k q) heq
      obtain ⟨rfl, hr⟩ := tail_unique hc (fun a ha b hb =>
        h a (mem_cons_of_mem _ ha) b (mem_cons_of_mem _ hb))
        htail
      exact ⟨rfl, hr⟩

end

end

/-! ## Texts come from one value -/

section

variable (num : NumberText N)

def kind : Json N → Nat
  | .undefined => 0
  | .null => 1
  | .bool _ => 2
  | .number _ => 3
  | .string _ => 4
  | .array _ => 5
  | .object _ => 6

/-- The kind of a value whose text begins with the unit. -/
def kindOf (u : CodeUnit) : Nat :=
  if u = 110 then 1
  else if u = 116 ∨ u = 102 then 2
  else if u ∈ numberUnits then 3
  else if u = 34 then 4
  else if u = 91 then 5
  else if u = 123 then 6
  else 0

theorem kindOf_number {u : CodeUnit} (h : u ∈ numberUnits) : kindOf u = 3 := by
  have hall : (numberUnits.all fun u => kindOf u = 3) = true := by decide
  exact of_decide_eq_true (all_eq_true.mp hall u h)

variable {v : Json N}

theorem text_kind (h : IsPlain v) :
    ∃ u rest, text num v = u :: rest ∧ kindOf u = kind v ∧ kind v ≠ 0 := by
  cases h with
  | null =>
    have htext : ofString "null" = [110, 117, 108, 108] := by decide
    exact ⟨110, _, htext, rfl, Nat.one_ne_zero⟩
  | bool b =>
    cases b
    · have htext : ofString "false" = [102, 97, 108, 115, 101] := by decide
      exact ⟨102, _, htext, rfl, Nat.succ_ne_zero 1⟩
    · have htext : ofString "true" = [116, 114, 117, 101] := by decide
      exact ⟨116, _, htext, rfl, Nat.succ_ne_zero 1⟩
  | number n =>
    have htext : text num (.number n) = num.text n := rfl
    rcases hunits : num.text n with _ | ⟨u, rest⟩
    · exact absurd hunits (num.nonempty n)
    · have hu := num.digits n u (hunits ▸ mem_cons_self ..)
      exact ⟨u, rest, htext.trans hunits, kindOf_number hu, Nat.succ_ne_zero 2⟩
  | string s => exact ⟨34, _, rfl, rfl, Nat.succ_ne_zero 3⟩
  | array helements => exact ⟨91, _, text_array num _, rfl, Nat.succ_ne_zero 4⟩
  | object hmembers => exact ⟨123, _, text_object num hmembers, rfl, Nat.succ_ne_zero 5⟩

theorem text_head (h : IsPlain v) {c : CodeUnit} (hc : kindOf c = 0) (r : JsString) :
    (text num v ++ r).head? ≠ some c := by
  obtain ⟨u, rest, htext, hkind, hne⟩ := text_kind num h
  rw [htext]
  intro hhead
  cases hhead
  exact hne (hkind.symm.trans hc)

theorem number_append {x y r q : JsString}
    (hx : ∀ u ∈ x, u ∈ numberUnits) (hy : ∀ u ∈ y, u ∈ numberUnits)
    (hr : Ends r) (hq : Ends q) (h : x ++ r = y ++ q) : x = y ∧ r = q := by
  have hends : ∀ {u : CodeUnit} {l : JsString}, u ∈ numberUnits → Ends (u :: l) → False := by
    intro u l hu hl
    rcases hl u rfl with rfl | rfl | rfl
    · exact absurd hu (by decide)
    · exact absurd hu (by decide)
    · exact absurd hu (by decide)
  induction x generalizing y with
  | nil =>
    cases y with
    | nil => exact ⟨rfl, h⟩
    | cons v y =>
      rw [nil_append] at h
      rw [h] at hr
      exact (hends (hy v (mem_cons_self ..)) hr).elim
  | cons u x ih =>
    obtain ⟨hu, hx⟩ := forall_mem_cons.mp hx
    cases y with
    | nil =>
      rw [nil_append] at h
      rw [← h] at hq
      exact (hends hu hq).elim
    | cons v y =>
      obtain ⟨rfl, htail⟩ := List.cons.inj h
      obtain ⟨rfl, hrest⟩ := ih hx (fun w hw => hy w (mem_cons_of_mem _ hw)) htail
      exact ⟨rfl, hrest⟩

theorem member_unique {m n : JsString × Json N}
    (h : Unique (text num) m.2 n.2) : Unique (memberText num) m n := by
  intro r q hr hq heq
  rw [memberText, memberText, append_assoc, append_assoc] at heq
  obtain ⟨hkey, hvalue⟩ := quote_unique heq
  obtain ⟨hv, hrest⟩ := h r q hr hq (tail_eq_of_cons_eq hvalue)
  exact ⟨Prod.ext hkey hv, hrest⟩

variable {w : Json N}

theorem kind_eq (hv : IsPlain v) (hw : IsPlain w)
    {r q : JsString} (h : text num v ++ r = text num w ++ q) :
    kind v = kind w := by
  obtain ⟨u, x, hx, hu, -⟩ := text_kind num hv
  obtain ⟨u', y, hy, hu', -⟩ := text_kind num hw
  rw [hx, hy] at h
  rw [← hu, ← hu', head_eq_of_cons_eq h]

theorem bool_unique (b c : Bool) :
    Unique (fun b => ofString (if b then "true" else "false")) b c := by
  intro r q _ _ heq
  have htrue : ofString "true" = [116, 114, 117, 101] := by decide
  have hfalse : ofString "false" = [102, 97, 108, 115, 101] := by decide
  cases b
  · cases c
    · exact ⟨rfl, append_cancel_left heq⟩
    · exact absurd (head_eq_of_cons_eq heq) (by decide)
  · cases c
    · simp only [Bool.false_eq_true, if_false, if_true, htrue, hfalse] at heq
      exact absurd (head_eq_of_cons_eq heq) (by decide)
    · exact ⟨rfl, append_cancel_left heq⟩

/-- **TEXTS**: a text up to a comma or a closing bracket comes from one
    value. -/
theorem text_unique (hv : IsPlain v) (hw : IsPlain w) : Unique (text num) v w := by
  induction v using Json.tree_induction generalizing w with
  | undefined => cases hv
  | null =>
    intro r q _ _ heq
    have hkind := kind_eq num hv hw heq
    cases hw <;> cases hkind
    exact ⟨rfl, append_cancel_left heq⟩
  | bool b =>
    intro r q hr hq heq
    have hkind := kind_eq num hv hw heq
    cases hw <;> cases hkind
    obtain ⟨rfl, hrest⟩ := bool_unique b _ r q hr hq heq
    exact ⟨rfl, hrest⟩
  | number n =>
    intro r q hr hq heq
    have hkind := kind_eq num hv hw heq
    cases hw <;> cases hkind
    obtain ⟨htext, hrest⟩ := number_append (num.digits _) (num.digits _) hr hq heq
    exact ⟨congrArg _ (num.injective _ _ htext), hrest⟩
  | string s =>
    intro r q _ _ heq
    have hkind := kind_eq num hv hw heq
    cases hw <;> cases hkind
    obtain ⟨rfl, hrest⟩ := quote_unique heq
    exact ⟨rfl, hrest⟩
  | array elements ih =>
    intro r q _ _ heq
    have hkind := kind_eq num hv hw heq
    cases hv with
    | array helements =>
      cases hw <;> cases hkind
      next others hothers =>
        rw [text_array, text_array] at heq
        have htail := tail_eq_of_cons_eq heq
        rw [append_eq, append_eq, append_assoc, append_assoc] at htail
        obtain ⟨rfl, hrest⟩ := join_unique (.inl rfl)
          (fun a ha b hb => ih a ha (helements a ha) (hothers b hb))
          (fun a ha r => text_head num (helements a ha) rfl r)
          (fun b hb r => text_head num (hothers b hb) rfl r) htail
        exact ⟨rfl, hrest⟩
  | object members ih =>
    intro r q _ _ heq
    have hkind := kind_eq num hv hw heq
    cases hv with
    | object hmembers =>
      cases hw <;> cases hkind
      next others hothers =>
        rw [text_object num hmembers, text_object num hothers] at heq
        have htail := tail_eq_of_cons_eq heq
        rw [append_eq, append_eq, append_assoc, append_assoc] at htail
        have hquote : ∀ (m : JsString × Json N) (r : JsString),
            (memberText num m ++ r).head? ≠ some 125 := by
          intro m r
          have hhead : (memberText num m ++ r).head? = some 34 := rfl
          rw [hhead]
          decide
        obtain ⟨rfl, hrest⟩ := join_unique (.inr rfl)
          (fun a ha b hb => member_unique num (ih a ha (hmembers a ha) (hothers b hb)))
          (fun a _ => hquote a) (fun b _ => hquote b) htail
        exact ⟨rfl, hrest⟩

theorem stringify_injective (hv : IsPlain v) (hw : IsPlain w)
    (h : stringify num v = stringify num w) : v = w := by
  rw [stringify_plain num hv, stringify_plain num hw] at h
  have htext : text num v ++ [] = text num w ++ [] := congrArg (· ++ []) (Option.some.inj h)
  have hnil : Ends [] := fun u hu => by cases hu
  exact (text_unique num hv hw [] [] hnil hnil htext).1

end

end N8nJsonText
