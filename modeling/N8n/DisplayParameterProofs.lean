import N8n.JsValuesProofs
import N8n.EarlyReturnProofs
import N8n.ExceptProofs
import N8n.DirectedGraphProofs

/-! # Displayed parameters — rules in any order

    A parameter lists rules that show it and rules that hide it, each under
    the name of a value.  The rules are read one by one: an expression ends
    the reading with yes, a rule that does not match with no, and an
    operator that does not fit the value throws.

    The names are read in the order of `Object.keys`, so only the names that
    are no array indices come in the order in which they are listed.  The
    answer is the same for every listing exactly where no rule that can come
    first throws or contradicts another one (`displayParameter_sameForAll`),
    by the rule for loops that return early. -/

namespace N8nDisplayParameter

open N8nJsonText N8nJsValues N8nOrderedMap N8nEarlyReturn List
open N8nDirectedGraph (arrayIndex? propertyOrder)

/-! ## Rules -/

inductive NodeParameterValue (F : Type) where
  | string (s : JsString)
  | number (n : Number F)
  | boolean (b : Bool)
  | undefined
  | null

def NodeParameterValue.value {F : Type} : NodeParameterValue F → Value F
  | .string s => .string s
  | .number n => .number n
  | .boolean b => .bool b
  | .undefined => .undefined
  | .null => .null

/-- The operators of a condition, under `_cnd`. -/
inductive DisplayCondition (F : Type) where
  | eq (target : NodeParameterValue F)
  | not (target : NodeParameterValue F)
  | gte (target : NodeParameterValue F)
  | lte (target : NodeParameterValue F)
  | gt (target : NodeParameterValue F)
  | lt (target : NodeParameterValue F)
  | between (lower upper : NodeParameterValue F)
  | includes (target : JsString)
  | startsWith (target : JsString)
  | endsWith (target : JsString)
  | regex (target : JsString)
  | exist

/-- What a rule lists: plain values and conditions. -/
inductive Condition (F : Type) where
  | plain (value : NodeParameterValue F)
  | cnd (condition : DisplayCondition F)

/-- The conditions under each name; a name can stand without any. -/
abbrev Rules (F : Type) := OrderedMap String (Option (List (Condition F)))

structure DisplayOptions (F : Type) where
  «show» : Option (Rules F)
  hide : Option (Rules F)

/-- The description of a node type: its name, and the conditions on the
    version under which it has a feature. -/
structure NodeTypeDescription (F : Type) where
  name : String
  features : Option (OrderedMap String (List (Condition F)))

/-- The values that a parameter is displayed with. -/
structure Context (F : Type) where
  nodeValues : Value F
  nodeValuesRoot : Option (Value F)
  typeVersion : Option (Number F)
  nodeTypeDescription : Option (NodeTypeDescription F)

/-- The numbers, the lookup of a path in a value, and the test of a regular
    expression; a pattern may be none. -/
structure Platform (F : Type) where
  numbers : Numbers F
  get : Value F → String → Value F
  regex : JsString → Option (JsString → Bool)

inductive Thrown where
  | typeError
  | syntaxError

variable {F : Type}

section

variable [LinearOrder F] (p : Platform F)

/-! ## Conditions -/

/-- A result, where a conversion may throw. -/
def orTypeError {α : Type} : Option α → Except Thrown α
  | some a => .ok a
  | none => .error .typeError

def textMethod (method : JsString → Bool) : Value F → Except Thrown Bool
  | .string s => .ok (method s)
  | _ => .error .typeError

/-- `value.includes(target)`: texts and arrays have the method. -/
def includes (target : JsString) : Value F → Except Thrown Bool
  | .string s => .ok (s.tails.any fun rest => target.isPrefixOf rest)
  | .array elements => .ok (elements.any fun e => sameValueZero e (.string target))
  | _ => .error .typeError

/-- The conditions on one value. -/
def meets (condition : DisplayCondition F) (propertyValue : Value F) : Except Thrown Bool :=
  match condition with
  | .eq target => .ok (isEqual propertyValue target.value)
  | .not target => .ok (!isEqual propertyValue target.value)
  | .gte target => orTypeError (atLeast p.numbers propertyValue target.value)
  | .lte target => orTypeError (atMost p.numbers propertyValue target.value)
  | .gt target => orTypeError (greaterThan p.numbers propertyValue target.value)
  | .lt target => orTypeError (lessThan p.numbers propertyValue target.value)
  | .between lower upper => do
      if ← orTypeError (atLeast p.numbers propertyValue lower.value) then
        orTypeError (atMost p.numbers propertyValue upper.value)
      else return false
  | .includes target => includes target propertyValue
  | .startsWith target => textMethod (fun s => target.isPrefixOf s) propertyValue
  | .endsWith target => textMethod (fun s => target.isSuffixOf s) propertyValue
  | .regex target =>
    match p.regex target with
    | none => .error .syntaxError
    | some test => do
        let text ← orTypeError (toText p.numbers propertyValue)
        return test text
  | .exist => .ok !(propertyValue matches .null | .undefined | .string [])

/-- One condition, on all the values of the property. -/
def checkCondition (condition : Condition F) (actualValues : List (Value F)) : Except Thrown Bool :=
  match condition with
  | .plain value => .ok (actualValues.any fun v => sameValueZero v value.value)
  | .cnd condition =>
    if actualValues.isEmpty then .ok (condition matches .not _)
    else actualValues.allM (meets p condition)

def checkConditions (conditions : List (Condition F))
    (actualValues : List (Value F)) : Except Thrown Bool :=
  conditions.anyM fun condition => checkCondition p condition actualValues

/-! ## Values -/

def evaluateFeature (featureDef : List (Condition F))
    (nodeVersion : Number F) : Except Thrown Bool :=
  checkConditions p featureDef [.number nodeVersion]

/-- What is written under `__proto__` is no entry. -/
def getNodeFeatures (featuresDef : OrderedMap String (List (Condition F)))
    (nodeVersion : Number F) : Except Thrown (OrderedMap String Bool) :=
  (propertyOrder featuresDef.keys).foldlM (fun features featureName => do
    let enabled ← evaluateFeature p ((featuresDef.get? featureName).getD []) nodeVersion
    return if featureName = "__proto__" then features
      else features.set featureName enabled) .empty

def featureNames (ctx : Context F) : Except Thrown (List (Value F)) :=
  match ctx.nodeTypeDescription.bind fun d => d.features, ctx.typeVersion with
  | some features, some version =>
    if truthy p.numbers (.number version) then do
      let features ← getNodeFeatures p features version
      return ((propertyOrder features.keys).filter fun name =>
        features.get? name = some true).map fun name =>
          .string (ofString name)
    else .ok []
  | _, _ => .ok []

/-- The value inside a resource locator. -/
def locatedValue (value : Value F) : Value F :=
  match value with
  | .object members =>
    match findKey (ofString "__rl") members with
    | some rl =>
      if truthy p.numbers rl then
        (findKey (ofString "value") members).getD .undefined
      else value
    | none => value
  | value => value

def asValues (value : Value F) : List (Value F) :=
  match locatedValue p value with
  | .array elements => elements
  | value => [value]

def getPropertyValues (ctx : Context F) (propertyName : String) : Except Thrown (List (Value F)) :=
  if propertyName.toList.head? = some '/' then
    .ok (asValues p (p.get (ctx.nodeValuesRoot.getD ctx.nodeValues)
      (String.ofList (propertyName.toList.drop 1))))
  else if propertyName = "@version" then
    let typeVersion := ctx.typeVersion.getD (.real (p.numbers.ofNat 0))
    .ok (asValues p (.number
      (if truthy p.numbers (.number typeVersion) then typeVersion
        else .real (p.numbers.ofNat 0))))
  else if propertyName = "@tool" then
    .ok (asValues p (.bool ((ctx.nodeTypeDescription.map fun d =>
      "Tool".toList.isSuffixOf d.name.toList).getD false)))
  else if propertyName = "@feature" then featureNames p ctx
  else .ok (asValues p (p.get ctx.nodeValues propertyName))

/-! ## The loops over the rules -/

/-- A text that starts with `=`. -/
def isExpression : Value F → Bool
  | .string s => s.head? = some 61
  | _ => false

/-- `rules[propertyName]!`, whose method `some` is called. -/
def conditionsOf (rules : Rules F) (propertyName : String) : Except Thrown (List (Condition F)) :=
  match rules.get? propertyName with
  | some (some conditions) => .ok conditions
  | _ => .error .typeError

/-- The body of the loop over the rules that show the parameter. -/
def showRule (ctx : Context F) (rules : Rules F) (propertyName : String) :
    Except Thrown (Option Bool) := do
  let values ← getPropertyValues p ctx propertyName
  if values.any isExpression then return some true
  else
    let conditions ← conditionsOf rules propertyName
    let met ← checkConditions p conditions values
    return if met then none else some false

/-- The body of the loop over the rules that hide the parameter. -/
def hideRule (ctx : Context F) (rules : Rules F) (propertyName : String) :
    Except Thrown (Option Bool) := do
  let values ← getPropertyValues p ctx propertyName
  if values.isEmpty then return none
  else
    let conditions ← conditionsOf rules propertyName
    let met ← checkConditions p conditions values
    return if met then some false else none

/-- `for (const propertyName of Object.keys(rules))`, where a rule may end
    the function with an answer. -/
def readRules (rule : Rules F → String → Except Thrown (Option Bool))
    (rules : Option (Rules F)) : Except Thrown (Option Bool) :=
  match rules with
  | none => .ok none
  | some rules => (propertyOrder rules.keys).findSomeM? (rule rules)

def displayParameter (ctx : Context F) (options : Option (DisplayOptions F)) : Except Thrown Bool :=
  match options with
  | none => .ok true
  | some options => do
      match ← readRules (showRule p ctx) options.show with
      | some answer => return answer
      | none =>
        match ← readRules (hideRule p ctx) options.hide with
        | some answer => return answer
        | none => return true

end

/-! ## Names in the order of their keys -/

/-- The names that are array indices, by their size. -/
def indexNames (names : List String) : List String :=
  (names.filter fun name => (arrayIndex? name).isSome).mergeSort
    fun a b => (arrayIndex? a).getD 0 ≤ (arrayIndex? b).getD 0

def otherNames (names : List String) : List String :=
  names.filter fun name => !(arrayIndex? name).isSome

theorem propertyOrder_eq (names : List String) :
    propertyOrder names = indexNames names ++ otherNames names := rfl

theorem propertyOrder_of_names (names : List String) (h : ∀ name ∈ names, arrayIndex? name = none) :
    propertyOrder names = names := by
  have hindex : names.filter (fun name => (arrayIndex? name).isSome) = [] := by
    refine filter_eq_nil_iff.mpr fun name hname => ?_
    simp [h name hname]
  have hother : names.filter (fun name => !(arrayIndex? name).isSome)
      = names := by
    refine filter_eq_self.mpr fun name hname => ?_
    simp [h name hname]
  rw [propertyOrder, hindex, hother, mergeSort_nil, nil_append]

theorem arrayIndex?_eq_none {name : String}
    (h : name.toList.all Char.isDigit = false) : arrayIndex? name = none := by
  rw [arrayIndex?, Option.filter_eq_none_iff]
  intro n _
  rw [Bool.and_eq_true, decide_eq_true_iff, decide_eq_true_iff]
  rintro ⟨-, rfl⟩
  rw [Nat.toString_eq_repr, Nat.toList_repr, all_eq_false] at h
  obtain ⟨c, hc, hdigit⟩ := h
  exact hdigit (Nat.isDigit_of_mem_toDigits (by decide) (by decide) hc)

theorem arrayIndex?_injective {a b : String} {n : Nat}
    (ha : arrayIndex? a = some n) (hb : arrayIndex? b = some n) : a = b := by
  rw [arrayIndex?, Option.filter_eq_some_iff, Bool.and_eq_true] at ha hb
  rw [← of_decide_eq_true ha.2.2, ← of_decide_eq_true hb.2.2]

theorem isSome_of_mem_indexNames {name : String} {names : List String}
    (h : name ∈ indexNames names) : (arrayIndex? name).isSome = true := by
  rw [indexNames, mem_mergeSort] at h
  exact (mem_filter.mp h).2

theorem indexNames_pairwise (names : List String) : (indexNames names).Pairwise fun a b =>
      (arrayIndex? a).getD 0 ≤ (arrayIndex? b).getD 0 := by
  refine (pairwise_mergeSort ?_ ?_ _).imp of_decide_eq_true
  · intro a b c hab hbc
    exact decide_eq_true (Nat.le_trans (of_decide_eq_true hab) (of_decide_eq_true hbc))
  · intro a b
    rw [Bool.or_eq_true, decide_eq_true_iff, decide_eq_true_iff]
    exact Nat.le_total _ _

theorem indexNames_perm {names names' : List String}
    (h : names.Perm names') : indexNames names = indexNames names' := by
  refine List.Perm.eq_of_pairwise ?_ (indexNames_pairwise names) (indexNames_pairwise names') ?_
  · intro a b ha hb hab hba
    obtain ⟨m, hm⟩ := Option.isSome_iff_exists.mp (isSome_of_mem_indexNames ha)
    obtain ⟨n, hn⟩ := Option.isSome_iff_exists.mp (isSome_of_mem_indexNames hb)
    simp only [hm, hn, Option.getD_some] at hab hba
    obtain rfl : m = n := Nat.le_antisymm hab hba
    exact arrayIndex?_injective hm hn
  · exact (mergeSort_perm ..).trans ((h.filter _).trans (mergeSort_perm ..).symm)

theorem otherNames_perm {names names' : List String}
    (h : names.Perm names') : (otherNames names).Perm (otherNames names') :=
  h.filter _

theorem otherNames_append {names l : List String} (h : l.Perm (otherNames names)) :
    otherNames (indexNames names ++ l) = l := by
  rw [otherNames, filter_append, filter_eq_nil_iff.mpr, filter_eq_self.mpr, nil_append]
  · intro name hname
    exact (mem_filter.mp (h.mem_iff.mp hname)).2
  · intro name hname
    simp [isSome_of_mem_indexNames hname]

/-! ## Listings of the same rules -/

/-- The rules with their names, as they are listed. -/
def listed (rules : Option (Rules F)) : List (String × Option (List (Condition F))) :=
  match rules with
  | none => []
  | some rules => rules.entries

def names (rules : Option (Rules F)) : List String := (listed rules).map Prod.fst

/-- The same rules, listed in an order of their own. -/
def SameRules (rules rules' : Option (Rules F)) : Prop := (listed rules').Perm (listed rules)

theorem sameRules_refl (rules : Option (Rules F)) : SameRules rules rules := List.Perm.refl _

theorem SameRules.names {rules rules' : Option (Rules F)} (h : SameRules rules rules') :
    (N8nDisplayParameter.names rules').Perm (N8nDisplayParameter.names rules) :=
  h.map Prod.fst

/-- What the loop does with a rule depends on its conditions only. -/
def ReadsConditions (rule : Rules F → String → Except Thrown (Option Bool)) : Prop :=
  ∀ rules rules' name, rules.get? name = rules'.get? name → rule rules name = rule rules' name

theorem conditionsOf_congr {rules rules' : Rules F} {name : String}
    (h : rules.get? name = rules'.get? name) :
    conditionsOf rules name = conditionsOf rules' name := by
  rw [conditionsOf, conditionsOf, h]

theorem showRule_readsConditions [LinearOrder F] (p : Platform F)
    (ctx : Context F) : ReadsConditions (showRule p ctx) := by
  intro rules rules' name h
  rw [showRule, showRule, conditionsOf_congr h]

theorem hideRule_readsConditions [LinearOrder F] (p : Platform F)
    (ctx : Context F) : ReadsConditions (hideRule p ctx) := by
  intro rules rules' name h
  rw [hideRule, hideRule, conditionsOf_congr h]

theorem listed_getD (rules : Option (Rules F)) : (rules.getD .empty).entries = listed rules := by
  cases rules <;> rfl

theorem get?_of_sameRules {rules rules' : Option (Rules F)}
    (h : SameRules rules rules') (name : String) :
    (rules'.getD .empty).get? name = (rules.getD .empty).get? name := by
  refine Option.ext fun conditions => ?_
  rw [OrderedMap.get?_eq_some, OrderedMap.get?_eq_some, listed_getD, listed_getD]
  exact h.mem_iff

theorem nodup_names (rules : Option (Rules F)) : (names rules).Nodup := by
  rw [names, ← listed_getD]
  exact (rules.getD .empty).nodup

theorem exists_listing (rules : Option (Rules F)) {order : List String}
    (h : order.Perm (names rules)) :
    ∃ rules', SameRules rules rules' ∧ names rules' = order := by
  let entry (name : String) := (name, ((rules.getD .empty).get? name).getD none)
  have hlisted : (names rules).map entry = listed rules := by
    rw [names, map_map]
    conv => rhs; rw [← map_id (listed rules)]
    refine map_congr_left fun e he => ?_
    have hget : (rules.getD .empty).get? e.1 = some e.2 := by
      rw [OrderedMap.get?_eq_some, listed_getD]
      exact he
    show (e.1, ((rules.getD .empty).get? e.1).getD none) = e
    rw [hget]
    rfl
  have hnames : (order.map entry).map Prod.fst = order := by
    rw [map_map]
    exact map_id'' (fun _ => rfl) _
  refine ⟨some ⟨order.map entry, ?_⟩, ?_, hnames⟩
  · rw [hnames]
    exact h.nodup_iff.mpr (nodup_names rules)
  · show (order.map entry).Perm (listed rules)
    rw [← hlisted]
    exact h.map entry

section

variable {rule : Rules F → String → Except Thrown (Option Bool)}

theorem readRules_eq (rules : Option (Rules F)) :
    readRules rule rules = (propertyOrder (names rules)).findSomeM? (rule (rules.getD .empty)) := by
  cases rules with
  | none =>
    have hnil : propertyOrder (names (none : Option (Rules F))) = [] :=
      (N8nDirectedGraph.propertyOrder_perm _).eq_nil
    rw [hnil]
    rfl
  | some rules => rfl

theorem readRules_of_sameRules (hrule : ReadsConditions rule)
    {rules rules' : Option (Rules F)} (h : SameRules rules rules') :
    readRules rule rules'
      = (indexNames (names rules) ++ otherNames (names rules')).findSomeM?
        (rule (rules.getD .empty)) := by
  have hfun : rule (rules'.getD .empty) = rule (rules.getD .empty) :=
    funext fun name => hrule _ _ name (get?_of_sameRules h name)
  rw [readRules_eq, propertyOrder_eq, indexNames_perm h.names, hfun]

/-- No rule that can come first throws or contradicts another one. -/
def OrderFree (rule : Rules F → String → Except Thrown (Option Bool))
    (rules : Option (Rules F)) : Prop :=
  Settled (rule (rules.getD .empty)) (indexNames (names rules)) (otherNames (names rules))

/-- Every rule lets the loop go on. -/
def AllGoOn (rule : Rules F → String → Except Thrown (Option Bool))
    (rules : Option (Rules F)) : Prop :=
  ∀ name ∈ names rules, rule (rules.getD .empty) name = .ok none

theorem orderFree_iff (hrule : ReadsConditions rule) (rules : Option (Rules F)) :
    OrderFree rule rules
      ↔ ∃ r, ∀ rules', SameRules rules rules' → readRules rule rules' = .ok r := by
  rw [OrderFree, ← sameForAllOrders_iff]
  refine exists_congr fun r => ?_
  constructor
  · intro h rules' hsame
    rw [readRules_of_sameRules hrule hsame]
    exact h _ (otherNames_perm hsame.names)
  · intro h l hl
    have horder : (indexNames (names rules) ++ l).Perm (names rules) :=
      (hl.append_left _).trans (N8nDirectedGraph.propertyOrder_perm _)
    obtain ⟨rules', hsame, hnames⟩ := exists_listing rules horder
    have hread := h rules' hsame
    rw [readRules_of_sameRules hrule hsame, hnames, otherNames_append hl] at hread
    exact hread

theorem readRules_none_iff {rules : Option (Rules F)} :
    readRules rule rules = .ok none ↔ AllGoOn rule rules := by
  rw [readRules_eq, findSomeM?_eq]
  constructor
  · intro h name hname
    rw [← decides_eq_false]
    cases hfind : (propertyOrder (names rules)).find? (decides (rule (rules.getD .empty))) with
    | none =>
      rw [find?_eq_none] at hfind
      simpa using hfind name (N8nDirectedGraph.mem_propertyOrder.mpr hname)
    | some x =>
      rw [hfind] at h
      have hdecides := find?_some hfind
      have hgoes : rule (rules.getD .empty) x = .ok none := h
      rw [decides_eq_false.mpr hgoes] at hdecides
      cases hdecides
  · intro h
    rw [find?_eq_none.mpr]
    intro name hname
    rw [decides_eq_false.mpr (h name (N8nDirectedGraph.mem_propertyOrder.mp hname))]
    simp

section

variable {rules rules' : Option (Rules F)} (hrule : ReadsConditions rule)
  (h : SameRules rules rules')
include hrule h

theorem allGoOn_of_sameRules : AllGoOn rule rules' ↔ AllGoOn rule rules := by
  refine forall_congr' fun name => ?_
  rw [h.names.mem_iff, hrule _ _ name (get?_of_sameRules h name)]

theorem readRules_none_of_sameRules (hgo : AllGoOn rule rules) : readRules rule rules' = .ok none :=
  readRules_none_iff.mpr ((allGoOn_of_sameRules hrule h).mpr hgo)

end

theorem orderFree_of_answer (hrule : ReadsConditions rule) {rules : Option (Rules F)} (b : Bool)
    (h : ∀ rules', SameRules rules rules' → readRules rule rules' = .ok none
        ∨ readRules rule rules' = .ok (some b)) :
    OrderFree rule rules := by
  rw [orderFree_iff hrule]
  by_cases hgo : AllGoOn rule rules
  · exact ⟨none, fun rules' hsame =>
      readRules_none_of_sameRules hrule hsame hgo⟩
  · refine ⟨some b, fun rules' hsame => ?_⟩
    rcases h rules' hsame with hnone | hsome
    · rw [readRules_none_iff, allGoOn_of_sameRules hrule hsame] at hnone
      exact absurd hnone hgo
    · exact hsome

end

/-! ## The answer -/

section

variable [LinearOrder F] (p : Platform F) (ctx : Context F)

/-- There is an answer, and it is the same for every order in which the
    rules are listed. -/
def SameForAllListings (options : DisplayOptions F) : Prop :=
  ∃ answer, ∀ shown hide, SameRules options.show shown → SameRules options.hide hide →
    displayParameter p ctx (some ⟨shown, hide⟩) = .ok answer

/-- **ORDER DOES NOT MATTER** exactly where it does not matter to the rules
    that show the parameter, nor, if these all match, to those that hide
    it. -/
theorem displayParameter_sameForAll (options : DisplayOptions F) :
    SameForAllListings p ctx options
      ↔ OrderFree (showRule p ctx) options.show
        ∧ (AllGoOn (showRule p ctx) options.show → OrderFree (hideRule p ctx) options.hide) := by
  have hshowRule := showRule_readsConditions p ctx
  have hhideRule := hideRule_readsConditions p ctx
  constructor
  · rintro ⟨answer, hanswer⟩
    refine ⟨orderFree_of_answer hshowRule answer ?_, fun hgo =>
      orderFree_of_answer hhideRule answer ?_⟩
    · intro shown hsame
      have h := hanswer shown options.hide hsame (sameRules_refl _)
      rw [displayParameter] at h
      cases hread : readRules (showRule p ctx) shown with
      | error e => rw [hread] at h; cases h
      | ok r =>
        cases r with
        | none => exact .inl rfl
        | some a => rw [hread] at h; cases h; exact .inr rfl
    · intro hide hsame
      have h := hanswer options.show hide (sameRules_refl _) hsame
      rw [displayParameter, readRules_none_iff.mpr hgo] at h
      cases hread : readRules (hideRule p ctx) hide with
      | error e => rw [hread] at h; cases h
      | ok r =>
        cases r with
        | none => exact .inl rfl
        | some a => rw [hread] at h; cases h; exact .inr rfl
  · rintro ⟨hshow, hhide⟩
    obtain ⟨r, hr⟩ := (orderFree_iff hshowRule _).mp hshow
    cases r with
    | some answer =>
      refine ⟨answer, fun shown hide hsame _ => ?_⟩
      rw [displayParameter, hr shown hsame]
      rfl
    | none =>
      have hgo := readRules_none_iff.mp (hr _ (sameRules_refl _))
      obtain ⟨r', hr'⟩ := (orderFree_iff hhideRule _).mp (hhide hgo)
      refine ⟨r'.getD true, fun shown hide hsame hsame' => ?_⟩
      rw [displayParameter, hr shown hsame]
      show (readRules (hideRule p ctx) hide >>= _) = _
      rw [hr' hide hsame']
      cases r' <;> rfl

end

/-! ## An expression and a rule that fails -/

/-- The integers, the members of an object, and no regular expressions. -/
def plainPlatform : Platform Int where
  numbers := integers
  get value path :=
    match value with
    | .object members => (findKey (ofString path) members).getD .undefined
    | _ => .undefined
  regex _ := none

/-- `mode` holds an expression, and `resource` another value than asked
    for. -/
def expressionContext : Context Int where
  nodeValues := .object
    [(ofString "mode", .string (ofString "=x")), (ofString "resource", .string (ofString "b"))]
  nodeValuesRoot := none
  typeVersion := none
  nodeTypeDescription := none

/-- Rules that ask for these texts. -/
def asks (rules : List (String × String)) (h : (rules.map Prod.fst).Nodup) : Rules Int :=
  ⟨rules.map fun r =>
    (r.1, some [.plain (.string (ofString r.2))]), by
      rw [map_map]
      exact h⟩

def modeFirst : DisplayOptions Int :=
  { «show» := some (asks [("mode", "a"), ("resource", "a")] (by decide))
    hide := none }

def resourceFirst : DisplayOptions Int :=
  { «show» := some (asks [("resource", "a"), ("mode", "a")] (by decide))
    hide := none }

/-- The parameter is displayed in one order and not in the other. -/
theorem not_sameForAll :
    ¬ ∀ (ctx : Context Int) (options : DisplayOptions Int),
      SameForAllListings plainPlatform ctx options := by
  intro hall
  obtain ⟨answer, hanswer⟩ := hall expressionContext modeFirst
  have hmode : arrayIndex? "mode" = none := arrayIndex?_eq_none (by decide)
  have hresource : arrayIndex? "resource" = none := arrayIndex?_eq_none (by decide)
  have hyes : displayParameter plainPlatform expressionContext (some modeFirst) = .ok true := by
    have horder := propertyOrder_of_names ["mode", "resource"] (by simp [hmode, hresource])
    show ((propertyOrder ["mode", "resource"]).findSomeM?
      (showRule plainPlatform expressionContext (modeFirst.show.getD .empty)) >>= _) = _
    rw [horder]
    rfl
  have hno : displayParameter plainPlatform expressionContext (some resourceFirst) = .ok false := by
    have horder := propertyOrder_of_names ["resource", "mode"] (by simp [hmode, hresource])
    show ((propertyOrder ["resource", "mode"]).findSomeM?
      (showRule plainPlatform expressionContext (resourceFirst.show.getD .empty)) >>= _) = _
    rw [horder]
    rfl
  have hfirst := hanswer modeFirst.show none (sameRules_refl _) (sameRules_refl _)
  have hsecond := hanswer resourceFirst.show none (List.Perm.swap ..) (sameRules_refl _)
  rw [show (⟨modeFirst.show, none⟩ : DisplayOptions Int) = modeFirst from rfl, hyes] at hfirst
  rw [show (⟨resourceFirst.show, none⟩ : DisplayOptions Int) = resourceFirst
    from rfl, hno] at hsecond
  cases hfirst.trans hsecond.symm

end N8nDisplayParameter
