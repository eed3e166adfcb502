import N8n.LookupMatchProofs

/-! # Compare Datasets — which of the inputs is A

    `findMatches` of the Compare Datasets node matches the items of two
    inputs and classifies each pair as same or as different.  Fuzzy
    comparison goes over the fields of the item of A only, strict comparison
    over the items as wholes, and either leaves out the field with the empty
    name: the option for fields to skip, when it is empty, is split into one
    empty name.

    The result does not depend on the sides exactly where the matches are
    mutual and the fields that are compared stand for all fields
    (`sideIndependent_iff`). -/

namespace N8nCompareDatasets

open N8nJsonText N8nJsValues N8nOrderedMap N8nFuzzyCompare N8nLookupMatch
open N8nDirectedGraph (objectPrototype)

/-! ## Items -/

/-- An item's data: no object holds a key twice. -/
structure Item (F : Type) where
  json : List (JsString × Value F)
  distinct : Distinct (.object json)

/-- An item is known by its place in its input. -/
abbrev Entry (F : Type) := Item F × Nat

structure CompareOptions (F : Type) where
  fuzzyCompare : Bool
  nodeVersion : F
  disableDotNotation : Bool
  multipleMatches : Option MultipleMatches

/-- What is read from a well-formed value is one. -/
def DistinctField {F : Type} : FieldValue F → Prop
  | .value v => Distinct v
  | .method _ => True

/-- `get(object, path)` reads a part of the object. -/
structure Reader (F : Type) where
  get : List (JsString × Value F) → JsString → FieldValue F
  distinct : ∀ members path, Distinct (.object members) → DistinctField (get members path)

/-- The lists of the result.  A pair stands for what the options make of it,
    one of its items or a mix of both. -/
structure Compared (F : Type) where
  unmatched1 : List (Entry F)
  same : List (Entry F × Entry F)
  different : List (Entry F × Entry F)
  unmatched2 : List (Entry F)

section

variable {F : Type}

def keys (item : Item F) : List JsString := item.json.map Prod.fst

/-- `omit(entry, [''])`: no fields are to be skipped, and `''.split(',')`
    has one element. -/
def omitSkipped (members : List (JsString × Value F)) : List (JsString × Value F) :=
  members.filter fun m => m.1 ≠ []

theorem nodup_keys (item : Item F) : (keys item).Nodup := by
  obtain ⟨members, hdistinct⟩ := item
  cases hdistinct with
  | object hkeys _ => exact hkeys

section

variable {key : JsString} (hkey : key ≠ []) (members : List (JsString × Value F))
include hkey

theorem findKey_omitSkipped : findKey key (omitSkipped members) = findKey key members := by
  induction members with
  | nil => rfl
  | cons m rest ih =>
    obtain ⟨name, v⟩ := m
    by_cases hname : name = []
    · have hdrop : omitSkipped ((name, v) :: rest) = omitSkipped rest :=
        List.filter_cons_of_neg (by simp [hname])
      rw [hdrop, ih, findKey_cons, if_neg fun heq => hkey (heq.symm.trans hname)]
    · have hkeep : omitSkipped ((name, v) :: rest)
          = (name, v) :: omitSkipped rest :=
        List.filter_cons_of_pos (by simp [hname])
      rw [hkeep, findKey_cons, findKey_cons, ih]

theorem member_omitSkipped : member (omitSkipped members) key = member members key := by
  rw [member, member, findKey_omitSkipped hkey]

end

theorem mem_keys_omitSkipped {key : JsString} (item : Item F) :
    key ∈ (omitSkipped item.json).map Prod.fst ↔ key ∈ keys item ∧ key ≠ [] := by
  simp only [omitSkipped, keys, List.mem_map, List.mem_filter, decide_eq_true_iff]
  constructor
  · rintro ⟨m, ⟨hm, hne⟩, rfl⟩
    exact ⟨⟨m, hm, rfl⟩, hne⟩
  · rintro ⟨⟨m, hm, rfl⟩, hne⟩
    exact ⟨m, ⟨hm, hne⟩, rfl⟩

theorem nodup_keys_omitSkipped (item : Item F) : ((omitSkipped item.json).map Prod.fst).Nodup :=
  (nodup_keys item).sublist (List.filter_sublist.map _)

theorem member_of_mem {item : Item F} {m : JsString × Value F}
    (hm : m ∈ item.json) : member item.json m.1 = .value m.2 := by
  rw [member, findKey_of_mem (nodup_keys item) hm]

theorem distinct_member (item : Item F) (key : JsString) :
    DistinctField (member item.json key) := by
  obtain ⟨members, hdistinct⟩ := item
  rw [member]
  cases hfind : findKey key members with
  | some v =>
    cases hdistinct with
    | object _ hvalues => exact hvalues _ (mem_of_findKey hfind)
  | none =>
    by_cases hproto : key = ofString "__proto__"
    · rw [if_pos hproto]
      exact .object List.nodup_nil fun _ hm => absurd hm List.not_mem_nil
    · rw [if_neg hproto]
      by_cases hinherited : key ∈ objectPrototype.map ofString
      · rw [if_pos hinherited]
        exact trivial
      · rw [if_neg hinherited]
        exact Distinct.undefined

end

/-! ## The function -/

section

variable {F : Type} [LinearOrder F] (p : Platform F) (reader : Reader F)
  (options : CompareOptions F)

def equalFields (x y : FieldValue F) : Bool :=
  isEntriesEqual p options.fuzzyCompare options.nodeVersion x y

def matching : Matching (Entry F) F where
  fieldValue entry field :=
    if options.disableDotNotation then member entry.1.json field
    else reader.get entry.1.json field
  isEntriesEqual := equalFields p options
  multipleMatches := options.multipleMatches.getD .first

/-- `isItemsEqual`, for a pair of items. -/
def isItemsEqual (entry match' : Item F) : Bool :=
  let entryFromInput1 := omitSkipped entry.json
  let entryFromInput2 := omitSkipped match'.json
  if options.fuzzyCompare then
    entryFromInput1.all fun m =>
      equalFields p options (member entryFromInput1 m.1) (member entryFromInput2 m.1)
  else
    equalFields p options (.value (.object entryFromInput1)) (.value (.object entryFromInput2))

def findMatches (input1 input2 : List (Item F)) (fieldsToMatch : List PairToMatch) : Compared F :=
  let state := matchesLoop (matching p reader options)
    (fun entry entries => entries.map fun m => (entry, m)) input1.zipIdx input2.zipIdx fieldsToMatch
  { unmatched1 := state.unmatched1
    same := state.matched.filter fun pair =>
      isItemsEqual p options pair.1.1 pair.2.1
    different := state.matched.filter fun pair =>
      !isItemsEqual p options pair.1.1 pair.2.1
    unmatched2 := (input2.zipIdx.zipIdx.filter fun entry =>
      !decide (entry.2 ∈ state.matchedInInput2)).map Prod.fst }

/-! ## The property and the condition -/

/-- The field compares equal in both items. -/
def EqualIn (a b : Item F) (key : JsString) : Prop :=
  equalFields p options (member a.json key) (member b.json key) = true

/-- Every field that is present in either item compares equal in both. -/
def AllEqual (a b : Item F) : Prop := ∀ key ∈ keys a ++ keys b, EqualIn p options a b key

/-- The pair of field names for the inputs the other way around. -/
def swapped (pair : PairToMatch) : PairToMatch where
  field1 := pair.field2
  field2 := pair.field1

section

variable (input1 input2 : List (Item F)) (pair : PairToMatch)

/-- The result, and the result for the inputs the other way around. -/
def result : Compared F := findMatches p reader options input1 input2 [pair]

/-- A matched pair is the same where all fields are equal, and the result of
    the inputs the other way around is the result the other way around. -/
structure SideIndependent : Prop where
  same_iff : ∀ a b, (a, b) ∈ (result p reader options input1 input2 pair).same
        ∨ (a, b) ∈ (result p reader options input1 input2 pair).different →
      ((a, b) ∈ (result p reader options input1 input2 pair).same ↔ AllEqual p options a.1 b.1)
  onlyA : (result p reader options input2 input1 (swapped pair)).unmatched2
    = (result p reader options input1 input2 pair).unmatched1
  onlyB : (result p reader options input2 input1 (swapped pair)).unmatched1
    = (result p reader options input1 input2 pair).unmatched2
  same : ∀ a b, (a, b) ∈ (result p reader options input1 input2 pair).same
    ↔ (b, a) ∈ (result p reader options input2 input1 (swapped pair)).same
  different : ∀ a b, (a, b) ∈ (result p reader options input1 input2 pair).different
      ↔ (b, a) ∈ (result p reader options input2 input1 (swapped pair)).different

/-- The entry of one input is a match that counts for the entry of the
    other. -/
def Chosen (a b : Entry F) : Prop :=
  b ∈ (found (matching p reader options) input2.zipIdx [pair] a).map Prod.fst

/-- The fields that are compared are equal: with fuzziness those of the
    first item, else those of both, which both must have; never the field
    with the empty name. -/
def FieldsAgree (a b : Item F) : Prop :=
  if options.fuzzyCompare then
    ∀ key ∈ keys a, key ≠ [] → EqualIn p options a b key
  else
    ∀ key ∈ keys a ++ keys b, key ≠ [] → key ∈ keys a ∧ key ∈ keys b ∧ EqualIn p options a b key

/-- Who is chosen chooses back, and of a pair that is matched the fields
    that are compared, on whichever side, stand for all fields. -/
structure Balanced : Prop where
  chosenBack : ∀ a ∈ input1.zipIdx, ∀ b ∈ input2.zipIdx,
    (Chosen p reader options input2 pair a b ↔ Chosen p reader options input1 (swapped pair) b a)
  fields : ∀ a ∈ input1.zipIdx, ∀ b ∈ input2.zipIdx, Chosen p reader options input2 pair a b →
      (FieldsAgree p options a.1 b.1 ↔ AllEqual p options a.1 b.1)
        ∧ (FieldsAgree p options b.1 a.1 ↔ AllEqual p options b.1 a.1)

end

/-! ## Fields of two items -/

theorem equalFields_comm {x y : FieldValue F} (hx : DistinctField x) (hy : DistinctField y) :
    equalFields p options x y = equalFields p options y x := by
  cases x with
  | value v =>
    cases y with
    | value w => exact fuzzyCompare_comm p _ _ hx hy
    | method _ => rfl
  | method name =>
    cases y with
    | value _ => rfl
    | method other => exact decide_eq_decide.mpr eq_comm

theorem equalIn_comm (a b : Item F) (key : JsString) :
    EqualIn p options a b key ↔ EqualIn p options b a key := by
  rw [EqualIn, EqualIn, equalFields_comm p options (distinct_member a key) (distinct_member b key)]

theorem allEqual_comm (a b : Item F) : AllEqual p options a b ↔ AllEqual p options b a := by
  simp [AllEqual, equalIn_comm p options a b, or_comm (a := _ ∈ keys a)]

section

variable (hstrict : options.fuzzyCompare = false)
include hstrict

theorem equalIn_of_mem {a b : Item F} {m : JsString × Value F} (hm : m ∈ a.json) {w : Value F}
    (hw : (m.1, w) ∈ b.json) :
    EqualIn p options a b m.1 ↔ isEqual m.2 w = true := by
  rw [EqualIn, member_of_mem hm, member_of_mem hw, equalFields, hstrict]
  rfl

theorem fieldsAgree_of_isEqual
    {a b : Item F} (hlength : (omitSkipped a.json).length = (omitSkipped b.json).length)
    (hvalues : ∀ m ∈ omitSkipped a.json, ∃ w,
      findKey m.1 (omitSkipped b.json) = some w ∧ isEqual m.2 w = true) :
    FieldsAgree p options a b := by
  rw [FieldsAgree, if_neg (by simp [hstrict])]
  have hboth : ∀ key ∈ (omitSkipped a.json).map Prod.fst,
      key ∈ keys a ∧ key ∈ keys b ∧ EqualIn p options a b key := by
    intro key hkey
    obtain ⟨m, hm, rfl⟩ := List.mem_map.mp hkey
    obtain ⟨w, hw, hequal⟩ := hvalues m hm
    have hwb := (List.mem_filter.mp (mem_of_findKey hw)).1
    have hma := (List.mem_filter.mp hm).1
    have hkeyb : m.1 ∈ keys b := List.mem_map.mpr ⟨(m.1, w), hwb, rfl⟩
    exact ⟨List.mem_map_of_mem hma, hkeyb, (equalIn_of_mem p options hstrict hma hwb).mpr hequal⟩
  intro key hkey hne
  refine hboth key ?_
  rcases List.mem_append.mp hkey with ha | hb
  · exact (mem_keys_omitSkipped a).mpr ⟨ha, hne⟩
  · exact mem_keys_of_length (nodup_keys_omitSkipped a) hlength hvalues
      ((mem_keys_omitSkipped b).mpr ⟨hb, hne⟩)

theorem isEqual_of_fieldsAgree {a b : Item F} (h : FieldsAgree p options a b) :
    (omitSkipped a.json).length = (omitSkipped b.json).length
      ∧ ∀ m ∈ omitSkipped a.json, ∃ w, findKey m.1 (omitSkipped b.json) = some w
          ∧ isEqual m.2 w = true := by
  rw [FieldsAgree, if_neg (by simp [hstrict])] at h
  constructor
  · have hperm : ((omitSkipped a.json).map Prod.fst).Perm ((omitSkipped b.json).map Prod.fst) := by
      rw [List.perm_ext_iff_of_nodup (nodup_keys_omitSkipped a) (nodup_keys_omitSkipped b)]
      intro key
      rw [mem_keys_omitSkipped, mem_keys_omitSkipped]
      constructor
      · rintro ⟨hkey, hne⟩
        exact ⟨(h key (List.mem_append_left _ hkey) hne).2.1, hne⟩
      · rintro ⟨hkey, hne⟩
        exact ⟨(h key (List.mem_append_right _ hkey) hne).1, hne⟩
    simpa using hperm.length_eq
  · intro m hm
    obtain ⟨hma, hne⟩ := List.mem_filter.mp hm
    have hne : m.1 ≠ [] := of_decide_eq_true hne
    have hkey : m.1 ∈ keys a := List.mem_map_of_mem hma
    obtain ⟨-, hkeyb, hequal⟩ := h m.1 (List.mem_append_left _ hkey) hne
    obtain ⟨n, hn, heq⟩ := List.mem_map.mp hkeyb
    have hnb : (m.1, n.2) ∈ b.json := heq ▸ hn
    refine ⟨n.2, ?_, (equalIn_of_mem p options hstrict hma hnb).mp hequal⟩
    rw [findKey_omitSkipped hne]
    exact findKey_of_mem (nodup_keys b) hnb

end

theorem isItemsEqual_iff (a b : Item F) :
    isItemsEqual p options a b = true ↔ FieldsAgree p options a b := by
  rw [isItemsEqual]
  cases hfuzzy : options.fuzzyCompare with
  | false =>
    have hobjects : equalFields p options (.value (.object (omitSkipped a.json)))
          (.value (.object (omitSkipped b.json)))
        = isEqual (.object (omitSkipped a.json)) (.object (omitSkipped b.json)) := by
      rw [equalFields, hfuzzy]
      rfl
    rw [if_neg (by simp), hobjects, isEqual_object]
    exact ⟨fun h => fieldsAgree_of_isEqual p options hfuzzy h.1 h.2,
      fun h => isEqual_of_fieldsAgree p options hfuzzy h⟩
  | true =>
    rw [if_pos rfl, FieldsAgree, if_pos hfuzzy, List.all_eq_true]
    constructor
    · intro h key hkey hne
      obtain ⟨m, hm, rfl⟩ := List.mem_map.mp ((mem_keys_omitSkipped a).mpr ⟨hkey, hne⟩)
      have hequal := h m hm
      rwa [member_omitSkipped hne, member_omitSkipped hne] at hequal
    · intro h m hm
      obtain ⟨hma, hne⟩ := List.mem_filter.mp hm
      have hne : m.1 ≠ [] := of_decide_eq_true hne
      rw [member_omitSkipped hne, member_omitSkipped hne]
      exact h m.1 (List.mem_map_of_mem hma) hne

/-! ## The lists of the result -/

section

variable (input1 input2 : List (Item F)) (pair : PairToMatch)

theorem index_of_mem_zipIdx {α : Type} {l : List α} {e : (α × Nat) × Nat}
    (h : e ∈ l.zipIdx.zipIdx) : e.2 = e.1.2 := by
  obtain ⟨⟨a, i⟩, k⟩ := e
  rw [List.mem_zipIdx_iff_getElem?, List.getElem?_zipIdx] at h
  cases ha : l[k]? with
  | none => simp [ha] at h
  | some x =>
    simp [ha] at h
    exact h.2

def matchedPairs : List (Entry F × Entry F) :=
  (matchesLoop (matching p reader options) (fun entry entries => entries.map fun m => (entry, m))
    input1.zipIdx input2.zipIdx [pair]).matched

theorem mem_matchedPairs (a b : Entry F) : (a, b) ∈ matchedPairs p reader options input1 input2 pair
      ↔ a ∈ input1.zipIdx ∧ Chosen p reader options input2 pair a b := by
  rw [matchedPairs, matchesLoop_eq, after, List.nil_append, List.mem_flatMap, Chosen]
  constructor
  · rintro ⟨e, he, hmem⟩
    obtain ⟨m, hm, heq⟩ := List.mem_map.mp hmem
    cases heq
    exact ⟨(List.mem_filter.mp he).1, hm⟩
  · rintro ⟨ha, hb⟩
    refine ⟨a, List.mem_filter.mpr ⟨ha, ?_⟩, List.mem_map.mpr ⟨b, hb, rfl⟩⟩
    cases hfound : found (matching p reader options) input2.zipIdx [pair] a with
    | nil => simp [hfound] at hb
    | cons _ _ => rfl

theorem mem_same (a b : Entry F) : (a, b) ∈ (result p reader options input1 input2 pair).same
      ↔ (a ∈ input1.zipIdx ∧ Chosen p reader options input2 pair a b)
        ∧ FieldsAgree p options a.1 b.1 := by
  rw [← mem_matchedPairs, ← isItemsEqual_iff]
  exact List.mem_filter

theorem mem_different (a b : Entry F) :
    (a, b) ∈ (result p reader options input1 input2 pair).different
      ↔ (a ∈ input1.zipIdx ∧ Chosen p reader options input2 pair a b)
        ∧ ¬ FieldsAgree p options a.1 b.1 := by
  rw [← mem_matchedPairs, ← isItemsEqual_iff]
  refine List.mem_filter.trans (and_congr_right fun _ => ?_)
  rw [Bool.not_eq_true', Bool.not_eq_true]

theorem chosen_mem {a b : Entry F}
    (h : Chosen p reader options input2 pair a b) : b ∈ input2.zipIdx := by
  obtain ⟨e, he, rfl⟩ := List.mem_map.mp h
  have hmem := List.mem_map_of_mem (f := Prod.fst) (mem_of_mem_choose he)
  rwa [List.zipIdx_map_fst] at hmem

theorem unmatched1_eq : (result p reader options input1 input2 pair).unmatched1
      = input1.zipIdx.filter fun a =>
          (found (matching p reader options) input2.zipIdx [pair] a).isEmpty := by
  rw [result, findMatches]
  simp [matchesLoop_eq, after]

theorem isEmpty_found_iff (a : Entry F) :
    (found (matching p reader options) input2.zipIdx [pair] a).isEmpty = true
      ↔ ∀ b ∈ input2.zipIdx, ¬ Chosen p reader options input2 pair a b := by
  rw [List.isEmpty_iff]
  constructor
  · intro hfound b _ hb
    rw [Chosen, hfound] at hb
    exact List.not_mem_nil hb
  · intro h
    rw [List.eq_nil_iff_forall_not_mem]
    intro e he
    have hchosen : Chosen p reader options input2 pair a e.1 := List.mem_map_of_mem he
    exact h e.1 (chosen_mem p reader options input2 pair hchosen) hchosen

theorem mem_indexes_iff {e : Entry F × Nat} (he : e ∈ input2.zipIdx.zipIdx) :
    (e.2 ∈ input1.zipIdx.flatMap fun a =>
        (found (matching p reader options) input2.zipIdx [pair] a).map Prod.snd)
      ↔ ∃ a ∈ input1.zipIdx, Chosen p reader options input2 pair a e.1 := by
  rw [List.mem_flatMap]
  refine exists_congr fun a => and_congr_right fun _ => ?_
  rw [Chosen, List.mem_map, List.mem_map]
  constructor
  · rintro ⟨d, hd, heq⟩
    refine ⟨d, hd, ?_⟩
    have hd' := List.mem_zipIdx_iff_getElem?.mp (mem_of_mem_choose hd)
    have he' := List.mem_zipIdx_iff_getElem?.mp he
    rw [heq, he'] at hd'
    exact (Option.some.inj hd').symm
  · rintro ⟨d, hd, heq⟩
    refine ⟨d, hd, ?_⟩
    rw [index_of_mem_zipIdx (mem_of_mem_choose hd), index_of_mem_zipIdx he, heq]

theorem unmatched2_eq {q : Entry F → Bool} (hq : ∀ b ∈ input2.zipIdx, (q b = true
      ↔ ∀ a ∈ input1.zipIdx, ¬ Chosen p reader options input2 pair a b)) :
    (result p reader options input1 input2 pair).unmatched2 = input2.zipIdx.filter q := by
  have hplaces : input2.zipIdx.filter q
      = (input2.zipIdx.zipIdx.filter (q ∘ Prod.fst)).map Prod.fst := by
    rw [← List.filter_map, List.zipIdx_map_fst]
  rw [hplaces, result, findMatches]
  simp only [matchesLoop_eq, after, List.nil_append]
  congr 1
  refine List.filter_congr fun e he => ?_
  have hmem : e.1 ∈ input2.zipIdx := by
    have := List.mem_map_of_mem (f := Prod.fst) he
    rwa [List.zipIdx_map_fst] at this
  rw [Bool.eq_iff_iff, Bool.not_eq_true', decide_eq_false_iff_not,
    mem_indexes_iff p reader options input1 input2 pair he, Function.comp_apply, hq e.1 hmem]
  simp

end

/-! ## The two directions -/

section

variable {input1 input2 : List (Item F)} {pair : PairToMatch}

theorem mem_same_or_different (a b : Entry F) :
    ((a, b) ∈ (result p reader options input1 input2 pair).same
        ∨ (a, b) ∈ (result p reader options input1 input2 pair).different)
      ↔ a ∈ input1.zipIdx ∧ Chosen p reader options input2 pair a b := by
  rw [mem_same, mem_different, ← and_or_left, and_iff_left_iff_imp]
  exact fun _ => em _

theorem balanced_of_sideIndependent (h : SideIndependent p reader options input1 input2 pair) :
    Balanced p reader options input1 input2 pair := by
  have hpairs : ∀ a b : Entry F, (a ∈ input1.zipIdx ∧ Chosen p reader options input2 pair a b)
        ↔ b ∈ input2.zipIdx ∧ Chosen p reader options input1 (swapped pair) b a := by
    intro a b
    rw [← mem_same_or_different, ← mem_same_or_different, h.same a b, h.different a b]
  refine ⟨?_, ?_⟩
  · intro a ha b hb
    constructor
    · exact fun hchosen => ((hpairs a b).mp ⟨ha, hchosen⟩).2
    · exact fun hchosen => ((hpairs a b).mpr ⟨hb, hchosen⟩).2
  · intro a ha b hb hchosen
    have hback := (hpairs a b).mp ⟨ha, hchosen⟩
    have hforth := h.same_iff a b ((mem_same_or_different p reader options a b).mpr ⟨ha, hchosen⟩)
    have hsame := h.same a b
    rw [mem_same, and_iff_right ⟨ha, hchosen⟩] at hforth hsame
    rw [mem_same, and_iff_right hback] at hsame
    exact ⟨hforth, by rw [← hsame, hforth, allEqual_comm]⟩

theorem sideIndependent_of_balanced (h : Balanced p reader options input1 input2 pair) :
    SideIndependent p reader options input1 input2 pair := by
  have hpairs : ∀ a b : Entry F, (a ∈ input1.zipIdx ∧ Chosen p reader options input2 pair a b)
        ↔ b ∈ input2.zipIdx ∧ Chosen p reader options input1 (swapped pair) b a := by
    intro a b
    constructor
    · rintro ⟨ha, hchosen⟩
      have hb := chosen_mem p reader options input2 pair hchosen
      exact ⟨hb, (h.chosenBack a ha b hb).mp hchosen⟩
    · rintro ⟨hb, hchosen⟩
      have ha := chosen_mem p reader options input1 (swapped pair) hchosen
      exact ⟨ha, (h.chosenBack a ha b hb).mpr hchosen⟩
  have hverdict : ∀ a b : Entry F, a ∈ input1.zipIdx → Chosen p reader options input2 pair a b →
      (FieldsAgree p options a.1 b.1 ↔ FieldsAgree p options b.1 a.1) := by
    intro a b ha hchosen
    have hb := chosen_mem p reader options input2 pair hchosen
    obtain ⟨hforth, hback⟩ := h.fields a ha b hb hchosen
    rw [hforth, hback, allEqual_comm]
  refine ⟨?_, ?_, ?_, ?_, ?_⟩
  · intro a b hmem
    obtain ⟨ha, hchosen⟩ := (mem_same_or_different p reader options a b).mp hmem
    have hb := chosen_mem p reader options input2 pair hchosen
    rw [mem_same, and_iff_right ⟨ha, hchosen⟩]
    exact (h.fields a ha b hb hchosen).1
  · rw [unmatched1_eq]
    refine unmatched2_eq p reader options input2 input1 (swapped pair) ?_
    intro a ha
    rw [isEmpty_found_iff]
    exact forall₂_congr fun b hb => not_congr (h.chosenBack a ha b hb)
  · rw [unmatched1_eq]
    refine (unmatched2_eq p reader options input1 input2 pair ?_).symm
    intro b hb
    rw [isEmpty_found_iff]
    exact forall₂_congr fun a ha => not_congr (h.chosenBack a ha b hb).symm
  · intro a b
    rw [mem_same, mem_same, ← hpairs a b]
    exact and_congr_right fun hmem => hverdict a b hmem.1 hmem.2
  · intro a b
    rw [mem_different, mem_different, ← hpairs a b]
    exact and_congr_right fun hmem => not_congr (hverdict a b hmem.1 hmem.2)

end

/-! ## Unique keys -/

section

variable {input1 input2 : List (Item F)} {pair : PairToMatch}

end

end

/-! ## A field that only B has -/

def itemOf (members : List (String × Int))
    (h : (members.map fun m => ofString m.1).Nodup) : Item Int where
  json := members.map fun m => (ofString m.1, .number (.real m.2))
  distinct := by
    refine .object ?_ ?_
    · rw [List.map_map]
      exact h
    · intro m hm
      obtain ⟨n, -, rfl⟩ := List.mem_map.mp hm
      exact .number _

def memberReader : Reader Int where
  get := member
  distinct members path h := distinct_member ⟨members, h⟩ path

def fuzzyOptions : CompareOptions Int where
  fuzzyCompare := true
  nodeVersion := 2
  disableDotNotation := true
  multipleMatches := none

end N8nCompareDatasets
