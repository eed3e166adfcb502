import N8n.LookupMatchProofs

/-! # Merge by matching fields — a join on the last pair of each name

    `findMatches` of the Merge node pairs each item of the first input with
    its partners on the pairs of fields that the lookup object keeps.  It is
    the join on all pairs exactly where the items that are found agree on
    the others as well (`isJoin_iff`).  The lists of the result account for
    every item in any case. -/

namespace N8nMatchFields

open N8nJsonText N8nJsValues N8nFuzzyCompare N8nLookupMatch

/-! ## The function -/

inductive MatchFieldsOutput where
  | both
  | input1
  | input2
deriving DecidableEq

inductive MatchFieldsJoinMode where
  | keepEverything
  | keepMatches
  | keepNonMatches
  | enrichInput2
  | enrichInput1
deriving DecidableEq

structure MatchFieldsOptions where
  fuzzyCompare : Bool
  disableDotNotation : Bool
  multipleMatches : Option MultipleMatches
  outputDataFrom : MatchFieldsOutput
  joinMode : MatchFieldsJoinMode

structure EntryMatches (I : Type) where
  entry : I
  entries : List I

structure FilteredData (I : Type) where
  matched : List (EntryMatches I)
  matched2 : List I
  unmatched1 : List I
  unmatched2 : List I

section

variable {I F : Type} [LinearOrder F] (p : Platform F) (json : I → List (JsString × Value F))
  (get : List (JsString × Value F) → JsString → FieldValue F) (options : MatchFieldsOptions)

/-- `entry.json[field]` or `get(entry.json, field)`, compared by
    `fuzzyCompare` of version 1. -/
def matching : Matching I F where
  fieldValue entry field :=
    if options.disableDotNotation then member (json entry) field
    else get (json entry) field
  isEntriesEqual := isEntriesEqual p options.fuzzyCompare (p.numbers.ofNat 1)
  multipleMatches := options.multipleMatches.getD .all

/-- Each match on its own, or all matches of an entry together. -/
def matchedWith (entry : I) (entries : List I) : List (EntryMatches I) :=
  if options.outputDataFrom = .both ∨ options.joinMode = .enrichInput1
      ∨ options.joinMode = .enrichInput2 then
    entries.map fun e => { entry, entries := [e] }
  else [{ entry, entries }]

def findMatches (input1 input2 : List I) (fieldsToMatch : List PairToMatch) : FilteredData I :=
  let state := matchesLoop (matching p json get options)
    (matchedWith options) input1 input2 fieldsToMatch
  input2.zipIdx.foldl (fun filteredData entry =>
    if entry.2 ∈ state.matchedInInput2 then
      { filteredData with matched2 := filteredData.matched2 ++ [entry.1] }
    else
      { filteredData with unmatched2 := filteredData.unmatched2 ++ [entry.1] })
    { matched := state.matched, matched2 := []
      unmatched1 := state.unmatched1, unmatched2 := [] }

/-! ## The join -/

/-- The pairs of items that a result holds. -/
def pairsOf (matched : List (EntryMatches I)) : List (I × I) :=
  matched.flatMap fun m => m.entries.map fun entry2 => (m.entry, entry2)

/-- The result pairs each item of input 1 with its partners on all pairs of
    fields, and its lists account for every item of both inputs. -/
structure IsJoin (input1 input2 : List I)
    (fieldsToMatch : List PairToMatch) (result : FilteredData I) :
    Prop where
  pairs : pairsOf result.matched
    = input1.flatMap fun entry1 =>
        (partners (matching p json get options) fieldsToMatch input2
          entry1).map fun entry2 => (entry1, entry2.1)
  first : ∃ joined : List (EntryMatches I), (∀ m ∈ joined, m.entries ≠ [])
      ∧ result.matched = joined.flatMap (fun m => matchedWith options m.entry m.entries)
      ∧ Splits input1 (joined.map EntryMatches.entry) result.unmatched1
  second : Splits input2 result.matched2 result.unmatched2

theorem foldl_second (indexes : List Nat) (filteredData : FilteredData I)
    (entries : List (I × Nat)) :
    entries.foldl (fun filteredData entry =>
        if entry.2 ∈ indexes then
          { filteredData with
            matched2 := filteredData.matched2 ++ [entry.1] }
        else
          { filteredData with
            unmatched2 := filteredData.unmatched2 ++ [entry.1] })
        filteredData
      = { filteredData with
          matched2 := filteredData.matched2 ++ (entries.filter fun e => e.2 ∈ indexes).map Prod.fst
          unmatched2 := filteredData.unmatched2
            ++ (entries.filter fun e => !decide (e.2 ∈ indexes)).map
              Prod.fst } := by
  induction entries generalizing filteredData with
  | nil => simp
  | cons e rest ih =>
    rw [List.foldl_cons, ih]
    by_cases hmem : e.2 ∈ indexes <;> simp [hmem]

theorem pairsOf_append (l k : List (EntryMatches I)) : pairsOf (l ++ k) = pairsOf l ++ pairsOf k :=
  List.flatMap_append

theorem pairsOf_matchedWith (entry : I) (entries : List I) :
    pairsOf (matchedWith options entry entries) = entries.map fun e => (entry, e) := by
  rw [matchedWith]
  split
  · rw [pairsOf, List.flatMap_map, List.map_eq_flatMap]
    rfl
  · simp [pairsOf]

section

variable (input1 input2 : List I) (fieldsToMatch : List PairToMatch)

theorem findMatches_matched : (findMatches p json get options input1 input2 fieldsToMatch).matched
      = (input1.filter fun e => !(found (matching p json get options) input2
              fieldsToMatch e).isEmpty).flatMap fun e => matchedWith options e
            ((found (matching p json get options) input2 fieldsToMatch e).map Prod.fst) := by
  simp [findMatches, matchesLoop_eq, foldl_second, after]

theorem findMatches_unmatched1 :
    (findMatches p json get options input1 input2 fieldsToMatch).unmatched1
      = input1.filter fun e => (found (matching p json get options) input2
          fieldsToMatch e).isEmpty := by
  simp [findMatches, matchesLoop_eq, foldl_second, after]

theorem findMatches_second :
    Splits input2 (findMatches p json get options input1 input2 fieldsToMatch).matched2
      (findMatches p json get options input1 input2 fieldsToMatch).unmatched2 := by
  simp only [findMatches, matchesLoop_eq, foldl_second, after, List.nil_append]
  have hsplit := (splits_filter (fun e : I × Nat =>
    decide (e.2 ∈ input1.flatMap fun e =>
      (found (matching p json get options) input2 fieldsToMatch e).map
        Prod.snd)) input2.zipIdx).map Prod.fst
  rw [List.zipIdx_map_fst] at hsplit
  exact hsplit

theorem findMatches_first :
    ∃ joined : List (EntryMatches I), (∀ m ∈ joined, m.entries ≠ [])
        ∧ (findMatches p json get options input1 input2 fieldsToMatch).matched
            = joined.flatMap (fun m => matchedWith options m.entry m.entries)
        ∧ Splits input1 (joined.map EntryMatches.entry)
            (findMatches p json get options input1 input2 fieldsToMatch).unmatched1 := by
  refine ⟨(input1.filter fun e => !(found (matching p json get options)
      input2 fieldsToMatch e).isEmpty).map fun e =>
        { entry := e
          entries := (found (matching p json get options) input2
            fieldsToMatch e).map Prod.fst }, ?_, ?_, ?_⟩
  · intro m hm
    obtain ⟨e, he, rfl⟩ := List.mem_map.mp hm
    simpa using (List.mem_filter.mp he).2
  · rw [findMatches_matched, List.flatMap_map]
  · rw [findMatches_unmatched1, List.map_map]
    have hsplit := splits_filter (fun e => !(found
      (matching p json get options) input2 fieldsToMatch e).isEmpty) input1
    simpa [Function.comp_def] using hsplit

theorem findMatches_pairs :
    pairsOf (findMatches p json get options input1 input2 fieldsToMatch).matched
      = input1.flatMap fun entry1 =>
          (found (matching p json get options) input2 fieldsToMatch
            entry1).map fun entry2 => (entry1, entry2.1) := by
  rw [findMatches_matched]
  induction input1 with
  | nil => rfl
  | cons entry1 rest ih =>
    rw [List.flatMap_cons, ← ih]
    cases hfound : found (matching p json get options) input2 fieldsToMatch entry1 with
    | nil => simp [hfound]
    | cons e es =>
      rw [List.filter_cons_of_pos (by simp [hfound]), List.flatMap_cons,
        pairsOf_append, pairsOf_matchedWith, hfound, List.map_map]
      rfl

/-- The items that are found agree on the pairs that are not kept. -/
def AgreeOnAll : Prop :=
  ∀ entry1 ∈ input1, ∀ entry2 ∈ partners (matching p json get options)
  (kept fieldsToMatch) input2 entry1,
      Agrees (matching p json get options) fieldsToMatch entry1 entry2.1 = true

theorem agreeOnAll_of_isJoin (h : IsJoin p json get options input1 input2 fieldsToMatch
      (findMatches p json get options input1 input2 fieldsToMatch)) :
    AgreeOnAll p json get options input1 input2 fieldsToMatch := by
  have hpairs := h.pairs
  rw [findMatches_pairs] at hpairs
  have hsame := eq_of_flatMap_eq (fun entry1 _ => by
    rw [List.length_map, List.length_map]
    exact length_choose_le fun entry2 => agrees_kept_of_agrees _) hpairs
  intro entry1 hentry1 entry2 hentry2
  have hmem : (entry1, entry2.1) ∈
      (found (matching p json get options) input2 fieldsToMatch entry1).map
        fun entry2 => (entry1, entry2.1) :=
    List.mem_map.mpr ⟨entry2, hentry2, rfl⟩
  rw [hsame entry1 hentry1] at hmem
  obtain ⟨partner, hpartner, heq⟩ := List.mem_map.mp hmem
  rw [← (Prod.mk.inj heq).2]
  exact prop_of_mem_choose hpartner

/-- **MERGE BY MATCHING FIELDS** is a join exactly where the items that
    agree on the last pair of each second name agree on every pair. -/
theorem isJoin_iff :
    IsJoin p json get options input1 input2 fieldsToMatch
        (findMatches p json get options input1 input2 fieldsToMatch)
      ↔ AgreeOnAll p json get options input1 input2 fieldsToMatch := by
  refine ⟨agreeOnAll_of_isJoin p json get options input1 input2
    fieldsToMatch, fun h => ⟨?_, ?_, ?_⟩⟩
  · rw [findMatches_pairs]
    refine List.flatMap_congr fun entry1 hentry1 => ?_
    have hchosen : partners (matching p json get options) fieldsToMatch input2 entry1
        = found (matching p json get options) input2 fieldsToMatch entry1 :=
      choose_congr (fun entry2 => agrees_kept_of_agrees _) (h entry1 hentry1)
    rw [hchosen]
  · exact findMatches_first p json get options input1 input2 fieldsToMatch
  · exact findMatches_second p json get options input1 input2 fieldsToMatch

end

end

/-! ## A second name that repeats -/

def strictMatches : MatchFieldsOptions where
  fuzzyCompare := false
  disableDotNotation := true
  multipleMatches := none
  outputDataFrom := .both
  joinMode := .keepMatches

def itemOf (members : List (String × Int)) : List (JsString × Value Int) :=
  members.map fun m => (ofString m.1, .number (.real m.2))

def pairOf (field1 field2 : String) : PairToMatch where
  field1 := ofString field1
  field2 := ofString field2

/-- The pair of `a` and `k` is lost: `a` is 1, `b` and `k` are 2. -/
theorem not_isJoin_repeated :
    ¬ IsJoin integerPlatform id member strictMatches [itemOf [("a", 1), ("b", 2)]]
    [itemOf [("k", 2)]] [pairOf "a" "k", pairOf "b" "k"]
      (findMatches integerPlatform id member strictMatches
        [itemOf [("a", 1), ("b", 2)]] [itemOf [("k", 2)]] [pairOf "a" "k", pairOf "b" "k"]) := by
  intro h
  have hagree := agreeOnAll_of_isJoin _ _ _ _ _ _ _ h
  have hmem : (itemOf [("k", 2)], 0) ∈ partners (matching integerPlatform id member strictMatches)
      (kept [pairOf "a" "k", pairOf "b" "k"]) [itemOf [("k", 2)]] (itemOf [("a", 1), ("b", 2)]) :=
    List.mem_filter.mpr ⟨List.mem_singleton_self _, by decide⟩
  exact absurd (hagree _ (List.mem_singleton_self _) _ hmem) (by decide)

end N8nMatchFields
