import N8n.FuzzyCompareProofs

/-! # Matching entries through a lookup object

    The nodes that match the items of two inputs turn the pairs of fields
    into an object, keyed by the second field name, and look through the
    other input for entries with these values.  Of the pairs with one second
    name the object keeps the last, and it has no key `__proto__`: the
    others are never compared (`kept`).

    The loop over the first input finds the partners of each entry on the
    pairs that are kept (`found_eq`, `foldl_matchEntry`). -/

namespace N8nLookupMatch

open N8nJsonText N8nJsValues N8nOrderedMap N8nFuzzyCompare List

/-! ## Choosing among entries -/

section

variable {α β : Type}

/-- The parts of a list, each in the order of the list. -/
inductive Splits : List α → List α → List α → Prop where
  | nil : Splits [] [] []
  | left (a : α) {l xs ys : List α} (h : Splits l xs ys) : Splits (a :: l) (a :: xs) ys
  | right (a : α) {l xs ys : List α} (h : Splits l xs ys) : Splits (a :: l) xs (a :: ys)

theorem splits_filter (q : α → Bool) (l : List α) :
    Splits l (l.filter q) (l.filter fun a => !q a) := by
  induction l with
  | nil => exact .nil
  | cons a l ih =>
    cases hq : q a with
    | false =>
      rw [filter_cons_of_neg (by simp [hq]), filter_cons_of_pos (by simp [hq])]
      exact ih.right a
    | true =>
      rw [filter_cons_of_pos hq, filter_cons_of_neg (by simp [hq])]
      exact ih.left a

theorem Splits.map (f : α → β) {l xs ys : List α} (h : Splits l xs ys) :
    Splits (l.map f) (xs.map f) (ys.map f) := by
  induction h with
  | nil => exact .nil
  | left a _ ih => exact ih.left (f a)
  | right a _ ih => exact ih.right (f a)

inductive MultipleMatches where
  | all
  | first
deriving DecidableEq

/-- The entries, with their indexes, that the mode chooses among those with
    the property. -/
def choose (mode : MultipleMatches) (q : α → Bool) (l : List α) : List (α × Nat) :=
  match mode with
  | .all => l.zipIdx.filter fun e => q e.1
  | .first => (l.zipIdx.find? fun e => q e.1).toList

variable {mode : MultipleMatches} {q q' : α → Bool} {l : List α}

theorem prop_of_mem_choose {e : α × Nat} (h : e ∈ choose mode q l) : q e.1 = true := by
  cases mode with
  | all => exact (mem_filter.mp h).2
  | first =>
    have hfind : l.zipIdx.find? (fun e => q e.1) = some e := Option.mem_toList.mp h
    exact find?_some (p := fun e : α × Nat => q e.1) hfind

theorem mem_of_mem_choose {e : α × Nat} (h : e ∈ choose mode q l) : e ∈ l.zipIdx := by
  cases mode with
  | all => exact (mem_filter.mp h).1
  | first => exact mem_of_find?_eq_some (Option.mem_toList.mp h)

theorem choose_false : choose mode (fun _ : α => false) l = [] := by
  cases mode with
  | all => exact filter_false ..
  | first => simp [choose]

theorem length_choose_le (himp : ∀ a, q' a = true → q a = true) :
    (choose mode q' l).length ≤ (choose mode q l).length := by
  cases mode with
  | all =>
    refine (List.Sublist.length_le ?_)
    exact monotone_filter_right _ fun e => himp e.1
  | first =>
    cases h : l.zipIdx.find? fun e => q' e.1 with
    | none => simp [choose, h]
    | some e =>
      have hq' : q' e.1 = true := find?_some (p := fun e : α × Nat => q' e.1) h
      have hsome : (l.zipIdx.find? fun e => q e.1).isSome := by
        rw [find?_isSome]
        exact ⟨e, mem_of_find?_eq_some h, himp e.1 hq'⟩
      obtain ⟨d, hd⟩ := Option.isSome_iff_exists.mp hsome
      simp [choose, h, hd]

theorem choose_congr (himp : ∀ a, q' a = true → q a = true)
    (h : ∀ e ∈ choose mode q l, q' e.1 = true) :
    choose mode q' l = choose mode q l := by
  cases mode with
  | all =>
    refine filter_congr fun e he => ?_
    rw [Bool.eq_iff_iff]
    exact ⟨himp e.1, fun hq => h e (mem_filter.mpr ⟨he, hq⟩)⟩
  | first =>
    have hsame : (l.zipIdx.find? fun e => q' e.1)
        = l.zipIdx.find? fun e => q e.1 := by
      cases hfind : l.zipIdx.find? fun e => q e.1 with
      | none =>
        rw [find?_eq_none] at hfind ⊢
        exact fun e he hq => hfind e he (himp e.1 hq)
      | some e =>
        have hq' := h e (by simp [choose, hfind])
        rw [find?_eq_some_iff_append] at hfind ⊢
        obtain ⟨-, front, back, heq, hfront⟩ := hfind
        refine ⟨hq', front, back, heq, fun a ha => ?_⟩
        have hnot := hfront a ha
        rw [Bool.not_eq_true'] at hnot ⊢
        rw [Bool.eq_false_iff] at hnot ⊢
        exact fun hq => hnot (himp a.1 hq)
    simp [choose, hsame]

theorem eq_of_flatMap_eq {f g : α → List β} {l : List α}
    (hle : ∀ a ∈ l, (g a).length ≤ (f a).length)
    (h : l.flatMap f = l.flatMap g) : ∀ a ∈ l, f a = g a := by
  have hflat : ∀ l : List α, (∀ a ∈ l, (g a).length ≤ (f a).length) →
      (l.flatMap g).length ≤ (l.flatMap f).length := by
    intro l hl
    induction l with
    | nil => exact Nat.le_refl _
    | cons a l ih =>
      rw [forall_mem_cons] at hl
      rw [flatMap_cons, flatMap_cons, length_append, length_append]
      exact Nat.add_le_add hl.1 (ih hl.2)
  induction l with
  | nil => exact fun a ha => absurd ha (not_mem_nil)
  | cons a l ih =>
    rw [forall_mem_cons] at hle
    rw [flatMap_cons, flatMap_cons] at h
    have htotal := congrArg List.length h
    rw [length_append, length_append] at htotal
    have hrest := hflat l hle.2
    obtain ⟨hhead, htail⟩ := append_inj h (by have := hle.1; omega)
    rw [forall_mem_cons]
    exact ⟨hhead, ih hle.2 htail⟩

end

/-! ## The lookup object -/

structure PairToMatch where
  field1 : JsString
  field2 : JsString

/-- How fields are read and compared, and which matches count. -/
structure Matching (I F : Type) where
  fieldValue : I → JsString → FieldValue F
  isEntriesEqual : FieldValue F → FieldValue F → Bool
  multipleMatches : MultipleMatches

abbrev Lookup (F : Type) := OrderedMap JsString (FieldValue F)

/-- `lookup[key] = value`.  An assignment to `__proto__` makes no key. -/
def assign {F : Type} (lookup : Lookup F) (key : JsString) (value : FieldValue F) : Lookup F :=
  if key = ofString "__proto__" then lookup else lookup.set key value

/-- What the loop has collected: the matches, the entries without one, and
    the indexes `matchedInInput2`. -/
structure LoopState (I M : Type) where
  matched : List M
  unmatched1 : List I
  matchedInInput2 : List Nat

section

variable {I F M : Type} (m : Matching I F)

def lookupOf (fieldsToMatch : List PairToMatch) (entry1 : I) : Lookup F :=
  fieldsToMatch.foldl (fun lookup matchCase =>
    assign lookup matchCase.field2 (m.fieldValue entry1 matchCase.field1))
    .empty

/-- The order in which the keys are compared makes no difference. -/
def isMatch (lookup : Lookup F) (entry2 : I) : Bool :=
  lookup.entries.all fun entry =>
    m.isEntriesEqual entry.2 (m.fieldValue entry2 entry.1)

def findAllMatches (data : List I) (lookup : Lookup F) : List (I × Nat) :=
  data.zipIdx.filter fun entry2 => isMatch m lookup entry2.1

def findFirstMatch (data : List I) (lookup : Lookup F) : List (I × Nat) :=
  match data.zipIdx.find? fun entry2 => isMatch m lookup entry2.1 with
  | none => []
  | some found => [found]

/-- The body of `matchesLoop`; a node has its own form for the matches. -/
def matchEntry (form : I → List I → List M) (data2 : List I) (fieldsToMatch : List PairToMatch)
    (state : LoopState I M) (entry1 : I) : LoopState I M :=
  let lookup := lookupOf m fieldsToMatch entry1
  if lookup.entries.any fun entry => isUndefinedField entry.2 then
    { state with unmatched1 := state.unmatched1 ++ [entry1] }
  else
    let foundedMatches :=
      if m.multipleMatches = .all then findAllMatches m data2 lookup
      else findFirstMatch m data2 lookup
    let entries := foundedMatches.map Prod.fst
    let state := { state with
      matchedInInput2 :=
        state.matchedInInput2 ++ foundedMatches.map Prod.snd }
    if entries.length ≠ 0 then
      { state with matched := state.matched ++ form entry1 entries }
    else { state with unmatched1 := state.unmatched1 ++ [entry1] }

def matchesLoop (form : I → List I → List M) (data1 data2 : List I)
    (fieldsToMatch : List PairToMatch) : LoopState I M :=
  data1.foldl (matchEntry m form data2 fieldsToMatch)
    { matched := [], unmatched1 := [], matchedInInput2 := [] }

/-! ## The partners of an entry -/

/-- The value of each first field is defined and equals the value of the
    second. -/
def Agrees (fieldsToMatch : List PairToMatch) (entry1 entry2 : I) : Bool :=
  fieldsToMatch.all fun pair =>
    !isUndefinedField (m.fieldValue entry1 pair.field1)
      && m.isEntriesEqual (m.fieldValue entry1 pair.field1) (m.fieldValue entry2 pair.field2)

/-- The entries of input 2 that an entry is paired with. -/
def partners (fieldsToMatch : List PairToMatch) (input2 : List I) (entry1 : I) : List (I × Nat) :=
  choose m.multipleMatches (Agrees m fieldsToMatch entry1) input2

/-- The last pair of each second name; none of the name `__proto__`. -/
def kept : List PairToMatch → List PairToMatch
  | [] => []
  | pair :: rest =>
    if pair.field2 = ofString "__proto__" ∨ pair.field2 ∈ rest.map PairToMatch.field2 then kept rest
    else pair :: kept rest

theorem mem_assign (lookup : Lookup F) (key a : JsString) (value x : FieldValue F) :
    (a, x) ∈ (assign lookup key value).entries
      ↔ if key = ofString "__proto__" ∨ key ≠ a then
          (a, x) ∈ lookup.entries
        else value = x := by
  rw [assign]
  by_cases hproto : key = ofString "__proto__"
  · rw [if_pos hproto, if_pos (Or.inl hproto)]
  · rw [if_neg hproto, ← OrderedMap.get?_eq_some, OrderedMap.get?_set]
    by_cases hkey : key = a
    · rw [if_pos hkey, if_neg (not_or.mpr ⟨hproto, not_not.mpr hkey⟩), Option.some.injEq]
    · rw [if_neg hkey, if_pos (Or.inr hkey), OrderedMap.get?_eq_some]

theorem mem_foldl_assign (entry1 : I) (fieldsToMatch : List PairToMatch)
    (start : Lookup F) (key : JsString) (value : FieldValue F) :
    (key, value) ∈ (fieldsToMatch.foldl (fun lookup matchCase =>
        assign lookup matchCase.field2 (m.fieldValue entry1 matchCase.field1)) start).entries
      ↔ (∃ pair ∈ kept fieldsToMatch, pair.field2 = key
            ∧ m.fieldValue entry1 pair.field1 = value)
          ∨ (key, value) ∈ start.entries
            ∧ (key = ofString "__proto__" ∨ key ∉ fieldsToMatch.map PairToMatch.field2) := by
  induction fieldsToMatch generalizing start with
  | nil => simp [kept]
  | cons pair rest ih =>
    rw [foldl_cons, ih, mem_assign, map_cons, mem_cons]
    by_cases hproto : pair.field2 = ofString "__proto__"
    · rw [kept, if_pos (Or.inl hproto), if_pos (Or.inl hproto), hproto]
      refine or_congr_right (and_congr_right fun _ => ?_)
      by_cases hkey : key = ofString "__proto__" <;> simp [hkey]
    · by_cases hkey : pair.field2 = key
      · subst hkey
        rw [if_neg (by simp [hproto]), kept]
        by_cases hlater : pair.field2 ∈ rest.map PairToMatch.field2
        · simp [hproto, hlater]
        · simp [hproto, hlater, or_comm]
      · rw [if_pos (Or.inr hkey)]
        have hmem : (∃ q ∈ kept (pair :: rest), q.field2 = key
              ∧ m.fieldValue entry1 q.field1 = value)
            ↔ ∃ q ∈ kept rest, q.field2 = key ∧ m.fieldValue entry1 q.field1 = value := by
          rw [kept]
          split
          · rfl
          · simp [hkey]
        rw [hmem]
        simp [Ne.symm hkey]

theorem mem_lookupOf (entry1 : I) (fieldsToMatch : List PairToMatch)
    (key : JsString) (value : FieldValue F) :
    (key, value) ∈ (lookupOf m fieldsToMatch entry1).entries
      ↔ ∃ pair ∈ kept fieldsToMatch, pair.field2 = key
          ∧ m.fieldValue entry1 pair.field1 = value := by
  rw [lookupOf, mem_foldl_assign]
  simp [OrderedMap.empty]

theorem agrees_kept (fieldsToMatch : List PairToMatch) (entry1 entry2 : I) :
    Agrees m (kept fieldsToMatch) entry1 entry2
      = (!(lookupOf m fieldsToMatch entry1).entries.any (fun entry => isUndefinedField entry.2)
          && isMatch m (lookupOf m fieldsToMatch entry1) entry2) := by
  have hmem := mem_lookupOf m entry1 fieldsToMatch
  rw [Bool.eq_iff_iff, Bool.and_eq_true, Bool.not_eq_true',
    any_eq_false, isMatch, all_eq_true, Agrees, all_eq_true]
  constructor
  · intro h
    constructor
    · rintro ⟨key, value⟩ hentry
      obtain ⟨pair, hpair, -, rfl⟩ := (hmem key value).mp hentry
      have hdefined := (Bool.and_eq_true _ _ ▸ h pair hpair).1
      simpa using hdefined
    · rintro ⟨key, value⟩ hentry
      obtain ⟨pair, hpair, rfl, rfl⟩ := (hmem key value).mp hentry
      exact (Bool.and_eq_true _ _ ▸ h pair hpair).2
  · rintro ⟨hdefined, hequal⟩ pair hpair
    have hentry := (hmem pair.field2 _).mpr ⟨pair, hpair, rfl, rfl⟩
    rw [Bool.and_eq_true]
    exact ⟨by simpa using hdefined _ hentry, hequal _ hentry⟩

theorem agrees_kept_of_agrees {fieldsToMatch : List PairToMatch}
    {entry1 entry2 : I} (h : Agrees m fieldsToMatch entry1 entry2 = true) :
    Agrees m (kept fieldsToMatch) entry1 entry2 = true := by
  induction fieldsToMatch with
  | nil => exact h
  | cons pair rest ih =>
    rw [Agrees, all_cons, Bool.and_eq_true] at h
    rw [kept]
    split
    · exact ih h.2
    · rw [Agrees, all_cons, Bool.and_eq_true]
      exact ⟨h.1, ih h.2⟩

/-! ## The loop -/

/-- The entries found for an entry of input 1, with their indexes. -/
def found (input2 : List I) (fieldsToMatch : List PairToMatch) (entry1 : I) : List (I × Nat) :=
  partners m (kept fieldsToMatch) input2 entry1

theorem found_eq (input2 : List I) (fieldsToMatch : List PairToMatch) (entry1 : I) :
    found m input2 fieldsToMatch entry1
      = if (lookupOf m fieldsToMatch entry1).entries.any
            fun entry => isUndefinedField entry.2 then []
        else if m.multipleMatches = .all then
          findAllMatches m input2 (lookupOf m fieldsToMatch entry1)
        else findFirstMatch m input2 (lookupOf m fieldsToMatch entry1) := by
  have hjoined : Agrees m (kept fieldsToMatch) entry1
      = fun entry2 => _ := funext (agrees_kept m fieldsToMatch entry1)
  rw [found, partners, hjoined]
  split
  next hundefined =>
    simp only [hundefined, Bool.not_true, Bool.false_and]
    exact choose_false
  next hundefined =>
    simp only [hundefined, Bool.not_false, Bool.true_and]
    cases hmode : m.multipleMatches with
    | all => rfl
    | first =>
      rw [if_neg (by simp), choose, findFirstMatch]
      cases List.find? _ input2.zipIdx <;> rfl

/-- The state after some entries of input 1, where those are the entries
    found. -/
def after (form : I → List I → List M) (found : I → List (I × Nat))
    (state : LoopState I M) (entries : List I) : LoopState I M where
  matched := state.matched
    ++ (entries.filter fun e => !(found e).isEmpty).flatMap fun e => form e ((found e).map Prod.fst)
  unmatched1 := state.unmatched1 ++ entries.filter fun e => (found e).isEmpty
  matchedInInput2 := state.matchedInInput2 ++ entries.flatMap fun e => (found e).map Prod.snd

section

variable (form : I → List I → List M) (input2 : List I) (fieldsToMatch : List PairToMatch)
  (state : LoopState I M)

theorem matchEntry_eq (entry1 : I) :
    matchEntry m form input2 fieldsToMatch state entry1
      = after form (found m input2 fieldsToMatch) state [entry1] := by
  have heq := found_eq m input2 fieldsToMatch entry1
  simp only [matchEntry, after]
  by_cases hundefined : (lookupOf m fieldsToMatch entry1).entries.any
      fun entry => isUndefinedField entry.2
  · rw [if_pos hundefined] at heq ⊢
    simp [heq]
  · rw [if_neg hundefined] at heq ⊢
    rw [← heq]
    cases hfound : found m input2 fieldsToMatch entry1 with
    | nil => simp [hfound]
    | cons e rest => simp [hfound]

theorem foldl_matchEntry (input1 : List I) :
    input1.foldl (matchEntry m form input2 fieldsToMatch) state
      = after form (found m input2 fieldsToMatch) state input1 := by
  induction input1 generalizing state with
  | nil => simp [after]
  | cons entry1 rest ih =>
    rw [foldl_cons, ih, matchEntry_eq]
    cases hfound : (found m input2 fieldsToMatch entry1).isEmpty <;>
      simp [after, hfound]

end

/-- **THE LOOP** collects what is found for each entry. -/
theorem matchesLoop_eq (form : I → List I → List M) (input1 input2 : List I)
    (fieldsToMatch : List PairToMatch) :
    matchesLoop m form input1 input2 fieldsToMatch
      = after form (found m input2 fieldsToMatch)
          { matched := [], unmatched1 := [], matchedInInput2 := [] }
          input1 :=
  foldl_matchEntry ..

end

end N8nLookupMatch
