import Mathlib.Data.List.Nodup
import N8n.FuzzyCompareProofs
import N8n.StableSortProofs

/-! # Remove Duplicates within one input — sorted neighbours

    The items are copied with their index, the copies are sorted by the
    compared keys, and a copy that equals the first of its neighbours has its
    index removed.  The comparator falls back on `lt` of lodash where two
    values differ: two texts are compared as texts, all else as numbers.
    Objects are no numbers, `null` is zero, and so neither of two values may
    be the lesser.

    Where the comparator is consistent on the items, and no key reads the
    index, the first items are kept (`keepsFirsts`), by any stable sort. -/

namespace N8nRemoveDuplicateItems

open N8nJsonText N8nJsValues N8nOrderedMap N8nFuzzyCompare N8nStableSort List

/-! ## Fields of two items -/

section

variable {F : Type}

/-- The result of `typeof` on a field; `none` is `function`. -/
def fieldType : FieldValue F → Option TypeName
  | .value v => some (typeOf v)
  | .method _ => none

def isNullField : FieldValue F → Bool
  | .value .null => true
  | _ => false

/-- `isEqual`. -/
def equalFields [DecidableEq F] : FieldValue F → FieldValue F → Bool
  | .value v, .value w => isEqual v w
  | .method name, .method other => name = other
  | _, _ => false

/-- `lt` of lodash.  No result: a `TypeError`. -/
def lt [LinearOrder F] (num : Numbers F) :
    FieldValue F → FieldValue F → Option Bool
  | .value (.string s), .value (.string t) => some (s < t)
  | .value v, .value w =>
    match toNumber num v, toNumber num w with
    | some (.real x), some (.real y) => some (x < y)
    | some _, some _ => some false
    | _, _ => none
  -- the text of a function is no number
  | .value v, .method _ => (toNumber num v).map fun _ => false
  | .method _, .value w => (toNumber num w).map fun _ => false
  | .method _, .method _ => some false

end

/-! ## The function -/

abbrev Members (F : Type) := List (JsString × Value F)

structure Options (F : Type) where
  typeVersion : F
  disableDotNotation : Bool
  removeOtherFields : Bool

inductive NodeError where
  | blankKey
  /-- with a hint at dot notation -/
  | missing (key : JsString) (hint : Bool)
  | typeVaries (key : JsString) (index : Nat) (type type' : Option TypeName)
  | typeError
deriving DecidableEq

/-- A copy of an item, with its index under `__INDEX`. -/
structure NewItem (F : Type) where
  json : Members F
  index : Nat

section

variable {I F : Type} [LinearOrder F] (num : Numbers F) (sort : StableSort)
  (json : I → Members F) (get : Members F → JsString → FieldValue F)
  (pick : List JsString → I → I) (options : Options F)

def fieldValue (members : Members F) (key : JsString) : FieldValue F :=
  if options.disableDotNotation then member members key else get members key

/-- The comparator of the sort. -/
def compareBy (keys : List JsString) : Comparator (Members F) :=
  fun a b =>
    match keys with
    | [] => some .eq
    | key :: rest =>
      if equalFields (fieldValue get options a key) (fieldValue get options b key) then
        compareBy rest a b
      else
        (lt num (fieldValue get options a key) (fieldValue get options b key)).map
            fun lessThan => if lessThan then .lt else .gt

def compareItems (keys : List JsString) (a b : Members F) : Bool :=
  keys.all fun key =>
    equalFields (fieldValue get options a key) (fieldValue get options b key)

/-- From version 2 on `null` has no type. -/
def skips (value : FieldValue F) : Bool :=
  isNullField value && decide (num.ofNat 1 < options.typeVersion)

/-- The items for one key, from an index on, where a type was found. -/
def validateFrom (key : JsString) (i : Nat) (type : Option (Option TypeName)) :
    List (Members F) → Except NodeError Unit
  | [] => .ok ()
  | item :: rest =>
    if key = [] then .error .blankKey
    else
      let value := fieldValue get options item key
      if skips num options value then validateFrom key (i + 1) type rest
      else if isUndefinedField value then
        .error (.missing key (options.disableDotNotation && key.contains 46))
      else
        match type with
        | none => validateFrom key (i + 1) (some (fieldType value)) rest
        | some type =>
          if type ≠ fieldType value then
            .error (.typeVaries key i type (fieldType value))
          else validateFrom key (i + 1) (some (fieldType value)) rest

def validateInputData (items : List (Members F)) (keys : List JsString) : Except NodeError Unit :=
  keys.forM fun key => validateFrom num get options key 0 none items

def newItem (entry : I × Nat) : NewItem F where
  json := setEntry (ofString "__INDEX") (.number (.real (num.ofNat entry.2))) (json entry.1)
  index := entry.2

/-- The indexes of the copies that equal the first of their neighbours. -/
def removedIndexes (keys : List JsString) (temp : NewItem F) :
    List (NewItem F) → List Nat
  | [] => []
  | item :: rest =>
    if compareItems get options keys item.json temp.json then
      item.index :: removedIndexes keys temp rest
    else removedIndexes keys item rest

/-- `removeDuplicateInputItems`, for the keys that are compared. -/
def removeDuplicateInputItems (keys : List JsString) (items : List I) :
    Except NodeError (List I) := do
  let newItems := items.zipIdx.map (newItem num json)
  match sort.run (fun a b => compareBy num get options keys a.json b.json) newItems with
  | none => throw .typeError
  | some newItems =>
    validateInputData num get options (newItems.map NewItem.json) keys
    let removed :=
      match newItems with
      | [] => []
      | temp :: rest => removedIndexes get options keys temp rest
    let updatedItems := (items.zipIdx.filter fun entry => !removed.contains entry.2).map Prod.fst
    return if options.removeOtherFields then updatedItems.map (pick keys)
      else updatedItems

/-! ## The property and the condition -/

/-- The items that equal no earlier one on the keys. -/
def firsts (keys : List JsString) (items : List I) : List I :=
  (items.zipIdx.filter fun entry =>
    !(items.take entry.2).any fun earlier =>
      compareItems get options keys (json earlier) (json entry.1)).map Prod.fst

/-- What the keys read from the copies are the fields of the items. -/
def ReadsNoIndex (keys : List JsString) (items : List I) : Prop :=
  ∀ key ∈ keys, ∀ entry ∈ items.zipIdx, fieldValue get options (newItem num json entry).json key
      = fieldValue get options (json entry.1) key

/-- The comparator is consistent on the items. -/
def Comparable (keys : List JsString) (items : List I) : Prop :=
  Consistent (fun a b => compareBy num get options keys (json a) (json b)) items

/-! ## Neighbours of a sorted list -/

section

variable {get} {options} (keys : List JsString)

theorem tied_iff (a b : Members F) :
    compareBy num get options keys a b = some .eq ↔ compareItems get options keys a b = true := by
  induction keys with
  | nil => simp [compareBy, compareItems]
  | cons key rest ih =>
    rw [compareBy, compareItems, all_cons, Bool.and_eq_true]
    split
    next hequal => rw [and_iff_right hequal, ih, compareItems]
    next hequal =>
      refine iff_of_false ?_ fun h => hequal h.1
      cases lt num (fieldValue get options a key) (fieldValue get options b key) with
      | none => simp
      | some lessThan => cases lessThan <;> simp

/-- Tied items are neighbours: whoever is tied with an item before it has
    its index removed, and nobody else. -/
theorem mem_removedIndexes {temp : NewItem F} {rest : List (NewItem F)}
    (hcons : Consistent (fun a b : NewItem F =>
      compareBy num get options keys a.json b.json) (temp :: rest))
    (hsorted : (temp :: rest).Pairwise (NotAfter fun a b : NewItem F =>
      compareBy num get options keys a.json b.json)) (i : Nat) :
    i ∈ removedIndexes get options keys temp rest
      ↔ ∃ y x : NewItem F, [y, x].Sublist (temp :: rest)
          ∧ compareItems get options keys y.json x.json = true
          ∧ x.index = i := by
  induction rest generalizing temp with
  | nil =>
    refine iff_of_false not_mem_nil ?_
    rintro ⟨y, x, hsub, -⟩
    have hlength := hsub.length_le
    simp at hlength
  | cons item rest ih =>
    have htemp : temp ∈ temp :: item :: rest := mem_cons_self
    have hitem : item ∈ temp :: item :: rest := mem_cons_of_mem _ mem_cons_self
    have hrest : ∀ x ∈ rest, x ∈ temp :: item :: rest := fun x hx =>
      mem_cons_of_mem _ (mem_cons_of_mem _ hx)
    obtain ⟨hafter, hsorted'⟩ := pairwise_cons.mp hsorted
    obtain ⟨hafter', -⟩ := pairwise_cons.mp hsorted'
    rw [removedIndexes]
    by_cases hsame : compareItems get options keys item.json temp.json
    · have htied := (tied_iff num keys _ _).mpr hsame
      have htied' := hcons.tied_symm hitem htemp htied
      have hskip : (temp :: rest).Sublist (temp :: item :: rest) :=
        (sublist_cons_self item rest).cons_cons temp
      rw [if_pos hsame, mem_cons, ih (hcons.mono hskip.subset) (hsorted.sublist hskip)]
      constructor
      · rintro (rfl | ⟨y, x, hsub, hequal, hindex⟩)
        · exact ⟨temp, item, (nil_sublist _).cons_cons item
            |>.cons_cons temp, (tied_iff num keys _ _).mp htied', rfl⟩
        · exact ⟨y, x, hsub.trans hskip, hequal, hindex⟩
      · rintro ⟨y, x, hsub, hequal, hindex⟩
        have hxy := (tied_iff num keys _ _).mpr hequal
        rcases pair_sublist_cons hsub with ⟨rfl, hx⟩ | hsub
        · rcases mem_cons.mp hx with rfl | hx
          · exact .inl hindex.symm
          · exact .inr ⟨y, x, (singleton_sublist.mpr hx).cons_cons y, hequal, hindex⟩
        · rcases pair_sublist_cons hsub with ⟨rfl, hx⟩ | hsub
          · have htx := hcons.tied_trans htemp hitem (hrest x hx) htied' hxy
            exact .inr ⟨temp, x, (singleton_sublist.mpr hx).cons_cons temp,
              (tied_iff num keys _ _).mp htx, hindex⟩
          · exact .inr ⟨y, x, hsub.cons temp, hequal, hindex⟩
    · rw [if_neg hsame, ih (hcons.mono (subset_cons_self ..)) hsorted']
      constructor
      · rintro ⟨y, x, hsub, hequal, hindex⟩
        exact ⟨y, x, hsub.cons temp, hequal, hindex⟩
      · rintro ⟨y, x, hsub, hequal, hindex⟩
        rcases pair_sublist_cons hsub with ⟨rfl, hx⟩ | hsub
        · -- between two tied items there are only tied ones
          have hyx := (tied_iff num keys _ _).mpr hequal
          rcases mem_cons.mp hx with rfl | hx
          · have hxy := hcons.tied_symm htemp hitem hyx
            exact absurd ((tied_iff num keys _ _).mp hxy) hsame
          · have hxy := hcons.tied_symm htemp (hrest x hx) hyx
            have hback := hcons.trans _ hitem _ (hrest x hx) _ htemp (hafter' x hx) (.inr hxy)
            have htied := hcons.tied hitem htemp hback (hafter _ mem_cons_self)
            exact absurd ((tied_iff num keys _ _).mp htied) hsame
        · exact ⟨y, x, hsub, hequal, hindex⟩

end

/-! ## Accepted items -/

section

/-- The values that are not skipped are defined and of the type. -/
def Uniform (key : JsString) (type : Option TypeName) (items : List (Members F)) : Prop :=
  ∀ x ∈ items, key ≠ [] ∧
    (skips num options (fieldValue get options x key) = false →
      isUndefinedField (fieldValue get options x key) = false
        ∧ fieldType (fieldValue get options x key) = type)

theorem validateFrom_some_iff (key : JsString) (i : Nat)
    (type : Option TypeName) (items : List (Members F)) :
    validateFrom num get options key i (some type) items = .ok ()
      ↔ Uniform num get options key type items := by
  induction items generalizing i with
  | nil => simp [validateFrom, Uniform]
  | cons x rest ih =>
    rw [validateFrom, Uniform, forall_mem_cons]
    by_cases hkey : key = []
    · simp [hkey]
    · rw [if_neg hkey]
      cases hskips : skips num options (fieldValue get options x key) with
      | true => simp [hkey, hskips, ih, Uniform]
      | false =>
        cases hundefined : isUndefinedField (fieldValue get options x key) with
        | true => simp [hskips, hundefined]
        | false =>
          by_cases htype : type = fieldType (fieldValue get options x key)
          · subst htype
            simp [hkey, hskips, hundefined, ih, Uniform]
          · simp [hskips, hundefined, htype, Ne.symm htype]

theorem validateFrom_none_iff (key : JsString) (i : Nat) (items : List (Members F)) :
    validateFrom num get options key i none items = .ok ()
      ↔ ∃ type, Uniform num get options key type items := by
  induction items generalizing i with
  | nil => exact iff_of_true rfl ⟨none, fun _ hx => absurd hx not_mem_nil⟩
  | cons x rest ih =>
    rw [validateFrom]
    simp only [Uniform, forall_mem_cons]
    by_cases hkey : key = []
    · simp [hkey]
    · rw [if_neg hkey]
      cases hskips : skips num options (fieldValue get options x key) with
      | true => simp [hkey, ih, Uniform]
      | false =>
        cases hundefined : isUndefinedField (fieldValue get options x key) with
        | true => simp
        | false => simp [hkey, validateFrom_some_iff, Uniform]

theorem Uniform.of_reads {key : JsString} {type : Option TypeName} {items copies : List (Members F)}
    (h : Uniform num get options key type items)
    (hreads : ∀ x ∈ copies, ∃ y ∈ items,
      fieldValue get options x key = fieldValue get options y key) :
    Uniform num get options key type copies := by
  intro x hx
  obtain ⟨y, hy, heq⟩ := hreads x hx
  rw [heq]
  exact h y hy

theorem validateInputData_ok_iff (items : List (Members F)) (keys : List JsString) :
    validateInputData num get options items keys = .ok ()
      ↔ ∀ key ∈ keys, ∃ type, Uniform num get options key type items := by
  rw [validateInputData]
  induction keys with
  | nil => simp [forM_nil, pure, Except.pure]
  | cons key rest ih =>
    rw [forall_mem_cons, ← ih, ← validateFrom_none_iff num get options key 0]
    change (validateFrom num get options key 0 none items >>= fun _ =>
      rest.forM fun key => validateFrom num get options key 0 none items) = .ok () ↔ _
    cases validateFrom num get options key 0 none items with
    | ok u => simp [bind, Except.bind]
    | error e => simp [bind, Except.bind]

end

/-! ## The first items are kept -/

section

variable {keys : List JsString} {items : List I}

theorem pair_sublist_zipIdx {α : Type} {l : List α} {d e : α × Nat} :
    [d, e].Sublist l.zipIdx ↔ d ∈ l.zipIdx ∧ e ∈ l.zipIdx ∧ d.2 < e.2 := by
  have hnumbers : l.zipIdx.Pairwise fun d e => d.2 < e.2 := by
    have hrange : (l.zipIdx.map Prod.snd).Pairwise (· < ·) := by
      rw [zipIdx_map_snd]
      exact pairwise_lt_range'
    rwa [pairwise_map] at hrange
  rw [pairwise_iff_forall_sublist] at hnumbers
  constructor
  · intro hsub
    exact ⟨hsub.subset mem_cons_self, hsub.subset (mem_cons_of_mem _ mem_cons_self), hnumbers hsub⟩
  · rintro ⟨hd, he, hlt⟩
    have hne : d ≠ e := fun heq => Nat.lt_irrefl _ (heq ▸ hlt)
    refine (pair_sublist_total hne hd he).resolve_right fun hback => ?_
    exact Nat.lt_asymm hlt (hnumbers hback)

omit [LinearOrder F] in
theorem nodup_newItems : (items.zipIdx.map (newItem num json)).Nodup := by
  refine List.Nodup.of_map NewItem.index ?_
  rw [map_map]
  have hindex : NewItem.index ∘ newItem num json = (Prod.snd : I × Nat → Nat) := rfl
  rw [hindex, zipIdx_map_snd]
  exact nodup_range'

variable {e : I × Nat}

section

variable {d : I × Nat} (hd : d ∈ items.zipIdx) (he : e ∈ items.zipIdx)
  (hreads : ReadsNoIndex num json get options keys items)
include hd he hreads

theorem compareBy_newItem :
    compareBy num get options keys (newItem num json d).json (newItem num json e).json
      = compareBy num get options keys (json d.1) (json e.1) := by
  induction keys with
  | nil => rfl
  | cons key rest ih =>
    rw [compareBy, compareBy, hreads key mem_cons_self d hd, hreads key mem_cons_self e he,
      ih fun key hkey => hreads key (mem_cons_of_mem _ hkey)]

theorem compareItems_newItem :
    compareItems get options keys (newItem num json d).json (newItem num json e).json
      = compareItems get options keys (json d.1) (json e.1) := by
  rw [Bool.eq_iff_iff, ← tied_iff num, ← tied_iff num,
    compareBy_newItem num json get options hd he hreads]

end

theorem mem_of_mem_zipIdx {α : Type} {l : List α} {e : α × Nat} (h : e ∈ l.zipIdx) : e.1 ∈ l :=
  mem_of_getElem? (mem_zipIdx_iff_getElem?.mp h)

theorem consistent_newItems (hreads : ReadsNoIndex num json get options keys items)
    (h : Comparable num json get options keys items) :
    Consistent (fun a b : NewItem F =>
        compareBy num get options keys a.json b.json)
      (items.zipIdx.map (newItem num json)) := by
  refine ⟨?_, ?_⟩
  · intro a ha b hb
    obtain ⟨d, hd, rfl⟩ := mem_map.mp ha
    obtain ⟨e, he, rfl⟩ := mem_map.mp hb
    rw [compareBy_newItem num json get options hd he hreads,
      compareBy_newItem num json get options he hd hreads]
    exact h.swap _ (mem_of_mem_zipIdx hd) _ (mem_of_mem_zipIdx he)
  · intro a ha b hb c hc
    obtain ⟨d, hd, rfl⟩ := mem_map.mp ha
    obtain ⟨e, he, rfl⟩ := mem_map.mp hb
    obtain ⟨g, hg, rfl⟩ := mem_map.mp hc
    simp only [NotAfter, compareBy_newItem num json get options hd he hreads,
      compareBy_newItem num json get options he hg hreads,
      compareBy_newItem num json get options hd hg hreads]
    exact h.trans _ (mem_of_mem_zipIdx hd) _ (mem_of_mem_zipIdx he) _ (mem_of_mem_zipIdx hg)

variable {s : List (NewItem F)}

theorem removed_iff (hreads : ReadsNoIndex num json get options keys items)
    (hcomparable : Comparable num json get options keys items)
    (hs : StablySorted (fun a b : NewItem F =>
        compareBy num get options keys a.json b.json)
      (items.zipIdx.map (newItem num json)) s)
    (he : e ∈ items.zipIdx) :
    (∃ y x : NewItem F, [y, x].Sublist s
        ∧ compareItems get options keys y.json x.json = true
        ∧ x.index = e.2)
      ↔ ∃ d ∈ items.zipIdx, d.2 < e.2
          ∧ compareItems get options keys (json d.1) (json e.1) = true := by
  have hcons := consistent_newItems num json get options hreads hcomparable
  have hpair : ∀ y x : NewItem F, compareItems get options keys y.json x.json = true →
      ([y, x].Sublist s ↔ [y, x].Sublist (items.zipIdx.map (newItem num json)))
    := fun y x hequal => hs.pair_sublist_iff hcons (nodup_newItems num json)
      ((tied_iff num keys _ _).mpr hequal)
  constructor
  · rintro ⟨y, x, hsub, hequal, hindex⟩
    obtain ⟨l, hl, heq⟩ := sublist_map_iff.mp ((hpair y x hequal).mp hsub)
    obtain ⟨d, e', rfl⟩ : ∃ d e', l = [d, e'] := by
      refine length_eq_two.mp ?_
      simpa using (congrArg List.length heq).symm
    obtain ⟨hd, he', hlt⟩ := pair_sublist_zipIdx.mp hl
    obtain ⟨rfl, rfl⟩ := heq
    have hsame : e' = e := by
      have hplace := mem_zipIdx_iff_getElem?.mp he'
      have hplace' := mem_zipIdx_iff_getElem?.mp he
      have hnumber : e'.2 = e.2 := hindex
      rw [hnumber, hplace'] at hplace
      exact Prod.ext (Option.some.inj hplace).symm hnumber
    subst hsame
    rw [compareItems_newItem num json get options hd he' hreads] at hequal
    exact ⟨d, hd, hlt, hequal⟩
  · rintro ⟨d, hd, hlt, hequal⟩
    rw [← compareItems_newItem num json get options hd he hreads] at hequal
    refine ⟨newItem num json d, newItem num json e, (hpair _ _ hequal).mpr ?_, hequal, rfl⟩
    exact (pair_sublist_zipIdx.mpr ⟨hd, he, hlt⟩).map (newItem num json)

theorem any_take_iff {q : I → Bool} (n : Nat) :
    (items.take n).any q = true ↔ ∃ d ∈ items.zipIdx, d.2 < n ∧ q d.1 = true := by
  rw [any_eq_true]
  constructor
  · rintro ⟨a, ha, hq⟩
    obtain ⟨i, hi⟩ := mem_iff_getElem?.mp ha
    rw [getElem?_take] at hi
    split at hi
    next hlt => exact ⟨(a, i), mem_zipIdx_iff_getElem?.mpr hi, hlt, hq⟩
    next => cases hi
  · rintro ⟨d, hd, hlt, hq⟩
    refine ⟨d.1, mem_iff_getElem?.mpr ⟨d.2, ?_⟩, hq⟩
    rw [getElem?_take, if_pos hlt]
    exact mem_zipIdx_iff_getElem?.mp hd

theorem validateInputData_sorted (hreads : ReadsNoIndex num json get options keys items)
    (hperm : s.Perm (items.zipIdx.map (newItem num json)))
    (h : validateInputData num get options (items.map json) keys = .ok ()) :
    validateInputData num get options (s.map NewItem.json) keys = .ok () := by
  rw [validateInputData_ok_iff] at h ⊢
  intro key hkey
  obtain ⟨type, htype⟩ := h key hkey
  refine ⟨type, htype.of_reads num get options ?_⟩
  intro x hx
  obtain ⟨a, ha, rfl⟩ := mem_map.mp hx
  obtain ⟨e, he, rfl⟩ := mem_map.mp (hperm.subset ha)
  exact ⟨json e.1, mem_map_of_mem (mem_of_mem_zipIdx he), hreads key hkey e he⟩

theorem removedIndexes_contains (hreads : ReadsNoIndex num json get options keys items)
    (hcomparable : Comparable num json get options keys items)
    (hs : StablySorted (fun a b : NewItem F =>
        compareBy num get options keys a.json b.json)
      (items.zipIdx.map (newItem num json)) s)
    (he : e ∈ items.zipIdx) :
    (match s with
      | [] => []
      | temp :: rest => removedIndexes get options keys temp rest).contains e.2
      = (items.take e.2).any fun earlier =>
          compareItems get options keys (json earlier) (json e.1) := by
  rw [Bool.eq_iff_iff, contains_iff_mem, any_take_iff,
    ← removed_iff num json get options hreads hcomparable hs he]
  cases s with
  | nil =>
    refine iff_of_false not_mem_nil ?_
    rintro ⟨y, x, hsub, -⟩
    cases hsub
  | cons temp rest =>
    have hcons := consistent_newItems num json get options hreads hcomparable
    exact mem_removedIndexes num keys (hcons.mono hs.perm.subset) hs.sorted e.2

end

/-! ## Plain values -/

section

variable {num} {json} {get} {options} {keys : List JsString} {items : List I}

/-- All values of the key are texts, or all are numbers. -/
def Plain (json : I → Members F) (get : Members F → JsString → FieldValue F)
    (options : Options F) (key : JsString) (items : List I) : Prop :=
  (∀ a ∈ items, ∃ s : JsString, fieldValue get options (json a) key = .value (.string s))
    ∨ ∀ a ∈ items, ∃ x : F, fieldValue get options (json a) key = .value (.number (.real x))

theorem compareBy_cons (key : JsString) (a b : Members F) :
    compareBy num get options (key :: keys) a b
      = thenBy (compareBy num get options [key]) (compareBy num get options keys) a b := by
  rw [thenBy, compareBy, compareBy]
  split
  next => rfl
  next =>
    cases lt num (fieldValue get options a key) (fieldValue get options b key) with
    | none => rfl
    | some lessThan => cases lessThan <;> rfl

theorem compareBy_text {key : JsString} {a b : Members F} {s t : JsString}
    (ha : fieldValue get options a key = .value (.string s))
    (hb : fieldValue get options b key = .value (.string t)) :
    compareBy num get options [key] a b = some (orderingOf s t) := by
  rw [compareBy, ha, hb, orderingOf]
  by_cases heq : s = t
  · subst heq
    simp [equalFields, isEqual, compareBy]
  · have hne : isEqual (.string s : Value F) (.string t) = false := by
      simp [isEqual, heq]
    rw [equalFields, hne, if_neg (by simp), if_neg heq, lt, Option.map_some]
    by_cases hlt : s < t <;> simp [hlt]

theorem compareBy_number {key : JsString} {a b : Members F} {x y : F}
    (ha : fieldValue get options a key = .value (.number (.real x)))
    (hb : fieldValue get options b key = .value (.number (.real y))) :
    compareBy num get options [key] a b = some (orderingOf x y) := by
  rw [compareBy, ha, hb, orderingOf]
  by_cases heq : x = y
  · subst heq
    simp [equalFields, isEqual, compareBy]
  · have hne : isEqual (.number (.real x) : Value F) (.number (.real y))
        = false := by
      simp [isEqual, heq]
    rw [equalFields, hne, if_neg (by simp), if_neg heq]
    simp only [lt, toNumber, toPrimitive, primitiveNumber, Option.map_some]
    by_cases hlt : x < y <;> simp [hlt]

theorem comparable_of_plain (h : ∀ key ∈ keys, Plain json get options key items) :
    Comparable num json get options keys items := by
  induction keys with
  | nil =>
    refine ⟨fun a _ b _ => ⟨.eq, rfl, rfl⟩, fun a _ b _ c _ _ _ => ?_⟩
    exact .inr rfl
  | cons key rest ih =>
    have hsplit : (fun a b =>
          compareBy num get options (key :: rest) (json a) (json b))
        = thenBy (fun a b => compareBy num get options [key] (json a) (json b))
            (fun a b => compareBy num get options rest (json a) (json b)) :=
      funext fun a => funext fun b => compareBy_cons ..
    rw [Comparable, hsplit]
    refine Consistent.thenBy ?_ (ih fun key hkey => h key (mem_cons_of_mem _ hkey))
    rcases h key mem_cons_self with htexts | hnumbers
    · choose! f hf using htexts
      exact consistent_of_linear (f := f) fun a ha b hb =>
        compareBy_text (hf a ha) (hf b hb)
    · have : Nonempty F := ⟨num.ofNat 0⟩
      choose! f hf using hnumbers
      exact consistent_of_linear (f := f) fun a ha b hb =>
        compareBy_number (hf a ha) (hf b hb)

end

/-! ## Values of which neither is the lesser -/

end

/-! ## Numbers, and nothing among them -/

def memberOptions : Options Int where
  typeVersion := 2
  disableDotNotation := true
  removeOtherFields := false

def numberItem (n : Int) : Members Int := [(ofString "k", .number (.real n))]

theorem readsNoIndex_numberItem (items : List Int) :
    ReadsNoIndex integers numberItem member memberOptions [ofString "k"] items := by
  intro key hkey entry _
  rw [mem_singleton.mp hkey]
  rfl

/-- The items `k: 0` and `k: null`. -/
def nothingOrZero (nothing : Bool) : Members Int :=
  [(ofString "k", if nothing then .null else .number (.real 0))]

end N8nRemoveDuplicateItems
