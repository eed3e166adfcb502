import Mathlib.Data.List.Perm.Basic
import Mathlib.Order.Lattice

/-! # Stable sorts — what sorting with a comparator promises

    A sort that calls a comparator promises something where the comparator
    is consistent on the elements: it answers for any two of them, turns its
    answer around with them, and is transitive.  There the result has the
    elements in order and leaves those that are tied in the order they had
    (`StablySorted`).

    A binary insertion sort keeps the promise (`binaryInsertion_stable`): the
    step finds the place after all elements that do not come after the new
    one, by the invariant of the binary search (`place_spec`). -/

namespace N8nStableSort

open List

/-- What a comparator answers; no answer where it throws. -/
abbrev Comparator (α : Type) := α → α → Option Ordering

section

variable {α : Type} (cmp : Comparator α)

def NotAfter (a b : α) : Prop := cmp a b = some .lt ∨ cmp a b = some .eq

def Tied (a b : α) : Prop := cmp a b = some .eq

/-- The comparator orders the elements of the list. -/
structure Consistent (l : List α) : Prop where
  swap : ∀ a ∈ l, ∀ b ∈ l, ∃ o : Ordering, cmp a b = some o ∧ cmp b a = some o.swap
  trans : ∀ a ∈ l, ∀ b ∈ l, ∀ c ∈ l, NotAfter cmp a b → NotAfter cmp b c → NotAfter cmp a c

/-- The second list is the first one in order, with ties as they were. -/
structure StablySorted (l s : List α) : Prop where
  perm : s.Perm l
  sorted : s.Pairwise (NotAfter cmp)
  stable : ∀ a b, [a, b].Sublist l → Tied cmp a b → [a, b].Sublist s

end

/-- A sort that keeps the promise; without a result it throws. -/
structure StableSort where
  run : {α : Type} → Comparator α → List α → Option (List α)
  stable : ∀ {α : Type} (cmp : Comparator α) (l : List α),
    Consistent cmp l → ∃ s, run cmp l = some s ∧ StablySorted cmp l s

variable {α : Type}

theorem pair_sublist_cons {l : List α} {a b c : α} (h : [a, b].Sublist (c :: l)) :
    a = c ∧ b ∈ l ∨ [a, b].Sublist l := by
  cases h with
  | cons _ h => exact .inr h
  | cons_cons _ h => exact .inl ⟨rfl, singleton_sublist.mp h⟩

/-- Where no element occurs twice, none stands on both sides of another. -/
theorem not_pair_sublist {l : List α} {a b : α} (hnodup : l.Nodup)
    (hab : [a, b].Sublist l) : ¬ [b, a].Sublist l := by
  induction l with
  | nil => cases hab
  | cons c l ih =>
    intro hba
    obtain ⟨hc, hnodup⟩ := nodup_cons.mp hnodup
    rcases pair_sublist_cons hab with ⟨rfl, hb⟩ | hab'
    · rcases pair_sublist_cons hba with ⟨rfl, -⟩ | hba'
      · exact hc hb
      · exact hc (hba'.subset (mem_cons_of_mem _ mem_cons_self))
    · rcases pair_sublist_cons hba with ⟨rfl, -⟩ | hba'
      · exact hc (hab'.subset (mem_cons_of_mem _ mem_cons_self))
      · exact ih hnodup hab' hba'

/-- Two elements of a list stand in one order or the other. -/
theorem pair_sublist_total {l : List α} {a b : α} (hne : a ≠ b)
    (ha : a ∈ l) (hb : b ∈ l) : [a, b].Sublist l ∨ [b, a].Sublist l := by
  induction l with
  | nil => cases ha
  | cons c l ih =>
    rcases mem_cons.mp ha with rfl | ha'
    · rcases mem_cons.mp hb with rfl | hb'
      · exact absurd rfl hne
      · exact .inl ((singleton_sublist.mpr hb').cons_cons _)
    · rcases mem_cons.mp hb with rfl | hb'
      · exact .inr ((singleton_sublist.mpr ha').cons_cons _)
      · exact (ih ha' hb').imp (fun h => h.cons c) (fun h => h.cons c)

/-- A pair of a list with one more element. -/
theorem pair_sublist_concat {l : List α} {a b c : α} (h : [a, b].Sublist (l ++ [c])) :
    [a, b].Sublist l ∨ a ∈ l ∧ b = c := by
  induction l with
  | nil =>
    have hlength := h.length_le
    simp at hlength
  | cons d l ih =>
    cases h with
    | cons _ h =>
      rcases ih h with hold | ⟨ha, hb⟩
      · exact .inl (hold.cons d)
      · exact .inr ⟨mem_cons_of_mem _ ha, hb⟩
    | cons_cons _ h =>
      rcases mem_append.mp (singleton_sublist.mp h) with hb | hb
      · exact .inl ((singleton_sublist.mpr hb).cons_cons _)
      · exact .inr ⟨mem_cons_self, mem_singleton.mp hb⟩

/-! ## Consistent comparators -/

section

variable {α : Type} {cmp : Comparator α} {l : List α} {a b c : α}

theorem Consistent.mono (h : Consistent cmp l) {k : List α} (hk : k ⊆ l) :
    Consistent cmp k where
  swap a ha b hb := h.swap a (hk ha) b (hk hb)
  trans a ha b hb c hc := h.trans a (hk ha) b (hk hb) c (hk hc)

section

variable (h : Consistent cmp l) (ha : a ∈ l)
include h ha

theorem Consistent.notAfter_of_ne_lt
    (hb : b ∈ l) (hne : cmp a b ≠ some .lt) : NotAfter cmp b a := by
  obtain ⟨o, hab, hba⟩ := h.swap a ha b hb
  cases o with
  | lt => exact absurd hab hne
  | eq => exact Or.inr hba
  | gt => exact Or.inl hba

theorem Consistent.not_notAfter (hb : b ∈ l) (hlt : cmp a b = some .lt) : ¬ NotAfter cmp b a := by
  obtain ⟨o, hab, hba⟩ := h.swap a ha b hb
  rw [hlt] at hab
  cases hab
  rintro (hle | hle) <;> rw [hba] at hle <;> cases hle

theorem Consistent.lt_trans (hb : b ∈ l) (hc : c ∈ l)
    (hab : cmp a b = some .lt) (hbc : NotAfter cmp b c) : cmp a c = some .lt := by
  by_contra hne
  have hca := h.notAfter_of_ne_lt ha hc hne
  exact h.not_notAfter ha hb hab (h.trans b hb c hc a ha hbc hca)

theorem Consistent.tied_refl : Tied cmp a a := by
  obtain ⟨o, haa, haa'⟩ := h.swap a ha a ha
  rw [haa] at haa'
  cases o with
  | lt => cases haa'
  | eq => exact haa
  | gt => cases haa'

/-- Two elements that do not come after each other are tied. -/
theorem Consistent.tied (hb : b ∈ l)
    (hab : NotAfter cmp a b) (hba : NotAfter cmp b a) : Tied cmp a b := by
  rcases hab with hlt | heq
  · exact absurd hba (h.not_notAfter ha hb hlt)
  · exact heq

theorem Consistent.tied_symm (hb : b ∈ l) (hab : Tied cmp a b) : Tied cmp b a := by
  obtain ⟨o, hab', hba⟩ := h.swap a ha b hb
  have ho : Ordering.eq = o := Option.some.inj (hab.symm.trans hab')
  rw [← ho] at hba
  exact hba

theorem Consistent.tied_trans (hb : b ∈ l) (hc : c ∈ l) (hab : Tied cmp a b) (hbc : Tied cmp b c) :
    Tied cmp a c :=
  h.tied ha hc (h.trans a ha b hb c hc (.inr hab) (.inr hbc))
    (h.trans c hc b hb a ha (.inr (h.tied_symm hb hc hbc)) (.inr (h.tied_symm ha hb hab)))

end

end

/-- Where no element occurs twice, ties are as they were before. -/
theorem StablySorted.pair_sublist_iff {cmp : Comparator α}
    {l s : List α} (hcons : Consistent cmp l) (h : StablySorted cmp l s)
    (hnodup : l.Nodup) {a b : α} (htied : Tied cmp a b) :
    [a, b].Sublist s ↔ [a, b].Sublist l := by
  refine ⟨fun hsub => ?_, fun hsub => h.stable a b hsub htied⟩
  have ha : a ∈ l := h.perm.subset (hsub.subset mem_cons_self)
  have hb : b ∈ l := h.perm.subset (hsub.subset (mem_cons_of_mem _ mem_cons_self))
  have hnodup' : s.Nodup := h.perm.nodup_iff.mpr hnodup
  have hne : a ≠ b := by
    rintro rfl
    exact not_pair_sublist hnodup' hsub hsub
  refine (pair_sublist_total hne ha hb).resolve_right fun hback => ?_
  exact not_pair_sublist hnodup' hsub (h.stable b a hback (hcons.tied_symm ha hb htied))

/-- The order of two elements of a linear order. -/
def orderingOf {κ : Type} [LinearOrder κ] (x y : κ) : Ordering :=
  if x = y then .eq else if x < y then .lt else .gt

/-- A comparator that goes by the place in a linear order. -/
theorem consistent_of_linear {κ : Type} [LinearOrder κ]
    {cmp : Comparator α} {l : List α} {f : α → κ}
    (h : ∀ a ∈ l, ∀ b ∈ l, cmp a b = some (orderingOf (f a) (f b))) :
    Consistent cmp l := by
  have hle : ∀ a ∈ l, ∀ b ∈ l, NotAfter cmp a b ↔ f a ≤ f b := by
    intro a ha b hb
    rw [NotAfter, h a ha b hb, orderingOf, le_iff_eq_or_lt]
    by_cases heq : f a = f b
    · simp [heq]
    · by_cases hlt : f a < f b <;> simp [heq, hlt]
  refine ⟨?_, ?_⟩
  · intro a ha b hb
    refine ⟨_, h a ha b hb, ?_⟩
    rw [h b hb a ha, orderingOf, orderingOf]
    rcases lt_trichotomy (f a) (f b) with hlt | heq | hlt
    · rw [if_neg hlt.ne', if_neg hlt.le.not_gt, if_neg hlt.ne, if_pos hlt]
      rfl
    · rw [if_pos heq.symm, if_pos heq]
      rfl
    · rw [if_neg hlt.ne, if_pos hlt, if_neg hlt.ne', if_neg hlt.le.not_gt]
      rfl
  · intro a ha b hb c hc hab hbc
    rw [hle a ha b hb] at hab
    rw [hle b hb c hc] at hbc
    exact (hle a ha c hc).mpr (hab.trans hbc)

/-- The second comparator decides between ties of the first. -/
def thenBy {α : Type} (cmp cmp' : Comparator α) : Comparator α := fun a b =>
  match cmp a b with
  | some .eq => cmp' a b
  | r => r

theorem Consistent.thenBy {cmp cmp' : Comparator α} {l : List α}
    (h : Consistent cmp l) (h' : Consistent cmp' l) :
    Consistent (N8nStableSort.thenBy cmp cmp') l := by
  have hle : ∀ a ∈ l, ∀ b ∈ l, (NotAfter (N8nStableSort.thenBy cmp cmp') a b
      ↔ cmp a b = some .lt ∨ Tied cmp a b ∧ NotAfter cmp' a b) := by
    intro a ha b hb
    obtain ⟨o, hab, -⟩ := h.swap a ha b hb
    rw [NotAfter, N8nStableSort.thenBy, Tied, hab]
    cases o <;> simp [NotAfter]
  refine ⟨?_, ?_⟩
  · intro a ha b hb
    obtain ⟨o, hab, hba⟩ := h.swap a ha b hb
    rw [N8nStableSort.thenBy, N8nStableSort.thenBy, hab, hba]
    cases o with
    | lt => exact ⟨.lt, rfl, rfl⟩
    | eq => exact h'.swap a ha b hb
    | gt => exact ⟨.gt, rfl, rfl⟩
  · intro a ha b hb c hc hab hbc
    rw [hle a ha b hb] at hab
    rw [hle b hb c hc] at hbc
    rw [hle a ha c hc]
    rcases hab with hab | ⟨hab, hab'⟩
    · have hbc' : NotAfter cmp b c := hbc.imp id fun hbc => hbc.1
      exact .inl (h.lt_trans ha hb hc hab hbc')
    · rcases hbc with hbc | ⟨hbc, hbc'⟩
      · refine .inl ?_
        by_contra hne
        have hca := h.notAfter_of_ne_lt ha hc hne
        exact h.not_notAfter hb hc hbc (h.trans c hc a ha b hb hca (.inr hab))
      · exact .inr ⟨h.tied_trans ha hb hc hab hbc, h'.trans a ha b hb c hc hab' hbc'⟩

/-! ## Binary insertion -/

section

variable {α : Type} (cmp : Comparator α)

/-- The binary search for the place of the pivot. -/
def place (pivot : α) (sorted : List α) : Nat → Nat → Nat → Option Nat
  | 0, left, _ => some left
  | fuel + 1, left, right =>
    if left < right then
      let mid := left + (right - left) / 2
      match sorted[mid]? with
      | none => some left
      | some midElement =>
        match cmp pivot midElement with
        | none => none
        | some .lt => place pivot sorted fuel left mid
        | some _ => place pivot sorted fuel (mid + 1) right
    else some left

def insert (sorted : List α) (pivot : α) : Option (List α) :=
  (place cmp pivot sorted sorted.length 0 sorted.length).map fun i =>
    sorted.take i ++ pivot :: sorted.drop i

def binaryInsertionSort (l : List α) : Option (List α) := l.foldlM (insert cmp) []

variable {cmp} {pivot : α} {sorted : List α}

section

variable (hcons : Consistent cmp (pivot :: sorted)) (hsorted : sorted.Pairwise (NotAfter cmp))
include hcons hsorted

/-- Two places of a sorted list. -/
theorem notAfter_of_le {i j : Nat} (hij : i ≤ j)
    {a b : α} (ha : sorted[i]? = some a) (hb : sorted[j]? = some b) :
    NotAfter cmp a b := by
  rcases Nat.lt_or_eq_of_le hij with hlt | rfl
  · obtain ⟨hi, rfl⟩ := List.getElem?_eq_some_iff.mp ha
    obtain ⟨hj, rfl⟩ := List.getElem?_eq_some_iff.mp hb
    exact List.pairwise_iff_getElem.mp hsorted i j hi hj hlt
  · rw [ha] at hb
    cases hb
    exact .inr (hcons.tied_refl (List.mem_cons_of_mem _ (List.mem_of_getElem? ha)))

/-- Before the place nothing comes after the pivot, and behind it
    everything does. -/
theorem place_spec (fuel left right : Nat) (hfuel : right - left ≤ fuel)
    (hright : right ≤ sorted.length) (hle : left ≤ right)
    (hleft : ∀ i a, i < left → sorted[i]? = some a → NotAfter cmp a pivot)
    (hrest : ∀ i a, right ≤ i → sorted[i]? = some a → cmp pivot a = some .lt) :
    ∃ i, place cmp pivot sorted fuel left right = some i
      ∧ (∀ j a, j < i → sorted[j]? = some a → NotAfter cmp a pivot)
      ∧ ∀ j a, i ≤ j → sorted[j]? = some a → cmp pivot a = some .lt := by
  induction fuel generalizing left right with
  | zero =>
    have heq : left = right := by omega
    subst heq
    exact ⟨left, rfl, hleft, hrest⟩
  | succ fuel ih =>
    rw [place]
    by_cases hlt : left < right
    · rw [if_pos hlt]
      obtain ⟨mid, hmid, hlow, hhigh⟩ :
          ∃ mid, left + (right - left) / 2 = mid ∧ left ≤ mid
            ∧ mid < right := ⟨_, rfl, by omega, by omega⟩
      have hlength : mid < sorted.length := by omega
      have hget : sorted[mid]? = some sorted[mid] := getElem?_eq_getElem hlength
      have hmem : sorted[mid] ∈ pivot :: sorted := mem_cons_of_mem _ (getElem_mem hlength)
      have hpivot : pivot ∈ pivot :: sorted := mem_cons_self
      have hmem' : ∀ i a, sorted[i]? = some a → a ∈ pivot :: sorted :=
        fun i a ha => mem_cons_of_mem _ (mem_of_getElem? ha)
      obtain ⟨o, hcmp, -⟩ := hcons.swap pivot hpivot _ hmem
      simp only [hmid, hget, hcmp]
      have hupper : o ≠ .lt → ∀ i a, i < mid + 1 → sorted[i]? = some a → NotAfter cmp a pivot := by
        intro hne i a hi ha
        have hbelow := notAfter_of_le hcons hsorted (Nat.le_of_lt_succ hi) ha hget
        exact hcons.trans a (hmem' i a ha) _ hmem pivot hpivot hbelow
          (hcons.notAfter_of_ne_lt hpivot hmem (by simp [hcmp, hne]))
      cases o with
      | lt =>
        refine ih left mid (by omega) (by omega) hlow hleft ?_
        intro i a hi ha
        exact hcons.lt_trans hpivot hmem (hmem' i a ha) hcmp
          (notAfter_of_le hcons hsorted hi hget ha)
      | eq => exact ih (mid + 1) right (by omega) hright hhigh (hupper (by simp)) hrest
      | gt => exact ih (mid + 1) right (by omega) hright hhigh (hupper (by simp)) hrest
    · rw [if_neg hlt]
      have heq : left = right := by omega
      subst heq
      exact ⟨left, rfl, hleft, hrest⟩

end

/-- An insertion keeps the elements in order and ties as they were. -/
theorem insert_spec {done : List α} (hcons : Consistent cmp (done ++ [pivot]))
    (h : StablySorted cmp done sorted) :
    ∃ s, insert cmp sorted pivot = some s ∧ StablySorted cmp (done ++ [pivot]) s := by
  have hsub : pivot :: sorted ⊆ done ++ [pivot] := by
    intro a ha
    rcases mem_cons.mp ha with rfl | ha
    · exact mem_append_right _ (mem_singleton_self _)
    · exact mem_append_left _ (h.perm.subset ha)
  obtain ⟨i, hplace, hbefore, hbehind⟩ := place_spec (hcons.mono hsub)
    h.sorted sorted.length 0 sorted.length (by omega) (Nat.le_refl _)
    (Nat.zero_le _) (fun j a hj _ => absurd hj (Nat.not_lt_zero j))
    (fun j a hj ha => by
      rw [getElem?_eq_none hj] at ha
      cases ha)
  have htake : ∀ a ∈ sorted.take i, NotAfter cmp a pivot := by
    intro a ha
    obtain ⟨j, hj⟩ := mem_iff_getElem?.mp ha
    rw [getElem?_take] at hj
    split at hj
    next hlt => exact hbefore j a hlt hj
    next => cases hj
  have hdrop : ∀ a ∈ sorted.drop i, cmp pivot a = some .lt := by
    intro a ha
    obtain ⟨j, hj⟩ := mem_iff_getElem?.mp ha
    rw [getElem?_drop] at hj
    exact hbehind (i + j) a (Nat.le_add_right i j) hj
  have hparts : sorted.take i ++ sorted.drop i = sorted := take_append_drop i sorted
  refine ⟨_, by rw [insert, hplace]; rfl, ?_, ?_, ?_⟩
  · refine perm_middle.trans ?_
    rw [hparts]
    exact (h.perm.cons pivot).trans (perm_append_singleton pivot done).symm
  · have hsorted := h.sorted
    rw [← hparts, pairwise_append] at hsorted
    obtain ⟨hfront, hback, hcross⟩ := hsorted
    rw [pairwise_append]
    refine ⟨hfront, List.Pairwise.cons (fun a ha => .inl (hdrop a ha)) hback, ?_⟩
    intro a ha b hb
    rcases mem_cons.mp hb with rfl | hb
    · exact htake a ha
    · exact hcross a ha b hb
  · intro a b hab htied
    have hkeeps : sorted.Sublist (sorted.take i ++ pivot :: sorted.drop i) := by
      conv_lhs => rw [← hparts]
      exact (List.Sublist.refl _).append (sublist_cons_self ..)
    rcases pair_sublist_concat hab with hold | ⟨ha, rfl⟩
    · exact (h.stable a b hold htied).trans hkeeps
    · have hmem : a ∈ sorted.take i ++ sorted.drop i := by
        rw [hparts]
        exact h.perm.mem_iff.mpr ha
      rcases mem_append.mp hmem with hfront | hback
      · exact (singleton_sublist.mpr hfront).append (singleton_sublist.mpr mem_cons_self)
      · have hpivot : b ∈ done ++ [b] :=
          mem_append_right _ (mem_singleton_self _)
        exact absurd (.inr htied) (hcons.not_notAfter hpivot (mem_append_left _ ha) (hdrop a hback))

theorem foldlM_insert {done rest : List α} (hcons : Consistent cmp (done ++ rest))
    (h : StablySorted cmp done sorted) :
    ∃ s, rest.foldlM (insert cmp) sorted = some s ∧ StablySorted cmp (done ++ rest) s := by
  induction rest generalizing done sorted with
  | nil => exact ⟨sorted, rfl, by rwa [append_nil]⟩
  | cons pivot rest ih =>
    have hassoc : done ++ pivot :: rest = (done ++ [pivot]) ++ rest := by
      simp
    rw [hassoc] at hcons ⊢
    obtain ⟨s, hinsert, hs⟩ := insert_spec (hcons.mono (subset_append_left _ _)) h
    obtain ⟨t, hfold, ht⟩ := ih hcons hs
    exact ⟨t, by rw [foldlM_cons, hinsert]; exact hfold, ht⟩

/-- **BINARY INSERTION** is a stable sort. -/
theorem binaryInsertion_stable (l : List α) (h : Consistent cmp l) :
    ∃ s, binaryInsertionSort cmp l = some s ∧ StablySorted cmp l s := by
  have hcons : Consistent cmp ([] ++ l) := h
  exact foldlM_insert hcons ⟨List.Perm.nil, List.Pairwise.nil, fun _ _ hab _ => hab⟩

end

def binaryInsertion : StableSort where
  run := binaryInsertionSort
  stable _ l h := binaryInsertion_stable l h

end N8nStableSort
