import Mathlib.Data.List.Perm.Basic

/-! # Loops that return early — when the order of a list does not matter

    A loop asks one element after the other: it goes on, gives an answer, or
    throws.  The first element that does not go on decides (`findSomeM?_eq`).

    A part of the list may stand at a fixed place in front while the rest is
    in any order.  All orders come to one result exactly where the front
    decides without throwing, or goes on and nothing behind it throws or
    contradicts (`sameForAllOrders_iff`). -/

namespace N8nEarlyReturn

open List

variable {α β ε : Type}

/-- The element does not let the loop go on. -/
def decides (f : α → Except ε (Option β)) (x : α) : Bool :=
  match f x with
  | .ok none => false
  | _ => true

def Throws (f : α → Except ε (Option β)) (x : α) : Prop := ∃ e, f x = .error e

/-- Two elements of the list that give answers give the same. -/
def Consistent (f : α → Except ε (Option β)) (l : List α) : Prop :=
  ∀ x ∈ l, ∀ y ∈ l, ∀ a b, f x = .ok (some a) → f y = .ok (some b) → a = b

/-- The front decides without throwing; or it goes on, and nothing behind it
    throws or contradicts. -/
def Settled (f : α → Except ε (Option β)) (front l : List α) : Prop :=
  match front.find? (decides f) with
  | some x => ¬ Throws f x
  | none => (∀ x ∈ l, ¬ Throws f x) ∧ Consistent f l

variable {f : α → Except ε (Option β)}

theorem decides_eq_false {x : α} : decides f x = false ↔ f x = .ok none := by
  rw [decides]
  split
  · rename_i h
    simp [h]
  · rename_i h
    exact iff_of_false (by simp) h

theorem findSomeM?_cons (x : α) (rest : List α) :
    (x :: rest).findSomeM? f = if decides f x then f x else rest.findSomeM? f := by
  cases h : f x with
  | error e => simp [List.findSomeM?, decides, h, bind, Except.bind]
  | ok r =>
    cases r with
    | none => simp [List.findSomeM?, decides, h, bind, Except.bind]
    | some a => simp [List.findSomeM?, decides, h, bind, Except.bind, pure, Except.pure]

/-- The first element that does not go on decides. -/
theorem findSomeM?_eq (l : List α) :
    l.findSomeM? f
      = match l.find? (decides f) with
        | none => .ok none
        | some x => f x := by
  induction l with
  | nil => rfl
  | cons x rest ih =>
    rw [findSomeM?_cons]
    by_cases hx : decides f x
    · rw [if_pos hx, find?_cons_of_pos hx]
    · rw [if_neg hx, find?_cons_of_neg hx, ih]

theorem findSomeM?_append (front l : List α) : (front ++ l).findSomeM? f
      = match front.find? (decides f) with
        | none => l.findSomeM? f
        | some x => f x := by
  rw [findSomeM?_eq, findSomeM?_eq, find?_append]
  cases front.find? (decides f) <;> rfl

/-- An element that is put first decides if it does not go on. -/
theorem findSomeM?_of_first [DecidableEq α] {l : List α} {x : α} (hx : x ∈ l)
    (hdecides : decides f x = true) :
    ∃ l' : List α, l'.Perm l ∧ l'.findSomeM? f = f x := by
  refine ⟨x :: l.erase x, (perm_cons_erase hx).symm, ?_⟩
  rw [findSomeM?_cons, if_pos hdecides]

/-- What does not go on gives the answer of any other such element. -/
theorem same_answer {l : List α} (hthrows : ∀ x ∈ l, ¬ Throws f x) (hconsistent : Consistent f l)
    {x y : α} (hx : x ∈ l) (hy : y ∈ l) (hdx : decides f x = true) (hdy : decides f y = true)
    {r : Option β} (hfx : f x = .ok r) : f y = .ok r := by
  cases r with
  | none => rw [decides_eq_false.mpr hfx] at hdx; cases hdx
  | some a =>
    cases hfy : f y with
    | error e => exact absurd ⟨e, hfy⟩ (hthrows y hy)
    | ok r =>
      cases r with
      | none => rw [decides_eq_false.mpr hfy] at hdy; cases hdy
      | some b => rw [hconsistent x hx y hy a b hfx hfy]

/-- **ONE RESULT FOR ALL ORDERS** of what stands behind the front. -/
theorem sameForAllOrders_iff [DecidableEq α] (front l : List α) :
    (∃ r, ∀ l' : List α, l'.Perm l → (front ++ l').findSomeM? f = .ok r) ↔ Settled f front l := by
  simp only [findSomeM?_append, Settled]
  cases hfront : front.find? (decides f) with
  | some x =>
    constructor
    · rintro ⟨r, hr⟩ ⟨e, he⟩
      have hx : f x = .ok r := hr l (List.Perm.refl l)
      rw [he] at hx
      cases hx
    · intro hnot
      cases hx : f x with
      | error e => exact absurd ⟨e, hx⟩ hnot
      | ok r => exact ⟨r, fun _ _ => hx⟩
  | none =>
    constructor
    · rintro ⟨r, hr⟩
      have hall : ∀ x ∈ l, decides f x = true → f x = .ok r := by
        intro x hx hdecides
        obtain ⟨l', hl', heq⟩ := findSomeM?_of_first hx hdecides
        rw [← heq]
        exact hr l' hl'
      refine ⟨?_, ?_⟩
      · rintro x hx ⟨e, he⟩
        have hthrown := hall x hx (by simp [decides, he])
        rw [he] at hthrown
        cases hthrown
      · intro x hx y hy a b ha hb
        have hxr := hall x hx (by simp [decides, ha])
        have hyr := hall y hy (by simp [decides, hb])
        rw [ha] at hxr
        rw [hb] at hyr
        exact Option.some.inj (Except.ok.inj (hxr.trans hyr.symm))
    · rintro ⟨hthrows, hconsistent⟩
      -- the result is that of the list as it stands
      cases hfound : l.find? (decides f) with
      | none =>
        refine ⟨none, fun l' hl' => ?_⟩
        have hnone : l'.find? (decides f) = none := by
          rw [find?_eq_none] at hfound ⊢
          exact fun x hx => hfound x (hl'.mem_iff.mp hx)
        rw [findSomeM?_eq, hnone]
      | some x =>
        have hx := mem_of_find?_eq_some hfound
        have hdecides := find?_some hfound
        cases hfx : f x with
        | error e => exact absurd ⟨e, hfx⟩ (hthrows x hx)
        | ok r =>
          refine ⟨r, fun l' hl' => ?_⟩
          cases hfound' : l'.find? (decides f) with
          | none =>
            exact absurd hdecides (find?_eq_none.mp hfound' x (hl'.mem_iff.mpr hx))
          | some y =>
            have hy := hl'.mem_iff.mp (mem_of_find?_eq_some hfound')
            have hydecides := find?_some hfound'
            rw [findSomeM?_eq, hfound']
            exact same_answer hthrows hconsistent hx hy hdecides hydecides hfx

end N8nEarlyReturn
