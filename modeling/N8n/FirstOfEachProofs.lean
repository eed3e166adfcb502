import Mathlib.Data.List.Basic

/-! # The first of each — lists without repetitions, in their order

    `eraseDups` keeps the first occurrence of each element.  It can be
    exchanged with a filter (`eraseDups_filter`), and what stands at the end
    is only kept when it is new (`eraseDups_concat`). -/

namespace N8nFirstOfEach

open List

variable {α : Type} [DecidableEq α]

theorem eraseDups_filter (p : α → Bool)
    (l : List α) : (l.filter p).eraseDups = l.eraseDups.filter p := by
  -- on the length: the tail of `eraseDups` is filtered
  induction hlength : l.length using Nat.strongRecOn generalizing l with
  | _ n ih =>
    cases l with
    | nil => rfl
    | cons a l =>
      have hshort : (l.filter fun b => !b == a).length < n := by
        rw [← hlength]
        exact Nat.lt_succ_of_le (length_filter_le ..)
      have hrest := ih _ hshort _ rfl
      rw [eraseDups_cons]
      by_cases ha : p a
      · rw [filter_cons_of_pos ha, filter_cons_of_pos ha,
          eraseDups_cons, ← hrest, filter_filter, filter_filter]
        simp [Bool.and_comm]
      · rw [filter_cons_of_neg ha, filter_cons_of_neg ha, ← hrest, filter_filter]
        congr 1
        refine filter_congr fun b _ => ?_
        by_cases hb : b = a
        · subst hb
          simp [ha]
        · simp [hb]

theorem nodup_eraseDups (l : List α) : l.eraseDups.Nodup := by
  induction hlength : l.length using Nat.strongRecOn generalizing l with
  | _ n ih =>
    cases l with
    | nil => exact nodup_nil
    | cons a l =>
      have hshort : (l.filter fun b => !b == a).length < n := by
        rw [← hlength]
        exact Nat.lt_succ_of_le (length_filter_le ..)
      rw [eraseDups_cons, nodup_cons]
      refine ⟨fun ha => ?_, ih _ hshort _ rfl⟩
      simp at ha

theorem eraseDups_concat (l : List α) (a : α) :
    (l ++ [a]).eraseDups = if a ∈ l then l.eraseDups else l.eraseDups ++ [a] := by
  rw [eraseDups_append]
  by_cases ha : a ∈ l
  · have hgone : [a].removeAll l = [] := by
      simp [List.removeAll, ha]
    rw [if_pos ha, hgone, eraseDups_nil, append_nil]
  · have hkept : [a].removeAll l = [a] := by
      simp [List.removeAll, ha]
    rw [if_neg ha, hkept]
    rfl

end N8nFirstOfEach
