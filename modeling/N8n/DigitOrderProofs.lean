import Mathlib.Data.Nat.Log
import Mathlib.Data.String.Basic

/-! # Numbers sorted as texts

    The decimal texts of two numbers compare digit by digit.  A number comes
    before a greater one exactly if its text is not above the digits that the
    greater one begins with (`toString_le_iff`); with the same number of
    digits that is always so. -/

namespace N8nDigitOrder

open List

/-! ## Lists in lexicographic order -/

section

variable {α : Type} [LinearOrder α] {l l' : List α}

theorem cons_le_cons_iff {a b : α} : a :: l ≤ b :: l' ↔ a < b ∨ a = b ∧ l ≤ l' := by
  rw [le_iff_lt_or_eq, cons_lt_cons_iff, List.cons.injEq, le_iff_lt_or_eq, or_assoc, ← and_or_left]

theorem nil_le (l : List α) : [] ≤ l := by
  cases l with
  | nil => exact le_refl _
  | cons a l => exact le_of_lt (nil_lt_cons a l)

theorem append_le_append_iff (h : l.length = l'.length) (x y : List α) :
    l ++ x ≤ l' ++ y ↔ l < l' ∨ l = l' ∧ x ≤ y := by
  induction l generalizing l' with
  | nil =>
    rw [length_nil, eq_comm, length_eq_zero_iff] at h
    rw [h, nil_append, nil_append, or_iff_right (lt_irrefl _), and_iff_right rfl]
  | cons a l ih =>
    cases l' with
    | nil => cases h
    | cons b l' =>
      rw [cons_append, cons_append, cons_le_cons_iff,
        cons_lt_cons_iff, ih (Nat.succ.inj h), List.cons.injEq]
      tauto

theorem le_append_iff (h : l.length ≤ l'.length) (y : List α) : l ≤ l' ++ y ↔ l ≤ l' := by
  induction l generalizing l' with
  | nil => exact iff_of_true (nil_le _) (nil_le _)
  | cons a l ih =>
    cases l' with
    | nil => exact absurd h (Nat.not_succ_le_zero _)
    | cons b l' =>
      rw [cons_append, cons_le_cons_iff, cons_le_cons_iff, ih (Nat.le_of_succ_le_succ h)]

end

/-! ## Digits -/

theorem digitChar_lt {a b : Nat} (hb : b < 10) (h : a < b) : a.digitChar < b.digitChar := by
  have hall : ∀ b < 10, ∀ a < b, a.digitChar < b.digitChar := by decide
  exact hall b hb a h

theorem digitChar_le {a b : Nat} (hb : b < 10) (h : a ≤ b) : a.digitChar ≤ b.digitChar := by
  rcases Nat.lt_or_eq_of_le h with hlt | rfl
  · exact le_of_lt (digitChar_lt hb hlt)
  · exact le_refl _

theorem length_toDigits (n : Nat) : (Nat.toDigits 10 n).length = Nat.log 10 n + 1 := by
  induction n using Nat.strongRecOn with
  | ind n ih =>
    rcases Nat.lt_or_ge n 10 with hlt | hge
    · rw [Nat.toDigits_of_lt_base hlt, Nat.log_of_lt hlt]
      rfl
    · have hpos := Nat.log_pos (by decide : 1 < 10) hge
      rw [Nat.toDigits_of_base_le (by decide) hge, length_append,
        ih (n / 10) (by omega), Nat.log_div_base]
      simp only [length_singleton]
      omega

variable {k m : Nat}

theorem toDigits_injective (h : Nat.toDigits 10 m = Nat.toDigits 10 k) : m = k := by
  have hread := congrArg (Nat.ofDigitChars 10 · 0) h
  rwa [Nat.ofDigitChars_ten_toDigits, Nat.ofDigitChars_ten_toDigits] at hread

theorem toDigits_le (hlog : Nat.log 10 m = Nat.log 10 k)
    (h : m ≤ k) : Nat.toDigits 10 m ≤ Nat.toDigits 10 k := by
  induction k using Nat.strongRecOn generalizing m with
  | ind k ih =>
    rcases Nat.lt_or_ge k 10 with hlt | hge
    · rw [Nat.toDigits_of_lt_base hlt, Nat.toDigits_of_lt_base (Nat.lt_of_le_of_lt h hlt)]
      rcases (digitChar_le hlt h).lt_or_eq with hdigit | hdigit
      · exact cons_le_cons_iff.mpr (.inl hdigit)
      · rw [hdigit]
    have hm : 10 ≤ m := by
      by_contra hm
      rw [Nat.log_of_lt (Nat.lt_of_not_le hm)] at hlog
      exact absurd hlog.symm (Nat.log_pos (by decide) hge).ne'
    have hlength : Nat.log 10 (m / 10) = Nat.log 10 (k / 10) := by
      rw [Nat.log_div_base, Nat.log_div_base, hlog]
    rw [Nat.toDigits_of_base_le (by decide) hm, Nat.toDigits_of_base_le (by decide) hge,
      append_le_append_iff (by rw [length_toDigits, length_toDigits, hlength])]
    have hle := ih (k / 10) (by omega) hlength (Nat.div_le_div_right h)
    rcases hle.lt_or_eq with hlt | heq
    · exact .inl hlt
    · have hsame := toDigits_injective heq
      refine .inr ⟨heq, ?_⟩
      rcases (digitChar_le (Nat.mod_lt k (by decide))
        (by omega : m % 10 ≤ k % 10)).lt_or_eq with hdigit | hdigit
      · exact cons_le_cons_iff.mpr (.inl hdigit)
      · rw [hdigit]

theorem toDigits_le_iff (hlog : Nat.log 10 m = Nat.log 10 k) :
    Nat.toDigits 10 m ≤ Nat.toDigits 10 k ↔ m ≤ k := by
  refine ⟨fun h => ?_, toDigits_le hlog⟩
  by_contra hlt
  have hback := toDigits_le hlog.symm (Nat.le_of_not_le hlt)
  exact hlt (toDigits_injective (le_antisymm h hback)).le

/-- **NUMBERS AS TEXTS**: a number with no more digits comes first exactly
    if it is not greater than what the other begins with. -/
theorem toString_le_iff (h : Nat.log 10 m ≤ Nat.log 10 k) :
    toString m ≤ toString k ↔ m ≤ k / 10 ^ (Nat.log 10 k - Nat.log 10 m) := by
  rw [String.le_iff_toList_le, Nat.toString_eq_repr, Nat.toString_eq_repr,
    Nat.toList_repr, Nat.toList_repr]
  induction hd : Nat.log 10 k - Nat.log 10 m generalizing k with
  | zero => rw [toDigits_le_iff (by omega), Nat.pow_zero, Nat.div_one]
  | succ d ih =>
    have hge : 10 ≤ k := by
      by_contra hk
      rw [Nat.log_of_lt (Nat.lt_of_not_le hk)] at hd
      omega
    have hlog := Nat.log_div_base 10 k
    rw [Nat.toDigits_of_base_le (by decide) hge,
      le_append_iff (by rw [length_toDigits, length_toDigits]; omega),
      ih (by omega) (by omega), Nat.div_div_eq_div_mul, Nat.pow_succ']

theorem toString_injective (h : toString m = toString k) : m = k := by
  rw [Nat.toString_eq_repr, Nat.toString_eq_repr] at h
  have hlist := congrArg String.toList h
  rw [Nat.toList_repr, Nat.toList_repr] at hlist
  exact toDigits_injective hlist

end N8nDigitOrder
