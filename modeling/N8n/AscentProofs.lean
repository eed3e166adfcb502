import Mathlib.Algebra.BigOperators.Intervals

/-! # The ascent of a profile — how much it climbs in all

    A profile is a function from positions to heights.  Its ascent between
    two positions is the sum of its climbs, and its falls count nothing.

    From the ground up, the ascent is at least the greatest height.
    `ascent_eq_iff` shows that it is no more exactly when the profile has no
    valley: no position that is lower than one before and one after it. -/

namespace N8nAscent

variable {h : Nat → Nat} {a b c n : Nat}

/-- The sum of the climbs from one position to another. -/
def ascent (h : Nat → Nat) (a b : Nat) : Nat := ∑ i ∈ Finset.Ico a b, (h (i + 1) - h i)

/-- No position is lower than one before and one after it. -/
def NoValley (h : Nat → Nat) : Prop := ∀ i j k, i < j → j < k → min (h i) (h k) ≤ h j

theorem ascent_self : ascent h a a = 0 := by
  rw [ascent, Finset.Ico_self, Finset.sum_empty]

theorem ascent_succ (hab : a ≤ b) : ascent h a (b + 1) = ascent h a b + (h (b + 1) - h b) :=
  Finset.sum_Ico_succ_top hab _

theorem ascent_add (hab : a ≤ b) (hbc : b ≤ c) : ascent h a b + ascent h b c = ascent h a c :=
  Finset.sum_Ico_consecutive _ hab hbc

theorem le_ascent (hab : a ≤ b) : h b ≤ h a + ascent h a b := by
  induction b, hab using Nat.le_induction with
  | base => omega
  | succ b hab ih =>
    rw [ascent_succ hab]
    omega

theorem ascent_of_rising (hab : a ≤ b) (hrise : ∀ i, a ≤ i → i < b → h i ≤ h (i + 1)) :
    h a + ascent h a b = h b := by
  induction b, hab using Nat.le_induction with
  | base => rw [ascent_self, Nat.add_zero]
  | succ b hab ih =>
    have hkept := ih fun i hi hib => hrise i hi (Nat.lt_succ_of_lt hib)
    have hlast := hrise b hab (Nat.lt_succ_self b)
    rw [ascent_succ hab]
    omega

theorem ascent_of_falling (hfall : ∀ i, a ≤ i → i < b → h (i + 1) ≤ h i) : ascent h a b = 0 := by
  refine Finset.sum_eq_zero fun i hi => ?_
  obtain ⟨hai, hib⟩ := Finset.mem_Ico.mp hi
  exact Nat.sub_eq_zero_of_le (hfall i hai hib)

theorem ascent_lower {h' : Nat → Nat} {p : Nat} (hpn : p + 1 < n)
    (hlower : ∀ i, h i = h' i + if i = p + 1 then 1 else 0) :
    ascent h' 0 n + (if h p < h (p + 1) then 1 else 0)
      = ascent h 0 n + if h' (p + 1) < h' (p + 2) then 1 else 0 := by
  have hstep : ∀ i ∈ Finset.Ico 0 n, (h' (i + 1) - h' i)
          + (if i = p then if h p < h (p + 1) then 1 else 0 else 0)
        = (h (i + 1) - h i)
          + if i = p + 1 then if h' (p + 1) < h' (p + 2) then 1 else 0
            else 0 := by
    intro i _
    have h₀ := hlower i
    have h₁ := hlower (i + 1)
    rcases Nat.lt_trichotomy i p with hlt | rfl | hgt
    · rw [if_neg (show ¬ i = p + 1 by omega)] at h₀ ⊢
      rw [if_neg (show ¬ i + 1 = p + 1 by omega)] at h₁
      rw [if_neg (show ¬ i = p by omega)]
      omega
    · rw [if_neg (show ¬ i = i + 1 by omega)] at h₀ ⊢
      rw [if_pos rfl] at h₁ ⊢
      split <;> omega
    · rw [if_neg (show ¬ i + 1 = p + 1 by omega)] at h₁
      rw [if_neg (show ¬ i = p by omega)]
      by_cases hi : i = p + 1
      · subst hi
        rw [if_pos rfl] at h₀ ⊢
        have h₃ : h' (p + 1 + 1) = h' (p + 2) := rfl
        split <;> omega
      · rw [if_neg hi] at h₀ ⊢
        omega
  have hp : p ∈ Finset.Ico 0 n := Finset.mem_Ico.mpr (by omega)
  have hp' : p + 1 ∈ Finset.Ico 0 n := Finset.mem_Ico.mpr (by omega)
  have hsum := Finset.sum_congr rfl hstep
  rw [Finset.sum_add_distrib, Finset.sum_add_distrib, Finset.sum_ite_eq',
    Finset.sum_ite_eq', if_pos hp, if_pos hp'] at hsum
  exact hsum

/-- **NO VALLEY**: a profile from the ground climbs no more than its
    greatest height exactly when it has no valley. -/
theorem ascent_eq_iff {greatest : Nat} (hground : h 0 = 0) (hend : ∀ i, n < i → h i = 0)
    (hle : ∀ i, h i ≤ greatest) (hmax : ∃ i ≤ n, h i = greatest) :
    ascent h 0 n = greatest ↔ NoValley h := by
  obtain ⟨p, hpn, hp⟩ := hmax
  constructor
  · intro heq i j k hij hjk
    by_contra hvalley
    have hkn : k ≤ n := by
      by_contra hnk
      have hzero := hend k (by omega)
      omega
    rcases Nat.lt_or_ge j p with hjp | hpj
    · -- it falls from `i` to `j`, and climbs from there to the greatest
      have hi := le_ascent (h := h) (Nat.zero_le i)
      have hgreatest := le_ascent (h := h) (Nat.le_of_lt hjp)
      have h₁ := ascent_add (h := h) (Nat.zero_le i) (Nat.le_of_lt hij)
      have h₂ := ascent_add (h := h) (Nat.zero_le j) (Nat.le_of_lt hjp)
      have h₃ := ascent_add (h := h) (Nat.zero_le p) hpn
      omega
    · -- it climbs to the greatest, and again from `j` to `k`
      have hgreatest := le_ascent (h := h) (Nat.zero_le p)
      have hk := le_ascent (h := h) (Nat.le_of_lt hjk)
      have h₁ := ascent_add (h := h) (Nat.zero_le p) hpj
      have h₂ := ascent_add (h := h) (Nat.zero_le j) (Nat.le_of_lt hjk)
      have h₃ := ascent_add (h := h) (Nat.zero_le k) hkn
      omega
  · intro hno
    have hrise : ∀ i, 0 ≤ i → i < p → h i ≤ h (i + 1) := by
      intro i _ hip
      rcases Nat.lt_or_ge (i + 1) p with hlt | hge
      · have hnot := hno i (i + 1) p (Nat.lt_succ_self i) hlt
        have hle := hle i
        omega
      · have heq : i + 1 = p := by omega
        rw [heq, hp]
        exact hle i
    have hfall : ∀ i, p ≤ i → i < n → h (i + 1) ≤ h i := by
      intro i hpi _
      rcases Nat.eq_or_lt_of_le hpi with rfl | hlt
      · rw [hp]
        exact hle (p + 1)
      · have hnot := hno p i (i + 1) hlt (Nat.lt_succ_self i)
        have hle := hle (i + 1)
        omega
    have hup := ascent_of_rising (Nat.zero_le p) hrise
    have hdown := ascent_of_falling hfall
    have hsum := ascent_add (h := h) (Nat.zero_le p) hpn
    omega

end N8nAscent
