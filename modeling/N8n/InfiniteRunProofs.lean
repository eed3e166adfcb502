import Mathlib.Order.Filter.AtTopBot.Basic
import Mathlib.Order.Filter.Finite

/-! # Infinite runs — what holds from some time on, and what happens at last

    A run that never ends gives a state and an event for every time.  The
    rules are those of a proof about progress: what survives every step holds
    at all later times (`invariant_from`), a property holds forever or is
    lost at some step (`always_or_leaves`), and finitely many things that are
    so from some time on are so together (`eventually_forall_mem`). -/

namespace N8nInfiniteRun

open Filter

variable {S E : Type} {step : S → E → S → Prop}

/-- The states of a run and the events that lead from each to the next. -/
structure InfiniteRun (step : S → E → S → Prop) where
  state : Nat → S
  event : Nat → E
  isStep : ∀ n, step (state n) (event n) (state (n + 1))

namespace InfiniteRun

/-- The run of a function of state and event along a stream of events. -/
def stateOf (next : S → E → S) (s : S) (event : Nat → E) : Nat → S
  | 0 => s
  | n + 1 => next (stateOf next s event n) (event n)

variable (run : InfiniteRun step)

/-- **INVARIANT RULE**: what holds at one time and survives every step holds
    at all later times. -/
theorem invariant_from {I : S → Prop} {n m : Nat} (hnm : n ≤ m) (hstart : I (run.state n))
    (hstep : ∀ k, n ≤ k → I (run.state k) → I (run.state (k + 1))) :
    I (run.state m) := by
  induction m, hnm using Nat.le_induction with
  | base => exact hstart
  | succ k hk ih => exact hstep k hk ih

/-- A property holds from some time on, or a step takes it away. -/
theorem always_or_leaves {P : S → Prop} {n : Nat} (hstart : P (run.state n)) :
    (∀ m, n ≤ m → P (run.state m)) ∨ ∃ m, n ≤ m ∧ P (run.state m) ∧ ¬ P (run.state (m + 1)) := by
  by_cases hleaves : ∃ m, n ≤ m ∧ P (run.state m) ∧ ¬ P (run.state (m + 1))
  · exact .inr hleaves
  · left
    intro m hm
    refine run.invariant_from hm hstart fun k hk hPk => ?_
    by_contra hnot
    exact hleaves ⟨k, hk, hPk, hnot⟩

/-- Finitely many things that each hold from some time on hold together from
    some time on. -/
theorem eventually_forall_mem {α : Type} {P : α → Nat → Prop} {l : List α}
    (h : ∀ a ∈ l, ∃ n, ∀ m, n ≤ m → P a m) :
    ∃ n, ∀ m, n ≤ m → ∀ a ∈ l, P a m := by
  have hall : ∀ᶠ m in atTop, ∀ a ∈ {a | a ∈ l}, P a m := by
    refine (eventually_all_finite l.finite_toSet).mpr fun a ha => ?_
    exact eventually_atTop.mpr (h a ha)
  exact eventually_atTop.mp hall

end InfiniteRun

end N8nInfiniteRun
