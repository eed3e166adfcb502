import Mathlib.Data.List.Basic

/-! # Computations that may fail — sequences and folds

    A computation gives a result or an error, and an error ends what is
    computed from it.  `bind_eq_ok` takes a sequence that succeeded apart,
    `foldlM_preserves` is the invariant rule for a loop that may fail. -/

namespace N8nExcept

variable {ε α β : Type}

theorem bind_eq_ok {x : Except ε α} {f : α → Except ε β} {b : β} :
    x >>= f = .ok b ↔ ∃ a, x = .ok a ∧ f a = .ok b := by
  cases x with
  | error e =>
    refine iff_of_false (fun h => by cases h) ?_
    rintro ⟨a, ha, -⟩
    cases ha
  | ok a =>
    refine ⟨fun h => ⟨a, rfl, h⟩, ?_⟩
    rintro ⟨_, ha, hb⟩
    cases ha
    exact hb

/-- A check that fails ends the computation. -/
theorem unless_eq_ok {p : Prop} [Decidable p] {e : ε} {x : Except ε α} {a : α} :
    (if p then Except.error e else x) = .ok a ↔ ¬ p ∧ x = .ok a := by
  by_cases hp : p
  · rw [if_pos hp]
    exact iff_of_false (fun h => by cases h) fun h => h.1 hp
  · rw [if_neg hp]
    exact (and_iff_right hp).symm

/-- A fold that can fail keeps what every step of it keeps. -/
theorem foldlM_preserves {f : β → α → Except ε β} {I : β → Prop}
    {l : List α} {b c : β} (hstep : ∀ b a c, I b → f b a = .ok c → I c)
    (hb : I b) (h : l.foldlM f b = .ok c) : I c := by
  induction l generalizing b with
  | nil =>
    cases h
    exact hb
  | cons a rest ih =>
    obtain ⟨next, hnext, hrest⟩ := bind_eq_ok.mp h
    exact ih (hstep b a next hb hnext) hrest

/-- A fold is the same for two functions that agree as long as an invariant
    holds. -/
theorem foldlM_congr_of {f g : β → α → Except ε β}
    {I : β → Prop} (hf : ∀ b a c, I b → f b a = .ok c → I c)
    (hfg : ∀ b a, I b → f b a = g b a) {b : β} (hb : I b) (l : List α) :
    l.foldlM f b = l.foldlM g b := by
  induction l generalizing b with
  | nil => rfl
  | cons a rest ih =>
    rw [List.foldlM_cons, List.foldlM_cons, ← hfg b a hb]
    rcases hstep : f b a with e | c
    · rfl
    · exact ih (hf b a c hb hstep)

end N8nExcept
