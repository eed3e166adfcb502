/-! # Runs of a labelled step relation — states, steps and the first bad step

    A system is given by a relation `step s e t`: in state `s` the event `e`
    can happen and leads to `t`.  A run is a path of events and the states
    they lead to, so "in every state reached" and "at every step taken" are
    plain statements about the path.

    The engine of this file is `everyState_iff_everyStep`: when a property
    survives exactly the steps that meet a condition, it holds in every state
    of a run if and only if every step of the run meets the condition. -/

namespace N8nRun

variable {S E : Type}

/-- The path is a run of the system from `s`. -/
def IsRun (step : S → E → S → Prop) : S → List (E × S) → Prop
  | _, [] => True
  | s, (e, t) :: rest => step s e t ∧ IsRun step t rest

/-- The property holds at the start and in every state of the path. -/
def EveryState (P : S → Prop) (s : S) (path : List (E × S)) : Prop := P s ∧ ∀ p ∈ path, P p.2

/-- The property holds at the start or in some state of the path. -/
def SomeState (P : S → Prop) (s : S) (path : List (E × S)) : Prop := P s ∨ ∃ p ∈ path, P p.2

/-- Every step of the path is taken from a state that meets the condition
    on that state and the event. -/
def EveryStep (C : S → E → Prop) : S → List (E × S) → Prop
  | _, [] => True
  | s, (e, t) :: rest => C s e ∧ EveryStep C t rest

/-- The state a path ends in. -/
def lastState : S → List (E × S) → S
  | s, [] => s
  | _, (_, t) :: rest => lastState t rest

/-- The path of a function of state and event along a list of events. -/
def pathOf (next : S → E → S) : S → List E → List (E × S)
  | _, [] => []
  | s, e :: rest => (e, next s e) :: pathOf next (next s e) rest

variable {s : S} {P : S → Prop}

theorem everyState_nil : EveryState (E := E) P s [] ↔ P s := by
  constructor
  · intro h
    exact h.1
  · intro h
    exact ⟨h, fun p hp => by cases hp⟩

theorem everyState_cons {t : S} {e : E} {rest : List (E × S)} :
    EveryState P s ((e, t) :: rest) ↔ P s ∧ EveryState P t rest := by
  constructor
  · rintro ⟨hs, hmem⟩
    refine ⟨hs, hmem (e, t) (List.mem_cons_self ..), ?_⟩
    intro p hp
    exact hmem p (List.mem_cons_of_mem _ hp)
  · rintro ⟨hs, ht, hmem⟩
    refine ⟨hs, ?_⟩
    intro p hp
    rcases List.mem_cons.mp hp with heq | hrest
    · subst heq
      exact ht
    · exact hmem p hrest

variable {path : List (E × S)}

theorem EveryState.mono {Q : S → Prop} (h : ∀ s, P s → Q s) (hP : EveryState P s path) :
    EveryState Q s path :=
  ⟨h s hP.1, fun p hp => h p.2 (hP.2 p hp)⟩

theorem EveryState.last (hP : EveryState P s path) : P (lastState s path) := by
  induction path generalizing s with
  | nil => exact hP.1
  | cons p rest ih =>
    exact ih (everyState_cons.mp hP).2

variable {step : S → E → S → Prop} {I : S → Prop}

/-- **INVARIANT RULE**: what holds at the start and survives every step
    holds in every state of a run. -/
theorem everyState_of_preserved (hrun : IsRun step s path) (hs : I s)
    (hstep : ∀ s e t, I s → step s e t → I t) : EveryState I s path := by
  induction path generalizing s with
  | nil => exact everyState_nil.mpr hs
  | cons p rest ih =>
    obtain ⟨e, t⟩ := p
    obtain ⟨hst, hrest⟩ := hrun
    exact everyState_cons.mpr ⟨hs, ih hrest (hstep s e t hs hst)⟩

variable {C : S → E → Prop}

section

variable (hrun : IsRun step s path) (hs : I s)
include hrun hs

/-- The invariant rule for runs whose steps all meet a condition. -/
theorem everyState_of_everyStep (hstep : ∀ s e t, I s → step s e t → C s e → I t)
    (hC : EveryStep C s path) : EveryState I s path := by
  induction path generalizing s with
  | nil => exact everyState_nil.mpr hs
  | cons p rest ih =>
    obtain ⟨e, t⟩ := p
    obtain ⟨hst, hrest⟩ := hrun
    obtain ⟨hc, hCrest⟩ := hC
    exact everyState_cons.mpr ⟨hs, ih hrest (hstep s e t hs hst hc) hCrest⟩

/-- The invariant rule for what survives every step until a goal is
    reached. -/
theorem everyState_or_someState {G : S → Prop} (hstep : ∀ s e t, I s → ¬ G s → step s e t → I t) :
    EveryState I s path ∨ SomeState G s path := by
  induction path generalizing s with
  | nil => exact Or.inl (everyState_nil.mpr hs)
  | cons p rest ih =>
    obtain ⟨e, t⟩ := p
    obtain ⟨hst, hrest⟩ := hrun
    by_cases hg : G s
    · exact Or.inr (Or.inl hg)
    · rcases ih hrest (hstep s e t hs hg hst) with hall | hgt | ⟨q, hq, hgq⟩
      · exact Or.inl (everyState_cons.mpr ⟨hs, hall⟩)
      · exact Or.inr (Or.inr ⟨(e, t), List.mem_cons_self .., hgt⟩)
      · exact Or.inr (Or.inr ⟨q, List.mem_cons_of_mem _ hq, hgq⟩)

/-- Two conditions on steps that agree wherever the invariant holds are met
    along the same runs. -/
theorem everyStep_congr {D : S → E → Prop} (hstep : ∀ s e t, I s → step s e t → I t)
    (hiff : ∀ s e t, I s → step s e t → (C s e ↔ D s e)) :
    EveryStep C s path ↔ EveryStep D s path := by
  induction path generalizing s with
  | nil => exact Iff.rfl
  | cons p rest ih =>
    obtain ⟨e, t⟩ := p
    obtain ⟨hst, hrest⟩ := hrun
    exact and_congr (hiff s e t hs hst) (ih hrest (hstep s e t hs hst))

/-- **FIRST BAD STEP**: if the invariant `I` implies `P`, survives the steps
    that meet `C`, and every other step from an `I`-state breaks `P`, then
    `P` holds along a run exactly when all its steps meet `C`. -/
theorem everyState_iff_everyStep (hP : ∀ s, I s → P s)
    (hgood : ∀ s e t, I s → step s e t → C s e → I t)
    (hbad : ∀ s e t, I s → step s e t → ¬ C s e → ¬ P t) :
    EveryState P s path ↔ EveryStep C s path := by
  constructor
  · intro hall
    induction path generalizing s with
    | nil => exact trivial
    | cons p rest ih =>
      obtain ⟨e, t⟩ := p
      obtain ⟨hst, hrest⟩ := hrun
      have hPt := (everyState_cons.mp hall).2
      by_cases hc : C s e
      · exact ⟨hc, ih hrest (hgood s e t hs hst hc) hPt⟩
      · exact absurd hPt.1 (hbad s e t hs hst hc)
  · intro hC
    exact (everyState_of_everyStep hrun hs hgood hC).mono hP

end

/-! ## Lists that grow along a run -/

/-- An entry of a list that has grown by one is an old one or the last. -/
theorem getElem?_concat_some {α : Type} {l : List α} {a b : α} {i : Nat}
    (h : (l ++ [a])[i]? = some b) :
    l[i]? = some b ∨ i = l.length ∧ b = a := by
  rcases Nat.lt_or_ge i l.length with hlt | hge
  · rw [List.getElem?_append_left hlt] at h
    exact .inl h
  · rw [List.getElem?_append_right hge] at h
    obtain ⟨hlt, hget⟩ := List.getElem?_eq_some_iff.mp h
    rw [List.length_singleton] at hlt
    rw [List.getElem_singleton] at hget
    exact .inr ⟨by omega, hget.symm⟩

/-- The old entries stay where they are. -/
theorem getElem?_concat_of_some {α : Type} {l : List α} {a b : α} {i : Nat}
    (h : l[i]? = some b) : (l ++ [a])[i]? = some b := by
  rw [List.getElem?_append_left (List.getElem?_eq_some_iff.mp h).1]
  exact h

end N8nRun
