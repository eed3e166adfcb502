import Mathlib.Data.List.Basic
import N8n.RunProofs

/-! # Work stacks — what is taken before what

    A stack of labelled items is worked off from the front.  Taking an item
    can put new items at the front and at the back, under labels that none
    of the items to be compared has.  Each item taken is recorded, together
    with an observation.

    `front_first` is the one fact about such stacks: an item is only taken
    when all items above it were taken, and nothing below it is taken
    before it.  Nothing is assumed about the new items but their labels. -/

namespace N8nWorkStack

open N8nRun List

variable {ℓ ε ω : Type}

/-- The items to be worked off and those taken so far. -/
structure WorkStack (ℓ ε ω : Type) where
  items : List (ℓ × ε)
  taken : List (ℓ × ε × ω)

/-- What happens when an item is taken. -/
structure Turn (ℓ ε ω : Type) where
  front : List (ℓ × ε)
  back : List (ℓ × ε)
  seen : ω

namespace WorkStack

/-- The labels of the items taken so far. -/
def takenLabels (s : WorkStack ℓ ε ω) : List ℓ := s.taken.map Prod.fst

/-- Nothing was taken yet. -/
def start (items : List (ℓ × ε)) : WorkStack ℓ ε ω :=
  { items, taken := [] }

end WorkStack

/-- New items have labels that satisfy `fresh`. -/
def Turn.Fresh (fresh : ℓ → Prop) (e : Turn ℓ ε ω) : Prop := ∀ x ∈ e.front ++ e.back, fresh x.1

/-- The first item is taken; what it brings goes to the front and to the
    back. -/
def Takes (fresh : ℓ → Prop) (s : WorkStack ℓ ε ω) (e : Turn ℓ ε ω) (t : WorkStack ℓ ε ω) : Prop :=
  e.Fresh fresh ∧ ∃ x rest, s.items = x :: rest
    ∧ t = { items := e.front ++ rest ++ e.back
            taken := s.taken ++ [(x.1, x.2, e.seen)] }

/-- The item `x` is still there with the untaken part of `above` over it, or
    it was taken after all of that part. -/
def Guards (above : List (ℓ × ε)) (x : ℓ × ε) (s : WorkStack ℓ ε ω) : Prop :=
  (x.1 ∈ s.takenLabels ∧ ∀ y ∈ above, y.1 ∈ s.takenLabels)
    ∨ ∃ before after, s.items = before ++ x :: after
      ∧ x.1 ∉ s.takenLabels ∧ x.1 ∉ before.map Prod.fst
      ∧ ∀ y ∈ above, y.1 ∈ s.takenLabels ∨ y ∈ before

/-- Nothing labelled `below` was taken, nor will be before `x`. -/
def HoldsBack (below : ℓ) (x : ℓ × ε) (s : WorkStack ℓ ε ω) : Prop :=
  x.1 ∈ s.takenLabels
    ∨ below ∉ s.takenLabels ∧ ∃ before after, s.items = before ++ x :: after
      ∧ below ∉ before.map Prod.fst

section

variable {fresh : ℓ → Prop} {s t : WorkStack ℓ ε ω} {e : Turn ℓ ε ω}

theorem Takes.taken_grows (h : Takes fresh s e t) {l : ℓ}
    (hl : l ∈ s.takenLabels) : l ∈ t.takenLabels := by
  obtain ⟨-, x, rest, -, rfl⟩ := h
  rw [WorkStack.takenLabels, map_append]
  exact mem_append_left _ hl

theorem Turn.Fresh.not_mem (h : e.Fresh fresh) {l : ℓ} (hl : ¬ fresh l) :
    l ∉ e.front.map Prod.fst := by
  intro hmem
  obtain ⟨x, hx, rfl⟩ := mem_map.mp hmem
  exact hl (h x (mem_append_left _ hx))

theorem Guards.takes {above : List (ℓ × ε)} {x : ℓ × ε}
    (hx : ¬ fresh x.1) (hs : Guards above x s) (h : Takes fresh s e t) :
    Guards above x t := by
  rcases hs with ⟨htaken, hall⟩ | ⟨before, after, hitems, hnot, hnew, hrest⟩
  · exact .inl ⟨h.taken_grows htaken, fun y hy => h.taken_grows (hall y hy)⟩
  · obtain ⟨hfresh, z, rest, hz, rfl⟩ := h
    rw [hitems] at hz
    cases before with
    | nil =>
      cases hz
      refine .inl ⟨by simp [WorkStack.takenLabels], fun y hy => ?_⟩
      rcases hrest y hy with hy | hy
      · simp only [WorkStack.takenLabels, map_append]
        exact mem_append_left _ hy
      · cases hy
    | cons b before =>
      cases hz
      refine .inr ⟨e.front ++ before, after ++ e.back, by simp, ?_, ?_, ?_⟩
      · simp only [WorkStack.takenLabels, map_append, mem_append, not_or]
        refine ⟨hnot, ?_⟩
        intro hmem
        exact hnew (by simpa using .inl (mem_singleton.mp hmem))
      · rw [map_append, mem_append, not_or]
        refine ⟨hfresh.not_mem hx, fun hmem => hnew ?_⟩
        exact mem_cons_of_mem _ hmem
      · intro y hy
        rcases hrest y hy with hy | hy
        · refine .inl ?_
          simp only [WorkStack.takenLabels, map_append]
          exact mem_append_left _ hy
        · rcases mem_cons.mp hy with rfl | hy
          · exact .inl (by simp [WorkStack.takenLabels])
          · exact .inr (mem_append_right _ hy)

theorem HoldsBack.takes {below : ℓ} {x : ℓ × ε} (hbelow : ¬ fresh below)
    (hs : HoldsBack below x s) (h : Takes fresh s e t) :
    HoldsBack below x t := by
  rcases hs with htaken | ⟨hnot, before, after, hitems, hnew⟩
  · exact .inl (h.taken_grows htaken)
  · obtain ⟨hfresh, z, rest, hz, rfl⟩ := h
    rw [hitems] at hz
    cases before with
    | nil =>
      cases hz
      exact .inl (by simp [WorkStack.takenLabels])
    | cons b before =>
      cases hz
      refine .inr ⟨?_, e.front ++ before, after ++ e.back, by simp, ?_⟩
      · simp only [WorkStack.takenLabels, map_append, mem_append, not_or]
        refine ⟨hnot, ?_⟩
        intro hmem
        exact hnew (by simpa using .inl (mem_singleton.mp hmem))
      · rw [map_append, mem_append, not_or]
        refine ⟨hfresh.not_mem hbelow, fun hmem => hnew ?_⟩
        exact mem_cons_of_mem _ hmem

end

/-- **FRONT FIRST**: an item is only taken when all items above it were
    taken. -/
theorem front_first {fresh : ℓ → Prop} {above below : List (ℓ × ε)}
    {x : ℓ × ε} (hx : ¬ fresh x.1) (hnew : x.1 ∉ above.map Prod.fst)
    {path : List (Turn ℓ ε ω × WorkStack ℓ ε ω)}
    (hrun : IsRun (Takes fresh) (.start (above ++ x :: below)) path) :
    EveryState (fun s => x.1 ∈ s.takenLabels → ∀ y ∈ above, y.1 ∈ s.takenLabels)
      (.start (above ++ x :: below)) path := by
  have hstart : Guards above x (.start (above ++ x :: below) : WorkStack ℓ ε ω) :=
    .inr ⟨above, below, rfl, not_mem_nil, hnew, fun y hy => .inr hy⟩
  refine (everyState_of_preserved hrun hstart fun s e t hs h => hs.takes hx h).mono ?_
  rintro s (⟨-, hall⟩ | ⟨-, -, -, hnot, -, -⟩) htaken
  · exact hall
  · exact absurd htaken hnot

/-- **BELOW LAST**: what is only below an item is not taken before it. -/
theorem below_last {fresh : ℓ → Prop} {above below : List (ℓ × ε)}
    {x : ℓ × ε} {l : ℓ} (hl : ¬ fresh l) (hnew : l ∉ above.map Prod.fst)
    {path : List (Turn ℓ ε ω × WorkStack ℓ ε ω)}
    (hrun : IsRun (Takes fresh) (.start (above ++ x :: below)) path) :
    EveryState (fun s => l ∈ s.takenLabels → x.1 ∈ s.takenLabels)
      (.start (above ++ x :: below)) path := by
  have hstart : HoldsBack l x (.start (above ++ x :: below) : WorkStack ℓ ε ω) :=
    .inr ⟨not_mem_nil, above, below, rfl, hnew⟩
  refine (everyState_of_preserved hrun hstart fun s e t hs h => hs.takes hl h).mono ?_
  rintro s (htaken | ⟨hnot, -⟩) hbelow
  · exact htaken
  · exact absurd hbelow hnot

/-! ## Working off the front -/

/-- Taking the items of the front one after another, each bringing
    nothing. -/
def workOff (seen : ω) : List (ℓ × ε) → WorkStack ℓ ε ω → List (Turn ℓ ε ω × WorkStack ℓ ε ω)
  | [], _ => []
  | x :: rest, s =>
    let t : WorkStack ℓ ε ω :=
      { items := s.items.tail
        taken := s.taken ++ [(x.1, x.2, seen)] }
    ({ front := [], back := [], seen }, t) :: workOff seen rest t

theorem workOff_isRun (fresh : ℓ → Prop) (seen : ω) {front : List (ℓ × ε)}
    {s : WorkStack ℓ ε ω} {rest : List (ℓ × ε)}
    (h : s.items = front ++ rest) :
    IsRun (Takes fresh) s (workOff seen front s) := by
  induction front generalizing s with
  | nil => exact trivial
  | cons x front ih =>
    refine ⟨⟨(fun y hy => by cases hy), x, front ++ rest, h, ?_⟩, ih ?_⟩
    · simp [h]
    · show s.items.tail = front ++ rest
      rw [h]
      rfl

theorem lastState_workOff (seen : ω) (front : List (ℓ × ε)) (s : WorkStack ℓ ε ω) :
    (lastState s (workOff seen front s)).taken
      = s.taken ++ front.map fun x => (x.1, x.2, seen) := by
  induction front generalizing s with
  | nil => simp [workOff, lastState]
  | cons x front ih => simp [workOff, lastState, ih]

end N8nWorkStack
