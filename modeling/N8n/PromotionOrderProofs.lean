import N8n.MainLoopProofs
import N8n.DigitOrderProofs

/-! # Which waiting entry is taken first

    When the stack runs out the loop takes the entry of a waiting node whose
    run index comes first as a text.  "The run-index of the earliest
    outstanding one" it is exactly if no outstanding index begins with
    digits that are less than the least index (`oldestFirst_iff`): so it is
    below ten, and not for 2 and 10. -/

namespace N8nPromotionOrder

open N8nRun N8nOrderedMap N8nWorkflow N8nWorkflowExecute N8nEngineRequest List
open N8nMainLoop N8nDigitOrder

variable {P V : Type}

/-- An entry that was taken out: the table it was taken from, the node and
    the run index. -/
structure Taken (V : Type) where
  waitingExecution : IWaitingForExecution V
  nodeName : String
  runIndex : Nat

/-- The run indexes that were outstanding for the node. -/
def Taken.outstanding (taken : Taken V) : List Nat :=
  (waitingNode taken.waitingExecution taken.nodeName).keys

/-- The table without the entry. -/
def Taken.rest (taken : Taken V) : IWaitingForExecution V :=
  setWaiting taken.waitingExecution taken.nodeName
    ((waitingNode taken.waitingExecution taken.nodeName).delete taken.runIndex)

section

variable (ctx : Context P) (workflow : Workflow P)

/-- The entries that `promote` takes out, one after the other. -/
def takes : Nat → IWaitingForExecution V → List (Taken V)
  | 0, _ => []
  | fuel + 1, waitingExecution =>
    match lookThrough ctx workflow waitingExecution waitingExecution.keys with
    | some (nodeName, .take runIndex executionData) =>
      let taken : Taken V := { waitingExecution, nodeName, runIndex }
      match executionData with
      | none => taken :: takes fuel taken.rest
      | some _ => [taken]
    | _ => []

/-- The entries that the loop takes out when the stack has run out. -/
def takenAt (l : MainLoop P V) : Event V → List (Taken V)
  | .finish =>
    if l.state.nodeExecutionStack = [] then
      takes ctx l.workflow (weighWaiting (fun _ => 1) l.state.waitingExecution + 1)
        l.state.waitingExecution
    else []
  | _ => []

/-- What is taken out is the entry with the least run index. -/
def OldestFirst (l : MainLoop P V) (e : Event V) : Prop :=
  ∀ taken ∈ takenAt ctx l e, ∀ runIndex ∈ taken.outstanding, taken.runIndex ≤ runIndex

/-- The first digits of every index, as many as the least one has, form a
    number that is not less than the least one. -/
def NoneBeginsBelow (indexes : List Nat) : Prop :=
  ∀ least ∈ indexes, (∀ index ∈ indexes, least ≤ index) → ∀ index ∈ indexes,
      least ≤ index / 10 ^ (Nat.log 10 index - Nat.log 10 least)

/-- So it is for every node that an entry is taken from. -/
def IndexesInOrder (l : MainLoop P V) (e : Event V) : Prop :=
  ∀ taken ∈ takenAt ctx l e, NoneBeginsBelow taken.outstanding

end

section

variable {ctx : Context P} {workflow : Workflow P}
  {waitingExecution : IWaitingForExecution V}

theorem lookAt_take_first {nodeName : String} {runIndex : Nat} {x : Option (IExecuteData P V)}
    (h : lookAt ctx workflow waitingExecution nodeName = .take runIndex x) :
    runIndex ∈ (waitingNode waitingExecution nodeName).keys
      ∧ ∀ index ∈ (waitingNode waitingExecution nodeName).keys,
        toString runIndex ≤ toString index := by
  rw [lookAt] at h
  cases hnode : workflow.nodes.get? nodeName with
  | none => rw [hnode] at h; cases h
  | some node =>
    simp only [hnode] at h
    split at h
    · cases h
    split at h
    · cases h
    cases hfirst : byText (waitingNode waitingExecution nodeName) with
    | nil => simp only [hfirst] at h; cases h
    | cons first rest =>
      have hin : first ∈ (waitingNode waitingExecution nodeName).entries :=
        mem_byText.mp (hfirst ▸ mem_cons_self ..)
      have htake : runIndex = first.1 := by
        simp only [hfirst] at h
        split at h
        · cases h
        · split at h
          · cases h
          · split at h <;> cases h <;> rfl
      subst htake
      refine ⟨mem_map_of_mem hin, fun index hindex => ?_⟩
      obtain ⟨p, hp, rfl⟩ := mem_map.mp hindex
      exact byText_head hfirst hp

theorem mem_takes {fuel : Nat} {taken : Taken V}
    (h : taken ∈ takes ctx workflow fuel waitingExecution) :
    taken.runIndex ∈ taken.outstanding
      ∧ ∀ index ∈ taken.outstanding, toString taken.runIndex ≤ toString index := by
  induction fuel generalizing waitingExecution with
  | zero => cases h
  | succ fuel ih =>
    rw [takes] at h
    cases hlook : lookThrough ctx workflow waitingExecution waitingExecution.keys with
    | none => rw [hlook] at h; cases h
    | some found =>
      obtain ⟨nodeName, look⟩ := found
      obtain ⟨-, -, hat⟩ := lookThrough_some hlook
      rw [hlook] at h
      cases look with
      | skip => cases h
      | throw error => cases h
      | take runIndex executionData =>
        cases executionData with
        | some executionData =>
          rw [mem_singleton.mp h]
          exact lookAt_take_first hat
        | none =>
          rcases mem_cons.mp h with rfl | h
          · exact lookAt_take_first hat
          · exact ih h

end

/-! ## The least index and the first text -/

theorem least_iff_noneBeginsBelow {indexes : List Nat} {first : Nat}
    (hmem : first ∈ indexes) (hfirst : ∀ index ∈ indexes, toString first ≤ toString index) :
    (∀ index ∈ indexes, first ≤ index) ↔ NoneBeginsBelow indexes := by
  constructor
  · intro hleast least hin hle index hindex
    obtain rfl : least = first := Nat.le_antisymm (hle first hmem) (hleast least hin)
    exact (toString_le_iff (Nat.log_mono_right (hle index hindex))).mp (hfirst index hindex)
  · intro hnone
    obtain ⟨least, hleast⟩ := Option.isSome_iff_exists.mp (isSome_min?_of_mem hmem)
    obtain ⟨hin, hle⟩ := min?_eq_some_iff.mp hleast
    have htext := (toString_le_iff
      (Nat.log_mono_right (hle first hmem))).mpr (hnone least hin hle first hmem)
    have hsame := toString_injective (String.le_antisymm htext (hfirst least hin))
    rw [← hsame]
    exact hle

/-- **WAITING ENTRIES** are taken oldest first along a run exactly when at
    every step none of the indexes at hand begins below the least. -/
theorem oldestFirst_iff {ctx : Context P} {l : MainLoop P V} {path : List (Event V × MainLoop P V)}
    (hrun : IsRun (Step ctx) l path) :
    EveryStep (OldestFirst ctx) l path ↔ EveryStep (IndexesInOrder ctx) l path := by
  refine everyStep_congr (I := fun _ => True) hrun trivial
    (fun _ _ _ _ _ => trivial) fun l e _ _ _ => ?_
  refine forall₂_congr fun taken htaken => ?_
  cases e with
  | finish =>
    rw [takenAt] at htaken
    split at htaken
    · obtain ⟨hmem, hfirst⟩ := mem_takes htaken
      exact least_iff_noneBeginsBelow hmem hfirst
    · cases htaken
  | take => cases htaken
  | runTry t again waitTill => cases htaken
  | giveUp => cases htaken
  | cancel => cases htaken

/-! ## One drain of the stack -/

section

open N8nPartialExecution

/-- An entry with data at the first of two inputs. -/
def firstOnly : WaitingEntry Unit :=
  { data := mainOnly (oneItem ++ [.null])
    source := mainOnly [.value ⟨"First", some 0, some 0⟩, .null] }

/-- A node is about to run while entries of these run indexes wait. -/
def waitingFor (indexes : List Nat) : MainLoop Unit Unit :=
  .start (intoMerge ["First", "Second"])
    { runData := .empty
      nodeExecutionStack := [itemFor "First"]
      waitingExecution := OrderedMap.empty.set "Merge"
        (indexes.foldl (fun waiting index => waiting.set index firstOnly)
          .empty) }

/-- It has returned no items, and the stack has run out. -/
def ranOut (indexes : List Nat) : MainLoop Unit Unit :=
  next mergeContext (next mergeContext (waitingFor indexes) .take)
    (.runTry (.data (some [.value []])) 0 false)

/-- The loop then looks for a waiting entry. -/
def drain (indexes : List Nat) : List (Event Unit × MainLoop Unit Unit) :=
  pathOf (next mergeContext) (waitingFor indexes)
    [.take, .runTry (.data (some [.value []])) 0 false, .finish]

theorem isRun_drain {indexes : List Nat} (h : (ranOut indexes).ended = none
      ∧ (ranOut indexes).phase = .promoting) :
    IsRun (Step mergeContext) (waitingFor indexes) (drain indexes) :=
  ⟨⟨⟨rfl, rfl, cons_ne_nil _ _⟩, rfl⟩, ⟨⟨rfl, _, rfl, Nat.one_pos⟩, rfl⟩, ⟨h, rfl⟩, trivial⟩

/-- What the look takes out. -/
def takenFrom (indexes : List Nat) : List (Taken Unit) :=
  takenAt mergeContext (ranOut indexes) .finish

theorem everyStep_drain {indexes : List Nat} (C : MainLoop Unit Unit → Event Unit → Prop) :
    EveryStep C (waitingFor indexes) (drain indexes)
      ↔ C (waitingFor indexes) .take
        ∧ C (next mergeContext (waitingFor indexes) .take)
          (.runTry (.data (some [.value []])) 0 false)
        ∧ C (ranOut indexes) .finish ∧ True :=
  Iff.rfl

theorem oldestFirst_below_ten :
    IsRun (Step mergeContext) (waitingFor [2, 5, 9]) (drain [2, 5, 9])
      ∧ EveryStep (OldestFirst mergeContext) (waitingFor [2, 5, 9]) (drain [2, 5, 9]) := by
  have hrun : IsRun (Step mergeContext) (waitingFor [2, 5, 9])
      (drain [2, 5, 9]) := isRun_drain (by decide +kernel)
  refine ⟨hrun, (oldestFirst_iff hrun).mpr ((everyStep_drain _).mpr
    ⟨fun _ h => (by cases h), fun _ h => (by cases h), ?_, trivial⟩)⟩
  have houtstanding : ∀ taken ∈ takenFrom [2, 5, 9], taken.outstanding = [2, 5, 9] := by
    decide +kernel
  intro taken htaken
  rw [houtstanding taken htaken]
  have hlog : ∀ index ∈ [2, 5, 9], Nat.log 10 index = 0 := by decide
  intro least hleast hle index hindex
  rw [hlog index hindex, Nat.zero_sub, Nat.pow_zero, Nat.div_one]
  exact hle index hindex

/-- With the run indexes from 2 to 10 outstanding the last is taken. -/
theorem not_oldestFirst_ten :
    IsRun (Step mergeContext) (waitingFor (List.range' 2 9)) (drain (List.range' 2 9))
      ∧ ¬ EveryStep (OldestFirst mergeContext) (waitingFor (List.range' 2 9))
        (drain (List.range' 2 9)) := by
  refine ⟨isRun_drain (by decide +kernel), fun h => ?_⟩
  have hten : ∃ taken ∈ takenFrom (List.range' 2 9),
      taken.runIndex = 10 ∧ 2 ∈ taken.outstanding := by
    decide +kernel
  obtain ⟨taken, htaken, hindex, htwo⟩ := hten
  have hle := ((everyStep_drain _).mp h).2.2.1 taken htaken 2 htwo
  omega

end

end N8nPromotionOrder
