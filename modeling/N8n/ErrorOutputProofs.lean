import Mathlib.Algebra.Order.BigOperators.Group.Finset
import N8n.PairedItemProofs

/-! # The error output — sorting the items of a node

    A node that continues on its error output returns success items and error
    items side by side.  `handleNodeErrorOutput` takes the items out of each
    array one by one, gathers those with an error for the last main output,
    and adds to each the JSON of the input item it came from.

    What is seen of an output is what is left of its array (`seen`): nothing,
    if an earlier output is the same array.  `holds_step` goes over one
    output.  `routesAll_iff` tells when nothing is lost: if each input item is
    found, and no array is used twice. -/

namespace N8nErrorOutput

open N8nOrderedMap N8nPairedItem N8nWorkflow List
open N8nWorkflowExecute (ISourceData ITaskDataConnectionsSource Slot)

/-! ## The items of a node -/

/-- An item with the fields that are looked at, and the others. -/
structure INodeExecutionData (V E R : Type) where
  json : OrderedMap String V
  error : Option E
  pairedItem : PairedItems
  others : R

/-- The data proxy, the JSON of the items in the run data, the values of JSON
    that count as true, the source of the execution, and the room on the stack
    of calls. -/
structure Context (I V : Type) where
  dataProxy : WorkflowDataProxy I
  json : I → OrderedMap String V
  truthy : V → Bool
  source : Option ITaskDataConnectionsSource
  stack : Nat

section

variable {I V E R : Type} (that : Context I V)

def hasTruthy (json : OrderedMap String V) (key : String) : Bool :=
  match json.get? key with
  | some value => that.truthy value
  | none => false

/-- There is an `errorData`: the error of the item, or an `error` that is all
    of the JSON but for a `message`. -/
def isErrorItem (item : INodeExecutionData V E R) : Bool :=
  item.error.isSome
    || (hasTruthy that item.json "error" && item.json.size == 1)
    || (hasTruthy that item.json "error" && hasTruthy that item.json "message"
        && item.json.size == 2)

/-- A number alone is not looked at, the first of many is. -/
def pairedItemData (item : INodeExecutionData V E R) : Option PairedItem :=
  match item.pairedItem with
  | .one (.data pairedItem) => some (.data pairedItem)
  | .many (paired :: _) => some paired
  | _ => none

def pairedItemInputIndex : PairedItem → Int
  | .number _ => 0
  | .data pairedItem => pairedItem.input.getD 0

/-- `{ ...first, ...second }`. -/
def spread (first second : OrderedMap String V) : OrderedMap String V :=
  second.entries.foldl (fun json entry => json.set entry.1 entry.2) first

variable [DecidableEq I]

/-- The search from the source that feeds the input, back to that source. -/
def constPairedItem (sourceData : ISourceData) (paired : PairedItem) : Except Thrown (Option I) :=
  run that.dataProxy sourceData.previousNode "$getPairedItem"
    ⟨that.stack, some sourceData, paired, none⟩

/-- What is pushed to the error items.  Reading a field of a source or an
    item that is not there is a `TypeError`. -/
def errorItem (item : INodeExecutionData V E R) : Except Thrown (INodeExecutionData V E R) :=
  match that.source, pairedItemData item with
  | some source, some paired =>
    match (source.get? .main).bind (elementAt · (pairedItemInputIndex paired)) with
    | some (.value sourceData) =>
      match constPairedItem that sourceData paired with
      | .error thrown => .error thrown
      | .ok none => .error .typeError
      | .ok (some found) => .ok { item with json := spread (that.json found) item.json }
    | _ => .error .typeError
  | _, _ => .ok item

/-- The loop over the items of an output; `undefined` is skipped. -/
def routeItems : List (Option (INodeExecutionData V E R)) →
    List (INodeExecutionData V E R) → List (INodeExecutionData V E R) → Except Thrown
        (List (INodeExecutionData V E R) × List (INodeExecutionData V E R))
  | [], successItems, errorItems => .ok (successItems, errorItems)
  | none :: items, successItems, errorItems => routeItems items successItems errorItems
  | some item :: items, successItems, errorItems =>
    if isErrorItem that item then
      match errorItem that item with
      | .error thrown => .error thrown
      | .ok pushed => routeItems items successItems (errorItems ++ [pushed])
    else routeItems items (successItems ++ [item]) errorItems

end

/-! ## The outputs of a node -/

/-- An array the node returned, or one of `successItems` and `errorItems`. -/
inductive Output (α : Type) where
  | given (array : Nat)
  | made (items : List α)

/-- `nodeSuccessData`.  Two outputs can be one array, and the loop empties
    the arrays it goes over. -/
structure NodeData (α : Type) where
  arrays : Nat → List (Option α)
  outputs : List (Option (Output α))

namespace NodeData

variable {α : Type}

def output (data : NodeData α) (index : Nat) : Option (Output α) := data.outputs[index]?.join

def read (data : NodeData α) (index : Nat) : List (Option α) :=
  match data.output index with
  | some (.given array) => data.arrays array
  | some (.made items) => items.map some
  | none => []

/-- `nodeSuccessData[index] = items`; the array grows to the index. -/
def assign (data : NodeData α) (index : Nat) (items : List α) : NodeData α :=
  { data with
    outputs :=
      (data.outputs ++ List.replicate (index + 1 - data.outputs.length) none).set
        index (some (.made items)) }

/-- `while (items.length) items.shift()`. -/
def shiftAll (data : NodeData α) (index : Nat) : NodeData α :=
  match data.output index with
  | some (.given array) => { data with arrays := Function.update data.arrays array [] }
  | _ => data

/-- The array the node returned for an output. -/
def array (data : NodeData α) (index : Nat) : Option Nat :=
  match data.output index with
  | some (.given array) => some array
  | _ => none

theorem array_eq_some {data : NodeData α} {index array : Nat} :
    data.array index = some array ↔ data.output index = some (.given array) := by
  rw [NodeData.array]
  split
  · rename_i heq
    simp [heq]
  · rename_i hne
    exact ⟨fun h => (by cases h), fun h => absurd h (hne array)⟩

/-- Two outputs are one array. -/
def Shares (data : NodeData α) (index other : Nat) : Prop :=
  data.array index ≠ none ∧ data.array index = data.array other

instance (data : NodeData α) (index other : Nat) :
    Decidable (data.Shares index other) :=
  inferInstanceAs (Decidable (_ ∧ _))

section

variable (data : NodeData α) (index : Nat)

theorem output_assign (other : Nat) (items : List α) : (data.assign index items).output other
      = if other = index then some (.made items) else data.output other := by
  rw [output, output, assign]
  by_cases heq : other = index
  · subst heq
    rw [if_pos rfl, getElem?_set_self]
    · rfl
    · rw [length_append, length_replicate]
      omega
  · rw [if_neg heq, getElem?_set_ne (Ne.symm heq)]
    by_cases hin : other < data.outputs.length
    · rw [getElem?_append_left hin]
    · rw [getElem?_append_right (not_lt.mp hin),
        getElem?_eq_none (not_lt.mp hin), getElem?_replicate]
      split <;> rfl

theorem output_shiftAll (other : Nat) : (data.shiftAll index).output other = data.output other := by
  rw [shiftAll]
  split <;> rfl

theorem arrays_shiftAll (array : Nat) : (data.shiftAll index).arrays array
      = if data.array index = some array then [] else data.arrays array := by
  by_cases hshift : data.array index = some array
  · rw [if_pos hshift, shiftAll, array_eq_some.mp hshift]
    exact Function.update_self ..
  · rw [if_neg hshift, shiftAll]
    split
    · rename_i given heq
      refine Function.update_of_ne (fun hsame => hshift ?_) ..
      rw [array_eq_some, heq, hsame]
    · rfl

end

end NodeData

section

variable {I V E R : Type} [DecidableEq I] (that : Context I V)

def handleOutput (state : NodeData (INodeExecutionData V E R) × List (INodeExecutionData V E R))
    (outputIndex : Nat) :
    Except Thrown (NodeData (INodeExecutionData V E R) × List (INodeExecutionData V E R)) :=
  match routeItems that (state.1.read outputIndex) [] state.2 with
  | .error thrown => .error thrown
  | .ok (successItems, errorItems) =>
    .ok ((state.1.shiftAll outputIndex).assign outputIndex successItems, errorItems)

/-- `mainOutputs` is the length of `mainOutputTypes`.  Without a main output
    the items are assigned to `nodeSuccessData[-1]`, which is no element. -/
def handleNodeErrorOutput (mainOutputs : Nat)
    (nodeSuccessData : NodeData (INodeExecutionData V E R)) :
    Except Thrown (NodeData (INodeExecutionData V E R)) :=
  match (List.range (mainOutputs - 1)).foldlM (handleOutput that) (nodeSuccessData, []) with
  | .error thrown => .error thrown
  | .ok (data, errorItems) =>
    if mainOutputs = 0 then .ok data
    else .ok (data.assign (mainOutputs - 1) errorItems)

end

/-! ## One output -/

section

variable {I V E R : Type} (that : Context I V)

/-- The items of an output that stay in it, and those that go. -/
def successOf (items : List (Option (INodeExecutionData V E R))) :
    List (INodeExecutionData V E R) :=
  (items.filterMap id).filter fun item => !isErrorItem that item

def errorsOf (items : List (Option (INodeExecutionData V E R))) : List (INodeExecutionData V E R) :=
  (items.filterMap id).filter (isErrorItem that)

theorem filterMap_eq_nil {items : List (Option (INodeExecutionData V E R))}
    (hsuccess : successOf that items = []) (herrors : errorsOf that items = []) :
    items.filterMap id = [] := by
  rw [eq_nil_iff_forall_not_mem]
  intro item hitem
  rw [successOf, filter_eq_nil_iff] at hsuccess
  rw [errorsOf, filter_eq_nil_iff] at herrors
  simp_all

variable [DecidableEq I]

/-- What is pushed for the items that go. -/
def Pushed (items pushed : List (INodeExecutionData V E R)) : Prop :=
  List.Forall₂ (fun item out => errorItem that item = .ok out) items pushed

theorem exists_pushed {items : List (INodeExecutionData V E R)}
    (h : ∀ item ∈ items, ∃ out, errorItem that item = .ok out) :
    ∃ pushed, Pushed that items pushed := by
  induction items with
  | nil => exact ⟨[], .nil⟩
  | cons item items ih =>
    obtain ⟨out, hout⟩ := h item (mem_cons_self ..)
    obtain ⟨pushed, hpushed⟩ := ih fun other hother =>
      h other (mem_cons_of_mem _ hother)
    exact ⟨out :: pushed, .cons hout hpushed⟩

theorem exists_of_pushed {items pushed : List (INodeExecutionData V E R)}
    (h : Pushed that items pushed) {item : INodeExecutionData V E R}
    (hitem : item ∈ items) : ∃ out, errorItem that item = .ok out := by
  induction h with
  | nil => exact absurd hitem not_mem_nil
  | cons hout _ ih =>
    obtain rfl | hitem := mem_cons.mp hitem
    · exact ⟨_, hout⟩
    · exact ih hitem

/-- One output adds its success items and its error items at the ends. -/
theorem routeItems_eq_ok (items : List (Option (INodeExecutionData V E R)))
    (success errors success' errors' : List (INodeExecutionData V E R)) :
    routeItems that items success errors = .ok (success', errors')
      ↔ success' = success ++ successOf that items
        ∧ ∃ pushed, errors' = errors ++ pushed ∧ Pushed that (errorsOf that items) pushed := by
  induction items generalizing success errors with
  | nil => simp [routeItems, successOf, errorsOf, Pushed, eq_comm]
  | cons head items ih =>
    cases head with
    | none => exact ih success errors
    | some item =>
      rw [routeItems]
      by_cases herror : isErrorItem that item
      · have hsuccess : successOf that (some item :: items)
            = successOf that items := by
          simp [successOf, herror]
        have herrors : errorsOf that (some item :: items) = item :: errorsOf that items := by
          simp [errorsOf, herror]
        rw [if_pos herror, hsuccess, herrors]
        cases hout : errorItem that item with
        | error thrown =>
          constructor
          · intro hok
            cases hok
          · rintro ⟨-, _, -, hpushed⟩
            cases hpushed with
            | cons hok _ => cases hout.symm.trans hok
        | ok out =>
          simp only [ih]
          refine and_congr_right fun _ => ⟨?_, ?_⟩
          · rintro ⟨pushed, rfl, hpushed⟩
            exact ⟨out :: pushed, by simp, .cons hout hpushed⟩
          · rintro ⟨_, rfl, hpushed⟩
            cases hpushed with
            | cons hok hpushed =>
              cases hout.symm.trans hok
              exact ⟨_, by simp, hpushed⟩
      · have hsuccess : successOf that (some item :: items)
            = item :: successOf that items := by
          simp [successOf, herror]
        have herrors : errorsOf that (some item :: items) = errorsOf that items := by
          simp [errorsOf, herror]
        rw [if_neg herror, hsuccess, herrors, ih]
        simp

end

/-! ## All of them -/

section

variable {α : Type}

/-- What is left of an output after the loops over the first `count`. -/
def remaining (start : NodeData α) (count index : Nat) : List (Option α) :=
  if ∃ earlier < count, start.Shares earlier index then []
  else start.read index

/-- What the loop sees of an output. -/
def seen (start : NodeData α) (index : Nat) : List (Option α) := remaining start index index

theorem read_eq {data start : NodeData α} {count index : Nat}
    (houtput : data.output index = start.output index)
    (harrays : ∀ array, data.arrays array
      = if ∃ earlier < count, start.array earlier = some array then []
        else start.arrays array) :
    data.read index = remaining start count index := by
  rw [NodeData.read, houtput, remaining]
  cases hindex : start.array index with
  | some array =>
    have hgiven := NodeData.array_eq_some.mp hindex
    have hiff : (∃ earlier < count, start.array earlier = some array)
        ↔ ∃ earlier < count, start.Shares earlier index := by
      refine exists_congr fun earlier => and_congr_right fun _ => ?_
      rw [NodeData.Shares, hindex]
      constructor
      · intro h
        exact ⟨by rw [h]; exact Option.some_ne_none _, h⟩
      · exact And.right
    simp [hgiven, harrays, hiff, NodeData.read]
  | none =>
    have hno : ¬ ∃ earlier < count, start.Shares earlier index := by
      rintro ⟨earlier, -, hne, heq⟩
      exact hne (heq.trans hindex)
    rw [if_neg hno, NodeData.read]
    cases houtput : start.output index with
    | none => rfl
    | some output =>
      cases output with
      | given array =>
        rw [NodeData.array_eq_some.mpr houtput] at hindex
        cases hindex
      | made items => rfl

end

section

variable {I V E R : Type} [DecidableEq I] (that : Context I V)

/-- After the loops over the first `count` outputs: these have their success
    items, the others are as they were, the arrays gone over are empty, and
    the error items are in order. -/
structure Holds (start : NodeData (INodeExecutionData V E R)) (count : Nat)
    (state : NodeData (INodeExecutionData V E R) × List (INodeExecutionData V E R)) : Prop where
  outputs : ∀ index, state.1.output index
    = if index < count then
        some (.made (successOf that (seen start index)))
      else start.output index
  arrays : ∀ array, state.1.arrays array
    = if ∃ earlier < count, start.array earlier = some array then []
      else start.arrays array
  errors : Pushed that
    ((List.range count).flatMap fun index => errorsOf that (seen start index)) state.2

variable {start : NodeData (INodeExecutionData V E R)} {count : Nat}
  {state : NodeData (INodeExecutionData V E R)
    × List (INodeExecutionData V E R)}

theorem holds_zero : Holds that start 0 (start, []) where
  outputs _ := (if_neg (Nat.not_lt_zero _)).symm
  arrays _ := (if_neg (fun ⟨_, h, _⟩ => Nat.not_lt_zero _ h)).symm
  errors := .nil

section

variable (h : Holds that start count state)
include h

theorem Holds.read {index : Nat} (hle : count ≤ index) :
    state.1.read index = remaining start count index := by
  refine read_eq ?_ h.arrays
  rw [h.outputs, if_neg (not_lt.mpr hle)]

/-- **STEP**: the loop over the next output. -/
theorem holds_step {next : NodeData (INodeExecutionData V E R)
      × List (INodeExecutionData V E R)}
    (hnext : handleOutput that state count = .ok next) :
    Holds that start (count + 1) next := by
  rw [handleOutput, h.read that le_rfl] at hnext
  cases hroute : routeItems that (remaining start count count) [] state.2 with
  | error thrown =>
    rw [hroute] at hnext
    cases hnext
  | ok routed =>
    obtain ⟨success, errors⟩ := routed
    rw [hroute] at hnext
    cases hnext
    obtain ⟨rfl, pushed, rfl, hpushed⟩ := (routeItems_eq_ok that _ _ _ _ _).mp hroute
    constructor
    · intro index
      rw [NodeData.output_assign, NodeData.output_shiftAll, h.outputs]
      by_cases heq : index = count
      · rw [if_pos heq, if_pos (by omega), heq, nil_append, seen]
      · have hiff : index < count ↔ index < count + 1 := by omega
        rw [if_neg heq]
        simp [hiff]
    · intro array
      have hthis : state.1.array count = start.array count := by
        rw [NodeData.array, NodeData.array, h.outputs, if_neg (lt_irrefl count)]
      show (state.1.shiftAll count).arrays array = _
      rw [NodeData.arrays_shiftAll, h.arrays, hthis]
      simp only [Nat.lt_succ_iff_lt_or_eq, or_and_right, exists_or, exists_eq_left]
      by_cases hlast : start.array count = some array
      · rw [if_pos hlast, if_pos (Or.inr hlast)]
      · simp [hlast]
    · rw [range_succ, flatMap_append, flatMap_singleton]
      exact rel_append h.errors hpushed

theorem exists_step
    (hfound : ∀ item ∈ errorsOf that (seen start count), ∃ out, errorItem that item = .ok out) :
    ∃ next, handleOutput that state count = .ok next := by
  obtain ⟨pushed, hpushed⟩ := exists_pushed that hfound
  refine ⟨((state.1.shiftAll count).assign count
    (successOf that (seen start count)), state.2 ++ pushed), ?_⟩
  have hroute := (routeItems_eq_ok that (seen start count) [] state.2 _ _).mpr
    ⟨(nil_append _).symm, pushed, rfl, hpushed⟩
  rw [seen] at hroute
  rw [handleOutput, h.read that le_rfl, hroute, seen]

end

theorem foldlM_range_succ (count : Nat) :
    (List.range (count + 1)).foldlM (handleOutput that) (start, [])
      = match (List.range count).foldlM (handleOutput that) (start, []) with
        | .error thrown => .error thrown
        | .ok state => handleOutput that state count := by
  rw [range_succ, foldlM_append]
  cases (List.range count).foldlM (handleOutput that) (start, []) with
  | error thrown => rfl
  | ok state =>
    show List.foldlM (handleOutput that) state [count] = handleOutput that state count
    simp

/-- **RUN**: the loops over the first outputs. -/
theorem holds_run (hrun : (List.range count).foldlM (handleOutput that) (start, []) = .ok state) :
    Holds that start count state := by
  induction count generalizing state with
  | zero =>
    cases hrun
    exact holds_zero that
  | succ count ih =>
    rw [foldlM_range_succ] at hrun
    cases hprevious : (List.range count).foldlM (handleOutput that) (start, []) with
    | error thrown =>
      rw [hprevious] at hrun
      cases hrun
    | ok previous =>
      rw [hprevious] at hrun
      exact holds_step that (ih hprevious) hrun

theorem exists_run (hfound : ∀ index < count, ∀ item ∈ errorsOf that (seen start index),
      ∃ out, errorItem that item = .ok out) :
    ∃ state, (List.range count).foldlM (handleOutput that) (start, []) = .ok state := by
  induction count with
  | zero => exact ⟨_, rfl⟩
  | succ count ih =>
    obtain ⟨state, hrun⟩ := ih fun index hindex => hfound index (Nat.lt_succ_of_lt hindex)
    obtain ⟨next, hnext⟩ := exists_step that (holds_run that hrun)
      (hfound count (Nat.lt_succ_self count))
    exact ⟨next, by rw [foldlM_range_succ, hrun]; exact hnext⟩

end

/-! ## Nothing is lost -/

section

variable {I V E R : Type} [DecidableEq I] (that : Context I V)

/-- The item, or the item with other JSON under its own. -/
def Merged (item out : INodeExecutionData V E R) : Prop :=
  out = item ∨ ∃ json, out = { item with json := spread json item.json }

/-- Each item of the outputs before the last main one is there once: the
    success items where they were, the error items in the last, and what is
    beyond that as it was. -/
structure RoutesAll (mainOutputs : Nat)
    (start result : NodeData (INodeExecutionData V E R)) : Prop where
  success : ∀ index < mainOutputs - 1,
    result.read index = (successOf that (start.read index)).map some
  errors : ∀ last, mainOutputs = last + 1 → ∃ errorItems, result.read last = errorItems.map some
      ∧ List.Forall₂ Merged
          ((List.range last).flatMap fun index =>
            errorsOf that (start.read index)) errorItems
  beyond : ∀ index, mainOutputs ≤ index → result.output index = start.output index
      ∧ result.read index = start.read index

/-- If the source and a first paired item of an error item are known, the
    source has the input, and the search back to it gives an item. -/
def Traceable (item : INodeExecutionData V E R) : Prop :=
  ∀ source paired, that.source = some source → pairedItemData item = some paired →
      ∃ main sourceData found, source.get? .main = some main
        ∧ elementAt main (pairedItemInputIndex paired) = some (.value sourceData)
        ∧ constPairedItem that sourceData paired = .ok (some found)

/-- No output before the last main one is the array of another: unless there
    is no item in it or, with an output beyond, nothing at all. -/
structure Unshared (mainOutputs : Nat)
    (start : NodeData (INodeExecutionData V E R)) : Prop where
  before : ∀ index other, index < other → other < mainOutputs - 1 →
    start.Shares index other → (start.read other).filterMap id = []
  beyond : ∀ index other, index < mainOutputs - 1 → mainOutputs ≤ other →
    start.Shares index other → start.read other = []

theorem errorItem_eq_ok {item out : INodeExecutionData V E R} (h : errorItem that item = .ok out) :
    Traceable that item ∧ Merged item out := by
  rw [errorItem] at h
  split at h
  · rename_i source paired hsource hpaired
    split at h
    · rename_i sourceData hinput
      obtain ⟨main, hmain, helement⟩ := Option.bind_eq_some_iff.mp hinput
      split at h
      · cases h
      · cases h
      · rename_i found hfound
        cases h
        refine ⟨fun source' paired' hsource' hpaired' => ?_, Or.inr ⟨_, rfl⟩⟩
        cases hsource.symm.trans hsource'
        cases hpaired.symm.trans hpaired'
        exact ⟨main, sourceData, found, hmain, helement, hfound⟩
    · cases h
  · rename_i hunknown
    cases h
    exact ⟨fun source paired hsource hpaired =>
      absurd hpaired (hunknown source paired hsource), Or.inl rfl⟩

theorem exists_errorItem {item : INodeExecutionData V E R}
    (h : Traceable that item) : ∃ out, errorItem that item = .ok out := by
  rw [errorItem]
  split
  · rename_i source paired hsource hpaired
    obtain ⟨main, sourceData, found, hmain, helement, hfound⟩ := h source paired hsource hpaired
    have hinput : (source.get? .main).bind (elementAt · (pairedItemInputIndex paired))
          = some (.value sourceData) :=
      Option.bind_eq_some_iff.mpr ⟨main, hmain, helement⟩
    rw [hinput]
    simp only [hfound]
    exact ⟨_, rfl⟩
  · exact ⟨_, rfl⟩

theorem seen_eq {α : Type} (start : NodeData α) (index : Nat) :
    seen start index = start.read index
      ∨ seen start index = [] ∧ ∃ earlier < index, start.Shares earlier index := by
  rw [seen, remaining]
  split
  · rename_i hshares
    exact Or.inr ⟨rfl, hshares⟩
  · exact Or.inl rfl

variable {mainOutputs : Nat}
  {start result : NodeData (INodeExecutionData V E R)}

theorem exists_holds (hresult : handleNodeErrorOutput that mainOutputs start = .ok result) :
    ∃ state, Holds that start (mainOutputs - 1) state
      ∧ (∀ index < mainOutputs - 1, result.read index
          = (successOf that (seen start index)).map some)
      ∧ (∀ last, mainOutputs = last + 1 → result.read last = state.2.map some)
      ∧ ∀ index, mainOutputs ≤ index → result.output index = start.output index
            ∧ result.read index = remaining start (mainOutputs - 1) index := by
  rw [handleNodeErrorOutput] at hresult
  cases hrun : (List.range (mainOutputs - 1)).foldlM (handleOutput that) (start, []) with
  | error thrown =>
    rw [hrun] at hresult
    cases hresult
  | ok state =>
    rw [hrun] at hresult
    have hholds := holds_run that hrun
    have houtput : ∀ index, index + 1 ≠ mainOutputs →
        result.output index = state.1.output index := by
      intro index hindex
      simp only [] at hresult
      split at hresult <;> cases hresult
      · rfl
      · rw [NodeData.output_assign, if_neg (by omega)]
    have harrays : result.arrays = state.1.arrays := by
      simp only [] at hresult
      split at hresult <;> cases hresult <;> rfl
    refine ⟨state, hholds, fun index hindex => ?_, ?_, fun index hindex => ?_⟩
    · rw [NodeData.read, houtput index (by omega), hholds.outputs, if_pos hindex]
    · rintro last rfl
      cases hresult
      rw [NodeData.read, NodeData.output_assign, if_pos (by omega)]
    · have hsame : result.output index = start.output index := by
        rw [houtput index (by omega), hholds.outputs, if_neg (by omega)]
      exact ⟨hsame, read_eq hsame fun array => by
        rw [harrays, hholds.arrays]⟩

theorem exists_result
    (hfound : ∀ index < mainOutputs - 1, ∀ item ∈ errorsOf that (seen start index),
        ∃ out, errorItem that item = .ok out) :
    ∃ result, handleNodeErrorOutput that mainOutputs start = .ok result := by
  obtain ⟨state, hrun⟩ := exists_run that hfound
  rw [handleNodeErrorOutput, hrun]
  simp only []
  split
  · exact ⟨_, rfl⟩
  · exact ⟨_, rfl⟩

theorem length_flatMap_range {α : Type} (f : Nat → List α) (count : Nat) :
    ((List.range count).flatMap f).length = ∑ index ∈ Finset.range count, (f index).length := by
  induction count with
  | zero => rfl
  | succ count ih =>
    rw [range_succ, flatMap_append, flatMap_singleton, length_append, ih, Finset.sum_range_succ]

section

variable (hresult : handleNodeErrorOutput that mainOutputs start = .ok result)
  (hroutes : RoutesAll that mainOutputs start result)
include hresult hroutes

theorem seen_of_routesAll {index : Nat} (hindex : index < mainOutputs - 1) :
    (seen start index).filterMap id = (start.read index).filterMap id := by
  obtain ⟨state, hholds, hsuccess, hlast, -⟩ := exists_holds that hresult
  have hle : ∀ other ∈ Finset.range (mainOutputs - 1), (errorsOf that (seen start other)).length
        ≤ (errorsOf that (start.read other)).length := by
    intro other _
    obtain hseen | ⟨hseen, -⟩ := seen_eq start other
    · rw [hseen]
    · rw [hseen]
      exact Nat.zero_le _
  -- as many error items are pushed as there are
  have hsum : ∑ other ∈ Finset.range (mainOutputs - 1), (errorsOf that (seen start other)).length
      = ∑ other ∈ Finset.range (mainOutputs - 1), (errorsOf that (start.read other)).length := by
    have hmain : mainOutputs = (mainOutputs - 1) + 1 := by omega
    obtain ⟨errorItems, hread, hmerged⟩ := hroutes.errors _ hmain
    have hsame : state.2 = errorItems := by
      refine map_injective_iff.mpr (Option.some_injective _) ?_
      rw [← hlast _ hmain, hread]
    rw [← length_flatMap_range, ← length_flatMap_range, hmerged.length_eq,
      ← hsame, hholds.errors.length_eq]
  have herrors := (Finset.sum_eq_sum_iff_of_le hle).mp hsum index (Finset.mem_range.mpr hindex)
  have hstays : successOf that (seen start index) = successOf that (start.read index) := by
    refine map_injective_iff.mpr (Option.some_injective _) ?_
    rw [← hsuccess index hindex, hroutes.success index hindex]
  obtain hseen | ⟨hseen, -⟩ := seen_eq start index
  · rw [hseen]
  · rw [hseen] at hstays herrors
    rw [hseen, filterMap_eq_nil that hstays.symm (length_eq_zero_iff.mp herrors.symm)]
    rfl

theorem unshared_of_routesAll : Unshared mainOutputs start := by
  constructor
  · intro index other hlt hother hshares
    have hempty : seen start other = [] := if_pos ⟨index, hlt, hshares⟩
    rw [← seen_of_routesAll that hresult hroutes hother, hempty]
    rfl
  · intro index other hindex hother hshares
    obtain ⟨-, -, -, -, hbeyond⟩ := exists_holds that hresult
    rw [← (hroutes.beyond other hother).2, (hbeyond other hother).2]
    exact if_pos ⟨index, hindex, hshares⟩

end

theorem seen_of_unshared (h : Unshared mainOutputs start) {index : Nat}
    (hindex : index < mainOutputs - 1) :
    (seen start index).filterMap id = (start.read index).filterMap id := by
  obtain hseen | ⟨hseen, earlier, hlt, hshares⟩ := seen_eq start index
  · rw [hseen]
  · rw [hseen, h.before earlier index hlt hindex hshares]
    rfl

/-- **NOTHING IS LOST**: the items are sorted to their outputs, without an
    error, if and only if the error items are traceable and no array with
    items is used twice. -/
theorem routesAll_iff : (∃ result, handleNodeErrorOutput that mainOutputs start = .ok result
        ∧ RoutesAll that mainOutputs start result)
      ↔ (∀ index < mainOutputs - 1, ∀ item ∈ errorsOf that (start.read index), Traceable that item)
        ∧ Unshared mainOutputs start := by
  constructor
  · rintro ⟨result, hresult, hroutes⟩
    refine ⟨fun index hindex item hitem => ?_, unshared_of_routesAll that hresult hroutes⟩
    obtain ⟨state, hholds, -⟩ := exists_holds that hresult
    have hmem : item ∈ (List.range (mainOutputs - 1)).flatMap fun index =>
        errorsOf that (seen start index) := by
      refine mem_flatMap.mpr ⟨index, mem_range.mpr hindex, ?_⟩
      rwa [errorsOf, seen_of_routesAll that hresult hroutes hindex]
    obtain ⟨out, hout⟩ := exists_of_pushed that hholds.errors hmem
    exact (errorItem_eq_ok that hout).1
  · rintro ⟨htraceable, hunshared⟩
    have hfound : ∀ index < mainOutputs - 1, ∀ item ∈ errorsOf that (seen start index),
          ∃ out, errorItem that item = .ok out := by
      intro index hindex item hitem
      rw [errorsOf, seen_of_unshared hunshared hindex] at hitem
      exact exists_errorItem that (htraceable index hindex item hitem)
    obtain ⟨result, hresult⟩ := exists_result that hfound
    obtain ⟨state, hholds, hsuccess, hlast, hbeyond⟩ := exists_holds that hresult
    refine ⟨result, hresult, fun index hindex => ?_, fun last hmain => ?_, fun index hindex => ?_⟩
    · rw [hsuccess index hindex, successOf, seen_of_unshared hunshared hindex, successOf]
    · refine ⟨state.2, hlast last hmain, ?_⟩
      have hlength : last = mainOutputs - 1 := by omega
      have hsame : ((List.range last).flatMap fun index =>
            errorsOf that (start.read index))
          = (List.range (mainOutputs - 1)).flatMap fun index =>
            errorsOf that (seen start index) := by
        rw [hlength]
        refine flatMap_congr fun index hindex => ?_
        rw [errorsOf, errorsOf, seen_of_unshared hunshared (mem_range.mp hindex)]
      rw [hsame]
      exact hholds.errors.imp fun _ _ hout => (errorItem_eq_ok that hout).2
    · obtain ⟨houtput, hread⟩ := hbeyond index hindex
      refine ⟨houtput, ?_⟩
      rw [hread, remaining]
      split
      · rename_i hshares
        obtain ⟨earlier, hlt, hshares⟩ := hshares
        exact (hunshared.beyond earlier index hlt hindex hshares).symm
      · rfl

/-- An item with an error, paired with the second item of an input that has
    one. -/
def failedItem : INodeExecutionData Unit Unit Unit where
  json := .empty
  error := some ()
  pairedItem := .one (.data ⟨1, none, none⟩)
  others := ()

def onePrevious : Context Nat Unit where
  dataProxy :=
    { runData := ⟨[("Previous", [⟨some [some [0]], []⟩])], by decide⟩
      getPinDataIfManualExecution := fun _ => none
      isScriptingNode := fun _ => false
      activeNodeName := "Node"
      pairedItem := fun _ => .missing }
  json := fun _ => .empty
  truthy := fun _ => true
  source := some (N8nWorkflowExecute.mainOnly [.value ⟨"Previous", none, none⟩])
  stack := 1000

/-- A success item and an error item in one output, and an error output. -/
def failedOutput : NodeData (INodeExecutionData Unit Unit Unit) where
  arrays := fun _ => [some { failedItem with error := none }, some failedItem]
  outputs := [some (.given 0), none]

/-- The error of the search leaves the method. -/
theorem not_routesAll_failedOutput :
    ¬ ∃ result, handleNodeErrorOutput onePrevious 2 failedOutput = .ok result
        ∧ RoutesAll onePrevious 2 failedOutput result := by
  rintro ⟨result, hresult, -⟩
  have hthrown : (handleNodeErrorOutput onePrevious 2 failedOutput).isOk
      = false := by decide +kernel
  rw [hresult] at hthrown
  cases hthrown

end

end N8nErrorOutput
