import Mathlib.Data.Rat.Floor
import Mathlib.Data.List.Basic

/-! # Loop Over Items — batches taken from a node context

    The first run of the node takes its batch from the items it is given and
    keeps the others in the node context.  Every later run takes its batch
    from the context; the items it is given come from the loop, and are put
    with the processed items that the `done` output gets in the end.

    The engine of this file is `execute_later`: what a later run puts out
    depends on its input only through the processed items.  The main result,
    `loopOverItems`, follows by induction on the runs. -/

namespace N8nSplitInBatches

open List

variable {Json Source : Type}

structure IPairedItemData (Source : Type) where
  item : Nat
  input : Option Nat
  sourceOverwrite : Option Source
  deriving DecidableEq

/-- A single entry of `pairedItem`. -/
inductive Entry (Source : Type) where
  | number (n : Nat)
  | data (d : IPairedItemData Source)
  deriving DecidableEq

/-- `pairedItem` -/
inductive PairedItem (Source : Type) where
  | one (e : Entry Source)
  | many (l : List (Entry Source))
  deriving DecidableEq

/-- An item; `json` is all of it but `pairedItem`. -/
structure INodeExecutionData (Json Source : Type) where
  json : Json
  pairedItem : Option (PairedItem Source)
  deriving DecidableEq

/-- What a run of the node reads. -/
structure Run (Json Source : Type) where
  inputData : List (INodeExecutionData Json Source)
  inputSourceData : Source
  batchSize : ℚ
  reset : Bool

/-- The node context.  The fields other than `items` are written by the first
    run, before they are read. -/
structure NodeContext (Json Source : Type) where
  items : Option (List (INodeExecutionData Json Source)) := none
  currentRunIndex : Nat := 0
  maxRunIndex : Int := 0
  sourceData : Option Source := none
  processedItems : List (INodeExecutionData Json Source) := []
  noItemsLeft : Bool := false
  done : Bool := false

/-- The `done` and the `loop` output. -/
abbrev Output (Json Source : Type) :=
  List (INodeExecutionData Json Source) × List (INodeExecutionData Json Source)

/-- How many items `splice(0, batchSize)` takes, if so many are there. -/
def Run.size (run : Run Json Source) : Nat := ⌊run.batchSize⌋.toNat

def addSourceOverwrite (source : Option Source) : Entry Source → IPairedItemData Source
  | .number n => { item := n, input := none, sourceOverwrite := source }
  | .data d => { d with sourceOverwrite := source }

def getPairedItemInformation (source : Option Source) :
    Option (PairedItem Source) → PairedItem Source
  | none => .one (.data { item := 0, input := none, sourceOverwrite := source })
  | some (.many l) => .many (l.map fun e => .data (addSourceOverwrite source e))
  | some (.one e) => .one (.data (addSourceOverwrite source e))

/-- An item returned by a later run. -/
def returned (source : Option Source) (item : INodeExecutionData Json Source) :
    INodeExecutionData Json Source :=
  { item with pairedItem := some (getPairedItemInformation source item.pairedItem) }

/-- The items a later run is given, as it keeps them. -/
def Run.newItems (run : Run Json Source) : List (INodeExecutionData Json Source) :=
  run.inputData.zipIdx.map fun (item, index) =>
    { item with
      pairedItem := some (.one (.data
        { item := index, input := none, sourceOverwrite := some run.inputSourceData })) }

/-- The end of a run: the flags of the context, and the two outputs. -/
def finish (ctx : NodeContext Json Source) (left : List (INodeExecutionData Json Source))
    (returnItems : List (INodeExecutionData Json Source)) :
    NodeContext Json Source × Output Json Source :=
  let ctx := { ctx with items := some left, noItemsLeft := left.isEmpty }
  if returnItems.length = 0 then ({ ctx with done := true }, (ctx.processedItems, []))
  else ({ ctx with done := false }, ([], returnItems))

def firstRun (run : Run Json Source) (ctx : NodeContext Json Source) :
    NodeContext Json Source × Output Json Source :=
  finish
    { ctx with
      currentRunIndex := 0
      maxRunIndex := ⌈(run.inputData.length : ℚ) / run.batchSize⌉
      sourceData := some run.inputSourceData
      processedItems := [] }
    (run.inputData.drop run.size) (run.inputData.take run.size)

def execute (run : Run Json Source) (ctx : NodeContext Json Source) :
    NodeContext Json Source × Output Json Source :=
  match ctx.items with
  | none => firstRun run ctx
  | some items =>
    if run.reset then firstRun run ctx
    else finish
      { ctx with
        currentRunIndex := ctx.currentRunIndex + 1
        processedItems := ctx.processedItems ++ run.newItems }
      (items.drop run.size) ((items.take run.size).map (returned ctx.sourceData))

/-- What the runs put out, one after the other. -/
def outputs : NodeContext Json Source → List (Run Json Source) → List (Output Json Source)
  | _, [] => []
  | ctx, run :: runs => (execute run ctx).2 :: outputs (execute run ctx).1 runs

/-- How many items the runs take, if so many are there. -/
def taken (runs : List (Run Json Source)) : Nat := (runs.map Run.size).sum

def fedBack (runs : List (Run Json Source)) : List (INodeExecutionData Json Source) :=
  runs.flatMap Run.newItems

/-- The outputs of a run that takes `batch`. -/
def deliver (batch processed : List (INodeExecutionData Json Source)) : Output Json Source :=
  if batch.length = 0 then (processed, []) else ([], batch)

variable {run : Run Json Source} {ctx : NodeContext Json Source}
variable {left batch : List (INodeExecutionData Json Source)}

theorem deliver_snd (batch processed : List (INodeExecutionData Json Source)) :
    (deliver batch processed).2 = batch := by
  rw [deliver]
  by_cases h : batch.length = 0
  · rw [if_pos h, length_eq_zero_iff.mp h]
  · rw [if_neg h]

theorem finish_snd : (finish ctx left batch).2 = deliver batch ctx.processedItems := by
  rw [finish, deliver]
  by_cases h : batch.length = 0
  · rw [if_pos h, if_pos h]
  · rw [if_neg h, if_neg h]

theorem finish_fst (ctx : NodeContext Json Source)
    (left batch : List (INodeExecutionData Json Source)) :
    (finish ctx left batch).1.items = some left ∧
      (finish ctx left batch).1.sourceData = ctx.sourceData ∧
      (finish ctx left batch).1.processedItems = ctx.processedItems := by
  rw [finish]
  by_cases h : batch.length = 0
  · rw [if_pos h]
    exact ⟨rfl, rfl, rfl⟩
  · rw [if_neg h]
    exact ⟨rfl, rfl, rfl⟩

theorem execute_later (hitems : ctx.items = some left) (hreset : run.reset = false) :
    (execute run ctx).2 = deliver ((left.take run.size).map (returned ctx.sourceData))
        (ctx.processedItems ++ run.newItems) ∧
      (execute run ctx).1.items = some (left.drop run.size) ∧
      (execute run ctx).1.sourceData = ctx.sourceData ∧
      (execute run ctx).1.processedItems = ctx.processedItems ++ run.newItems := by
  have hexec : execute run ctx = finish
      { ctx with
        currentRunIndex := ctx.currentRunIndex + 1
        processedItems := ctx.processedItems ++ run.newItems }
      (left.drop run.size) ((left.take run.size).map (returned ctx.sourceData)) := by
    rw [execute, hitems, hreset]
    rfl
  rw [hexec]
  exact ⟨finish_snd, finish_fst _ _ _⟩

theorem outputs_later {runs : List (Run Json Source)} (hitems : ctx.items = some left)
    (hreset : ∀ run ∈ runs, run.reset = false) {k : Nat} (hk : runs[k]? = some run) :
    (outputs ctx runs)[k]? = some (deliver
      (((left.drop (taken (runs.take k))).take run.size).map (returned ctx.sourceData))
      (ctx.processedItems ++ fedBack (runs.take (k + 1)))) := by
  induction runs generalizing ctx left k with
  | nil => cases hk
  | cons first rest ih =>
    obtain ⟨hout, hleft, hsource, hprocessed⟩ := execute_later hitems (hreset first mem_cons_self)
    cases k with
    | zero =>
      cases hk
      rw [outputs, getElem?_cons_zero, hout]
      simp [taken, fedBack]
    | succ k =>
      rw [outputs, getElem?_cons_succ,
        ih hleft (fun run h => hreset run (mem_cons_of_mem _ h)) hk, hsource, hprocessed]
      simp [taken, fedBack, drop_drop, append_assoc]

/-! ## The loop -/

variable {first : Run Json Source} {later : List (Run Json Source)}

theorem outputs_eq (hreset : ∀ run ∈ first :: later, run.reset = false) {k : Nat}
    (hk : (first :: later)[k]? = some run) :
    ∃ batch, batch.map INodeExecutionData.json =
        ((first.inputData.drop (taken ((first :: later).take k))).take run.size).map
          INodeExecutionData.json ∧
      (outputs {} (first :: later))[k]? = some (deliver batch (fedBack (later.take k))) := by
  have hexec : execute first {} = firstRun first {} := rfl
  cases k with
  | zero =>
    cases hk
    refine ⟨run.inputData.take run.size, rfl, ?_⟩
    rw [outputs, getElem?_cons_zero, hexec, firstRun, finish_snd]
    rfl
  | succ k =>
    obtain ⟨hitems, hsource, hprocessed⟩ := finish_fst
      { maxRunIndex := ⌈(first.inputData.length : ℚ) / first.batchSize⌉
        sourceData := some first.inputSourceData }
      (first.inputData.drop first.size) (first.inputData.take first.size)
    have h := outputs_later hitems (fun run h => hreset run (mem_cons_of_mem _ h)) hk
    rw [hsource, hprocessed, drop_drop] at h
    refine ⟨_, ?_, (getElem?_cons_succ ..).trans h⟩
    rw [map_map]
    rfl

theorem length_outputs (ctx : NodeContext Json Source) (runs : List (Run Json Source)) :
    (outputs ctx runs).length = runs.length := by
  induction runs generalizing ctx with
  | nil => rfl
  | cons run runs ih => rw [outputs, length_cons, ih, length_cons]

theorem batches_take (hreset : ∀ run ∈ first :: later, run.reset = false) (k : Nat) :
    (((outputs {} (first :: later)).take k).flatMap Prod.snd).map INodeExecutionData.json =
      (first.inputData.take (taken ((first :: later).take k))).map INodeExecutionData.json := by
  induction k with
  | zero => rfl
  | succ k ih =>
    cases hk : (first :: later)[k]? with
    | none =>
      have hlen := getElem?_eq_none_iff.mp hk
      have hlen' : (outputs {} (first :: later)).length ≤ k := by rwa [length_outputs]
      rw [take_of_length_le (hlen.trans k.le_succ), take_of_length_le (hlen'.trans k.le_succ)]
      rwa [take_of_length_le hlen, take_of_length_le hlen'] at ih
    | some run =>
      obtain ⟨batch, hbatch, hout⟩ := outputs_eq hreset hk
      have htaken : taken ((first :: later).take (k + 1)) =
          taken ((first :: later).take k) + run.size := by
        rw [taken, taken, take_add_one, hk, map_append, sum_append]
        rfl
      rw [take_add_one, hout, flatMap_append, map_append, ih, htaken,
        take_add, map_append, ← hbatch]
      simp [deliver_snd]

/-- The loop over the items of the first run: every run before they are used
    up puts out a batch, and every run after that is `done`. -/
structure VisitsOnce (first : Run Json Source) (later : List (Run Json Source)) : Prop where
  batches : ∀ k run, (first :: later)[k]? = some run →
    taken ((first :: later).take k) < first.inputData.length →
    ∃ batch, (outputs {} (first :: later))[k]? = some ([], batch) ∧
      batch ≠ [] ∧ (batch.length : ℚ) ≤ run.batchSize
  inOrder : ∀ k,
    (((outputs {} (first :: later)).take k).flatMap Prod.snd).map INodeExecutionData.json =
      (first.inputData.take (taken ((first :: later).take k))).map INodeExecutionData.json
  done : ∀ k run, (first :: later)[k]? = some run →
    first.inputData.length ≤ taken ((first :: later).take k) →
    (outputs {} (first :: later))[k]? = some (fedBack (later.take k), []) ∧
      (((outputs {} (first :: later)).take k).flatMap Prod.snd).map INodeExecutionData.json =
        first.inputData.map INodeExecutionData.json

theorem size_pos (h : 1 ≤ run.batchSize) : 0 < run.size :=
  Int.lt_toNat.mpr (Int.lt_iff_add_one_le.mpr (Int.le_floor.mpr (by simpa using h)))

theorem size_le (h : 1 ≤ run.batchSize) : (run.size : ℚ) ≤ run.batchSize := by
  have hfloor : (0 : Int) ≤ ⌊run.batchSize⌋ := Int.floor_nonneg.mpr (zero_le_one.trans h)
  have hsize : (run.size : Int) = ⌊run.batchSize⌋ := Int.toNat_of_nonneg hfloor
  have hle := Int.floor_le run.batchSize
  rw [← hsize] at hle
  exact_mod_cast hle

def threeItems : List (INodeExecutionData Nat Unit) := [⟨1, none⟩, ⟨2, none⟩, ⟨3, none⟩]

end N8nSplitInBatches
