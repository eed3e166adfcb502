import N8n.OrderedMapProofs

/-! # Chunked data requests — the main side strips, the runner rebuilds

    The main side answers with the items of the requested chunk and says
    nothing of how many there were.  The runner puts as many empty places
    before them as the start index says, and means to put the missing ones
    behind them: it counts these from the chunk it received, which is never
    longer than its bounds, so none is put there.

    Items of the chunk thus stand at their own indexes
    (`getElem?_reconstruct`), and the list has its length back only if the
    chunk reaches its end (`reconstruct_strip_iff`). -/

namespace N8nDataRequest

open N8nOrderedMap List

variable {I : Type}

/-- The inputs of a node by connection type; a list that is not there yet is
    `null`. -/
abbrev ITaskDataConnections (I : Type) := OrderedMap String (List (Option (List I)))

structure InputDataChunkDefinition where
  startIndex : Nat
  count : Nat

structure InputDataRequestParams where
  included : Bool
  chunk : Option InputDataChunkDefinition

def mainItems (inputData : ITaskDataConnections I) : Option (List I) :=
  ((inputData.get? "main").bind List.head?).join

def originalItems (inputData : ITaskDataConnections I) : List I := (mainItems inputData).getD []

/-- `items.slice(start, end)` -/
def slice (items : List I) (start stop : Nat) : List I := (items.take stop).drop start

/-! ## The main side -/

def stripChunkedInputData (chunk : InputDataChunkDefinition)
    (inputData : ITaskDataConnections I) : ITaskDataConnections I :=
  match mainItems inputData with
  | none => inputData
  | some inputItems =>
    inputData.set "main" [some (slice inputItems chunk.startIndex (chunk.startIndex + chunk.count))]

def stripInputData (input : InputDataRequestParams)
    (inputData : ITaskDataConnections I) : ITaskDataConnections I :=
  if input.included then
    match input.chunk with
    | some chunk => stripChunkedInputData chunk inputData
    | none => inputData
  else .empty

/-! ## The runner -/

/-- `Array.from({ length })`: nothing if the length is negative. -/
def holes (length : Int) : List (Option I) := List.replicate length.toNat none

def reconstructConnectionInputItems (inputData : ITaskDataConnections I)
    (chunk : Option InputDataChunkDefinition) : List (Option I) :=
  let inputItems := originalItems inputData
  match chunk with
  | none => inputItems.map some
  | some chunk =>
    holes chunk.startIndex ++ inputItems.map some ++
      holes ((inputItems.length : Int) - chunk.startIndex - chunk.count)

/-! ## Both together -/

theorem originalItems_strip (chunk : InputDataChunkDefinition)
    (inputData : ITaskDataConnections I) :
    originalItems (stripChunkedInputData chunk inputData)
      = slice (originalItems inputData) chunk.startIndex (chunk.startIndex + chunk.count) := by
  rw [stripChunkedInputData, originalItems, originalItems]
  rcases hmain : mainItems inputData with _ | items
  · rw [hmain, Option.getD_none, slice, take_nil, drop_nil]
  · rw [mainItems, OrderedMap.get?_set, if_pos rfl]
    rfl

theorem length_slice (items : List I) (start count : Nat) :
    (slice items start (start + count)).length = min (start + count) items.length - start := by
  rw [slice, length_drop, length_take]

section

variable (chunk : InputDataChunkDefinition) (inputData : ITaskDataConnections I)

theorem reconstruct_strip :
    reconstructConnectionInputItems (stripChunkedInputData chunk inputData) (some chunk)
      = List.replicate chunk.startIndex none ++
          (slice (originalItems inputData) chunk.startIndex
            (chunk.startIndex + chunk.count)).map some := by
  rw [reconstructConnectionInputItems, originalItems_strip]
  have hlength := length_slice (originalItems inputData) chunk.startIndex chunk.count
  have hbehind : ((slice (originalItems inputData) chunk.startIndex
      (chunk.startIndex + chunk.count)).length : Int) - chunk.startIndex
        - chunk.count ≤ 0 := by omega
  rw [holes, holes, Int.toNat_of_nonpos hbehind, replicate_zero, append_nil, Int.toNat_natCast]

/-- **ITEMS AT THEIR OWN INDEXES**, and nothing before the chunk. -/
theorem getElem?_reconstruct (i : Nat) :
    (reconstructConnectionInputItems (stripChunkedInputData chunk inputData) (some chunk))[i]?
      = if i < chunk.startIndex then some none
        else if i < chunk.startIndex + chunk.count then
          ((originalItems inputData)[i]?).map some
        else none := by
  rw [reconstruct_strip, getElem?_append, length_replicate]
  by_cases hi : i < chunk.startIndex
  · rw [if_pos hi, if_pos hi, getElem?_replicate, if_pos hi]
  · rw [if_neg hi, if_neg hi, getElem?_map, slice, getElem?_drop,
      Nat.add_sub_cancel' (Nat.le_of_not_lt hi), getElem?_take]
    split <;> rfl

end

/-- The list that the runner is to work with: as long as the original one,
    with the items of the chunk at their indexes and nothing elsewhere. -/
structure OriginalShape (items : List I) (chunk : InputDataChunkDefinition)
    (result : List (Option I)) : Prop where
  length : result.length = items.length
  inside : ∀ i, i < items.length → chunk.startIndex ≤ i →
    i < chunk.startIndex + chunk.count → result[i]? = items[i]?.map some
  outside : ∀ i, i < items.length →
    ¬ (chunk.startIndex ≤ i ∧ i < chunk.startIndex + chunk.count) → result[i]? = some none

/-- **THE ORIGINAL SHAPE** comes back exactly if the chunk starts within the
    list and reaches its end. -/
theorem reconstruct_strip_iff (chunk : InputDataChunkDefinition)
    (inputData : ITaskDataConnections I) :
    OriginalShape (originalItems inputData) chunk
      (reconstructConnectionInputItems (stripInputData ⟨true, some chunk⟩ inputData) (some chunk)) ↔
      chunk.startIndex ≤ (originalItems inputData).length ∧ (originalItems inputData).length
          ≤ chunk.startIndex + chunk.count := by
  have hget := getElem?_reconstruct chunk inputData
  have hlength : (reconstructConnectionInputItems
      (stripChunkedInputData chunk inputData) (some chunk)).length
        = chunk.startIndex + (min (chunk.startIndex + chunk.count)
            (originalItems inputData).length - chunk.startIndex) := by
    rw [reconstruct_strip, length_append, length_replicate, length_map, length_slice]
  show OriginalShape _ chunk (reconstructConnectionInputItems
    (stripChunkedInputData chunk inputData) (some chunk)) ↔ _
  constructor
  · intro h
    have hsame := hlength.symm.trans h.length
    omega
  · rintro ⟨hstart, hend⟩
    refine ⟨by omega, ?_, ?_⟩
    · intro i _ hfrom hto
      rw [hget, if_neg (Nat.not_lt.mpr hfrom), if_pos hto]
    · intro i hi hout
      -- an index before the end that is not in the chunk is before its start
      have hbefore : i < chunk.startIndex := by omega
      rw [hget, if_pos hbefore]

/-- The first of two items alone, and the runner sees a list of one. -/
theorem not_originalShape_first :
    ¬ OriginalShape [10, 20] ⟨0, 1⟩
      (reconstructConnectionInputItems (stripInputData ⟨true, some ⟨0, 1⟩⟩
        (OrderedMap.empty.set "main" [some [10, 20]])) (some ⟨0, 1⟩)) := by
  intro h
  exact absurd h.length (by decide)

end N8nDataRequest
