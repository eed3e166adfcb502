import Mathlib.Data.List.Sort
import N8n.RunProofs
import N8n.OrderedMapProofs

/-! # Deduplication — values that an execution has processed

    A call reads what is stored for its workflow and scope, splits its values
    by it and writes the whole back, with an await before and after.  What
    another call has written in between is lost, and reported once more.

    `reportedOnce_of_unchanged` gives the condition on the steps under which
    a value is reported as new by one call, is stored once that call has
    returned, and what is stored in the latest modes never goes down. -/

namespace N8nDeduplication

open N8nRun N8nOrderedMap List

/-! ## What is stored -/

inductive DeduplicationMode where
  | entries | latestIncrementalKey | latestDate
deriving DecidableEq

def DeduplicationMode.isLatest (mode : DeduplicationMode) : Bool :=
  mode ∈ [.latestIncrementalKey, .latestDate]

inductive DeduplicationScope where
  | node | workflow

structure ContextData where
  workflowId : String
  nodeId : Option String

/-- None where it throws. -/
def createContext (scope : DeduplicationScope) (contextData : ContextData) : Option String :=
  match scope with
  | .node => contextData.nodeId.map fun id => "n:" ++ id
  | .workflow => some ""

/-- The primary key of the table. -/
structure RowKey where
  workflowId : String
  context : String
deriving DecidableEq

/-- `V` is the type of the values, `H` that of their hashes.  The latest
    value is undefined when it was taken from no items. -/
inductive StoredData (V H : Type) where
  | entries (data : List H)
  | latest (data : Option V)

structure ProcessedValue (V H : Type) where
  mode : DeduplicationMode
  data : StoredData V H

structure DeduplicationOutput (V : Type) where
  new : List V
  processed : List V

/-- What a call comes to after it has read what is stored. -/
inductive Outcome (V H : Type) where
  | throws
  | returns (output : DeduplicationOutput V)
  | inserts (value : ProcessedValue V H) (output : DeduplicationOutput V)
  | updates (value : ProcessedValue V H) (output : DeduplicationOutput V)

structure Request (V : Type) where
  key : RowKey
  items : List V
  mode : DeduplicationMode
  maxEntries : Option Nat

section

variable {V H K : Type} [DecidableEq V] [DecidableEq H] [LinearOrder K]

/-! ## The latest modes -/

section

-- `toKey` is the number or the moment that a value stands for, if it does.
variable (toKey : DeduplicationMode → V → Option K)

/-- The key of a value that may be undefined. -/
def keyOf (mode : DeduplicationMode) (value : Option V) : Option K := value.bind (toKey mode)

/-- None where it throws.  Two dates are two objects, and never equal. -/
def compareValues (mode : DeduplicationMode) (value1 value2 : Option V) : Option Int :=
  match keyOf toKey mode value1, keyOf toKey mode value2 with
  | some a, some b =>
    if a = b then some (if mode = .latestDate then -1 else 0)
    else if b < a then some 1 else some (-1)
  | _, _ => none

/-- None where it throws; a single value is compared with none. -/
def sortEntries (items : List V) (mode : DeduplicationMode) : Option (List V) :=
  if 2 ≤ items.length ∧ items.any (fun item => (toKey mode item).isNone) then
    none
  else
    some (items.insertionSort fun a b =>
      compareValues toKey mode (some a) (some b) ≠ some 1)

/-- One turn of the loop over the sorted items. -/
def checkLatest (mode : DeduplicationMode) (data : Option V)
    (acc : DeduplicationOutput V × Option V) (item : V) :
    Option (DeduplicationOutput V × Option V) := do
  let isLater ← compareValues toKey mode (some item) data
  if isLater = 1 then
    let isLargest ← compareValues toKey mode (some item) acc.2
    pure ({ acc.1 with new := acc.1.new ++ [item] },
      if isLargest = 1 then some item else acc.2)
  else
    pure ({ acc.1 with processed := acc.1.processed ++ [item] }, acc.2)

def handleLatestModes (request : Request V)
    (processedData : Option (ProcessedValue V H)) : Outcome V H :=
  match sortEntries toKey request.items request.mode with
  | none => .throws
  | some incomingItems =>
    match processedData with
    | none =>
      .inserts { mode := request.mode, data := .latest incomingItems.getLast? }
        { new := request.items, processed := [] }
    | some value =>
      match value.data with
      | .entries _ => .returns { new := [], processed := [] }
      | .latest data =>
        match incomingItems.foldlM (checkLatest toKey request.mode data)
            ({ new := [], processed := [] }, data) with
        | none => .throws
        | some (output, largestValue) =>
          .updates { value with data := .latest largestValue } output

end

/-! ## Entries -/

section

variable (createValueHash : V → H)

/-- `splice(0, length - maxEntries)`, unless `maxEntries` is falsy; a
    negative count removes nothing. -/
def keepLast (maxEntries : Option Nat) (data : List H) : List H :=
  match maxEntries with
  | none | some 0 => data
  | some (n + 1) => data.drop (data.length - (n + 1))

/-- One turn of the loop over the items; the set of processed items is that
    of the data before the loop. -/
def checkEntry (processedItemsSet : List H) (acc : DeduplicationOutput V × List H) (item : V) :
    DeduplicationOutput V × List H :=
  if createValueHash item ∈ processedItemsSet then
    ({ acc.1 with processed := acc.1.processed ++ [item] }, acc.2)
  else
    ({ acc.1 with new := acc.1.new ++ [item] }, acc.2 ++ [createValueHash item])

def handleHashedItems (request : Request V)
    (processedData : Option (ProcessedValue V H)) : Outcome V H :=
  match processedData with
  | none =>
    .inserts
      { mode := request.mode
        data := .entries (keepLast request.maxEntries
          (request.items.map createValueHash)) }
      { new := request.items, processed := [] }
  | some value =>
    match value.data with
    | .latest _ => .returns { new := [], processed := [] }
    | .entries data =>
      let (output, recorded) := request.items.foldl (checkEntry createValueHash data)
        ({ new := [], processed := [] }, data)
      .updates
        { value with data := .entries (keepLast request.maxEntries recorded) }
        output

end

/-- `checkProcessedAndRecord` from the first await to the second. -/
def checkProcessedAndRecord (createValueHash : V → H) (toKey : DeduplicationMode → V → Option K)
    (request : Request V) (processedData : Option (ProcessedValue V H)) : Outcome V H :=
  -- `validateMode`
  if processedData.any fun value => value.mode ≠ request.mode then .throws
  else if request.mode.isLatest then
    handleLatestModes toKey request processedData
  else handleHashedItems createValueHash request processedData

end

/-! ## Calls -/

/-- A call at an await: it reads what is stored, or writes it with an output
    to return. -/
inductive Call (V H : Type) where
  | finding (request : Request V)
  | inserting (request : Request V) (value : ProcessedValue V H) (output : DeduplicationOutput V)
  | updating (request : Request V) (read value : ProcessedValue V H)
      (output : DeduplicationOutput V)

structure Returned (V : Type) where
  key : RowKey
  mode : DeduplicationMode
  output : DeduplicationOutput V

structure Deduplicator (V H : Type) where
  rows : OrderedMap RowKey (ProcessedValue V H)
  calls : List (Call V H)
  /-- what the calls returned -/
  returned : List (Returned V)
  /-- everything that was stored -/
  stored : List (RowKey × ProcessedValue V H)

inductive Event (V : Type) where
  | check (items : List V) (scope : DeduplicationScope)
      (contextData : ContextData) (mode : DeduplicationMode) (maxEntries : Option Nat)
  | finds (n : Nat)
  | writes (n : Nat)
  | fails (n : Nat)

section

variable {V H K : Type} [DecidableEq V] [DecidableEq H] [LinearOrder K]

namespace Deduplicator

omit [DecidableEq V] [DecidableEq H] in
def start : Deduplicator V H :=
  { rows := .empty, calls := [], returned := [], stored := [] }

/-- A call up to the first await. -/
def check (s : Deduplicator V H) (items : List V) (scope : DeduplicationScope)
    (contextData : ContextData) (mode : DeduplicationMode)
    (maxEntries : Option Nat) : Deduplicator V H :=
  match createContext scope contextData with
  | none => s
  | some context =>
    -- `assert.ok(contextData.workflow.id)`
    if contextData.workflowId = "" then s
    else
      { s with
        calls := s.calls ++ [.finding
          { key := { workflowId := contextData.workflowId, context }
            items
            mode
            maxEntries }] }

def setCall (s : Deduplicator V H) (n : Nat) (call : Call V H) : Deduplicator V H :=
  { s with calls := s.calls.set n call }

def endCall (s : Deduplicator V H) (n : Nat) : Deduplicator V H :=
  { s with calls := s.calls.eraseIdx n }

def return_ (s : Deduplicator V H) (n : Nat) (request : Request V)
    (output : DeduplicationOutput V) : Deduplicator V H :=
  { s.endCall n with
    returned := s.returned ++ [{ key := request.key, mode := request.mode, output }] }

def store (s : Deduplicator V H) (key : RowKey) (value : ProcessedValue V H) : Deduplicator V H :=
  { s with
    rows := s.rows.set key value
    stored := s.stored ++ [(key, value)] }

/-- The read of a call. -/
def find (createValueHash : V → H) (toKey : DeduplicationMode → V → Option K)
    (s : Deduplicator V H) (n : Nat) (request : Request V) : Deduplicator V H :=
  let row := s.rows.get? request.key
  match checkProcessedAndRecord createValueHash toKey request row with
  | .throws => s.endCall n
  | .returns output => s.return_ n request output
  | .inserts value output => s.setCall n (.inserting request value output)
  | .updates value output =>
    match row with
    | none => s.endCall n
    | some read => s.setCall n (.updating request read value output)

/-- The write of a call.  An insert fails where there is a row, an update
    changes one that is there. -/
def write (s : Deduplicator V H) (n : Nat) :
    Call V H → Option (Deduplicator V H)
  | .finding _ => none
  | .inserting request value output =>
    match s.rows.get? request.key with
    | some _ => some (s.endCall n)
    | none => some ((s.store request.key value).return_ n request output)
  | .updating request _ value output =>
    match s.rows.get? request.key with
    | none => some (s.return_ n request output)
    | some _ => some ((s.store request.key value).return_ n request output)

def next (createValueHash : V → H)
    (toKey : DeduplicationMode → V → Option K) (s : Deduplicator V H) :
    Event V → Option (Deduplicator V H)
  | .check items scope contextData mode maxEntries =>
    some (s.check items scope contextData mode maxEntries)
  | .finds n =>
    match s.calls[n]? with
    | some (.finding request) => some (s.find createValueHash toKey n request)
    | _ => none
  | .writes n => s.calls[n]?.bind (s.write n)
  | .fails n => s.calls[n]?.map fun _ => s.endCall n

end Deduplicator

def Step (createValueHash : V → H) (toKey : DeduplicationMode → V → Option K)
    (s : Deduplicator V H) (e : Event V) (t : Deduplicator V H) : Prop :=
  s.next createValueHash toKey e = some t

/-! ## The property and the conditions -/

/-- The hash of the value is in what is stored. -/
def Recorded (createValueHash : V → H) (s : Deduplicator V H) (key : RowKey) (v : V) : Prop :=
  ∃ value data, s.rows.get? key = some value ∧ value.data = .entries data ∧ createValueHash v ∈ data

/-- The second value is the first one or is not lower. -/
def NotLower (toKey : DeduplicationMode → V → Option K)
    (mode : DeduplicationMode) (before after : Option V) : Prop :=
  before = after ∨ ∃ a b, keyOf toKey mode before = some a ∧ keyOf toKey mode after = some b ∧ a ≤ b

/-- What is stored later does not lose entries, or is not lower. -/
def Extends (toKey : DeduplicationMode → V → Option K) (before after : ProcessedValue V H) : Prop :=
  after.mode = before.mode ∧
    match before.data, after.data with
    | .entries old, .entries new => ∀ hash ∈ old, hash ∈ new
    | .latest old, .latest new => NotLower toKey before.mode old new
    | _, _ => False

/-- The call reported the value as new. -/
def reports (key : RowKey) (v : V) (r : Returned V) : Bool :=
  r.key = key ∧ r.mode = .entries ∧ v ∈ r.output.new

/-- Everything that was stored under the key, the oldest first. -/
def storedAt (s : Deduplicator V H) (key : RowKey) : List (ProcessedValue V H) :=
  (s.stored.filter fun p => p.1 = key).map Prod.snd

structure ReportedOnce (createValueHash : V → H)
    (toKey : DeduplicationMode → V → Option K) (s : Deduplicator V H) :
    Prop where
  once : ∀ key v, s.returned.countP (reports key v) ≤ 1
  recorded : ∀ r ∈ s.returned, r.mode = .entries → ∀ v ∈ r.output.new,
    Recorded createValueHash s r.key v
  latest : ∀ key, (storedAt s key).Pairwise (Extends toKey)

/-- The entries that are stored. -/
def history (row : Option (ProcessedValue V H)) : List H :=
  match row with
  | some ⟨_, .entries data⟩ => data
  | _ => []

/-- The history stays below `maxEntries`. -/
def BelowMaxEntries (s : Deduplicator V H) : Event V → Prop
  | .finds n => ∀ request, s.calls[n]? = some (.finding request) →
      request.mode = .entries → ∀ max, request.maxEntries = some max →
        max = 0 ∨ (history (s.rows.get? request.key)).length
          + request.items.length ≤ max
  | _ => True

/-- The condition on a step: what is stored is still what the call has
    read. -/
def Unchanged (s : Deduplicator V H) : Event V → Prop
  | .writes n => ∀ request read value output,
      s.calls[n]? = some (.updating request read value output) → s.rows.get? request.key = some read
  | _ => True

end

/-! ## What a call comes to -/

section

variable {V H K : Type} [LinearOrder K]
  {createValueHash : V → H} {toKey : DeduplicationMode → V → Option K}

theorem keepLast_eq {maxEntries : Option Nat} {data : List H}
    (h : ∀ max, maxEntries = some max → max = 0 ∨ data.length ≤ max) :
    keepLast maxEntries data = data := by
  rcases maxEntries with _ | _ | n
  · rfl
  · rfl
  · rcases h (n + 1) rfl with hzero | hle
    · cases hzero
    · rw [keepLast, Nat.sub_eq_zero_of_le hle]
      rfl

variable {mode : DeduplicationMode}

theorem NotLower.trans {a b c : Option V}
    (h : NotLower toKey mode a b) (h' : NotLower toKey mode b c) :
    NotLower toKey mode a c := by
  rcases h with rfl | ⟨x, y, hx, hy, hle⟩
  · exact h'
  · rcases h' with rfl | ⟨y', z, hy', hz, hle'⟩
    · exact .inr ⟨x, y, hx, hy, hle⟩
    · rw [hy] at hy'
      cases hy'
      exact .inr ⟨x, z, hx, hz, le_trans hle hle'⟩

theorem notLower_of_compareValues {before after : Option V}
    (h : compareValues toKey mode after before = some 1) :
    NotLower toKey mode before after := by
  rw [compareValues] at h
  split at h
  · rename_i a b ha hb
    split at h
    · rename_i heq
      exact .inr ⟨b, a, hb, ha, le_of_eq heq.symm⟩
    · split at h
      · rename_i hless
        exact .inr ⟨b, a, hb, ha, le_of_lt hless⟩
      · cases h
  · cases h

theorem foldlM_checkLatest {data : Option V}
    {items : List V} {acc result : DeduplicationOutput V × Option V}
    (h : items.foldlM (checkLatest toKey mode data) acc = some result)
    (hacc : NotLower toKey mode data acc.2) :
    NotLower toKey mode data result.2 := by
  induction items generalizing acc with
  | nil =>
    cases h
    exact hacc
  | cons item rest ih =>
    obtain ⟨acc', hturn, hrest⟩ := Option.bind_eq_some_iff.mp h
    refine ih hrest ?_
    obtain ⟨isLater, -, hturn⟩ := Option.bind_eq_some_iff.mp hturn
    split at hturn
    · obtain ⟨isLargest, hlargest, hturn⟩ :=
        Option.bind_eq_some_iff.mp hturn
      cases hturn
      show NotLower toKey mode data (if isLargest = 1 then _ else _)
      split
      · rename_i hone
        rw [hone] at hlargest
        exact hacc.trans (notLower_of_compareValues hlargest)
      · exact hacc
    · cases hturn
      exact hacc

/-- What a call that waits to write will write. -/
def Fits (createValueHash : V → H) (toKey : DeduplicationMode → V → Option K) :
    Call V H → Prop
  | .finding _ => True
  | .inserting request value output => request.mode = .entries →
      ∃ data, value.data = .entries data ∧ ∀ v ∈ output.new, createValueHash v ∈ data
  | .updating request read value output => Extends toKey read value
      ∧ (request.mode = .entries → ∃ old data, read.data = .entries old
        ∧ value.data = .entries data
        ∧ ∀ v ∈ output.new, createValueHash v ∉ old ∧ createValueHash v ∈ data)

/-- What the outcome of a call is good for. -/
def OutcomeFits (createValueHash : V → H) (toKey : DeduplicationMode → V → Option K)
    (request : Request V) (row : Option (ProcessedValue V H)) : Outcome V H → Prop
  | .throws => True
  | .returns output => output.new = []
  | .inserts value output => Fits createValueHash toKey (.inserting request value output)
  | .updates value output => ∀ read, row = some read →
      Fits createValueHash toKey (.updating request read value output)

variable {row : Option (ProcessedValue V H)} {request : Request V}

theorem outcomeFits_handleLatestModes
    (hmode : ∀ value, row = some value → value.mode = request.mode)
    (hlatest : request.mode ≠ .entries) :
    OutcomeFits createValueHash toKey request row (handleLatestModes toKey request row) := by
  rw [handleLatestModes]
  split
  · exact trivial
  · rename_i incomingItems hsort
    cases row with
    | none => exact fun hentries => absurd hentries hlatest
    | some value =>
      show OutcomeFits createValueHash toKey request _
        (match value.data with | .entries _ => _ | .latest data => _)
      split
      · rfl
      · rename_i data hdata
        split
        · exact trivial
        · rename_i output largestValue hfold
          intro read hread
          cases hread
          refine ⟨⟨rfl, ?_⟩, fun hentries => absurd hentries hlatest⟩
          rw [hdata]
          show NotLower toKey value.mode data largestValue
          rw [hmode value rfl]
          exact foldlM_checkLatest hfold (.inl rfl)

variable [DecidableEq H]

theorem foldl_checkEntry (createValueHash : V → H) (set : List H) (items : List V)
    (output : DeduplicationOutput V) (data : List H) :
    let r := items.foldl (checkEntry createValueHash set) (output, data)
    (∀ h ∈ data, h ∈ r.2)
      ∧ (∀ v ∈ r.1.new, v ∈ output.new ∨ createValueHash v ∉ set ∧ createValueHash v ∈ r.2)
      ∧ r.2.length ≤ data.length + items.length := by
  induction items generalizing output data with
  | nil => exact ⟨fun _ h => h, fun _ h => .inl h, Nat.le_refl _⟩
  | cons item rest ih =>
    rw [foldl_cons, checkEntry]
    split
    · obtain ⟨hold, hnew, hlength⟩ := ih
        { output with processed := output.processed ++ [item] } data
      refine ⟨hold, hnew, Nat.le_trans hlength ?_⟩
      rw [length_cons]
      omega
    · rename_i hfresh
      obtain ⟨hold, hnew, hlength⟩ := ih
        { output with new := output.new ++ [item] }
        (data ++ [createValueHash item])
      refine ⟨fun h hmem => hold h (mem_append_left _ hmem), ?_, ?_⟩
      · intro v hv
        rcases hnew v hv with hmem | hfound
        · rcases mem_append.mp hmem with hbefore | hlast
          · exact .inl hbefore
          · cases mem_singleton.mp hlast
            exact .inr ⟨hfresh, hold _ (mem_append_right _ (mem_singleton.mpr rfl))⟩
        · exact .inr hfound
      · refine Nat.le_trans hlength ?_
        rw [length_append, length_singleton, length_cons]
        omega

theorem outcomeFits_handleHashedItems (hmax : ∀ max, request.maxEntries = some max →
      max = 0 ∨ (history row).length + request.items.length ≤ max) :
    OutcomeFits createValueHash toKey request row
      (handleHashedItems createValueHash request row) := by
  cases row with
  | none =>
    intro _
    refine ⟨_, rfl, ?_⟩
    intro v hv
    rw [keepLast_eq]
    · exact mem_map_of_mem hv
    · intro max heq
      refine (hmax max heq).imp_right fun hle => ?_
      rw [length_map]
      exact Nat.le_trans (Nat.le_add_left _ _) hle
  | some value =>
    obtain ⟨mode, data⟩ := value
    cases data with
    | latest data => rfl
    | entries data =>
      intro read hread
      cases hread
      obtain ⟨hold, hnew, hlength⟩ := foldl_checkEntry createValueHash data request.items
        { new := [], processed := [] } data
      have hkeep : keepLast request.maxEntries
          (request.items.foldl (checkEntry createValueHash data)
            ({ new := [], processed := [] }, data)).2
          = (request.items.foldl (checkEntry createValueHash data)
            ({ new := [], processed := [] }, data)).2 := by
        refine keepLast_eq ?_
        intro max heq
        exact (hmax max heq).imp_right fun hle =>
          Nat.le_trans hlength hle
      refine ⟨⟨rfl, ?_⟩, ?_⟩
      · show ∀ h ∈ data, h ∈ keepLast _ _
        rw [hkeep]
        exact hold
      · intro _
        refine ⟨data, _, rfl, rfl, ?_⟩
        rw [hkeep]
        intro v hv
        rcases hnew v hv with hnil | hfound
        · cases hnil
        · exact hfound

theorem outcomeFits (hmax : request.mode = .entries → ∀ max, request.maxEntries = some max →
        max = 0 ∨ (history row).length + request.items.length ≤ max) :
    OutcomeFits createValueHash toKey request row
      (checkProcessedAndRecord createValueHash toKey request row) := by
  rw [checkProcessedAndRecord]
  split
  · exact trivial
  · rename_i hvalid
    split
    · rename_i hlatest
      refine outcomeFits_handleLatestModes ?_ ?_
      · intro value heq
        rw [heq] at hvalid
        simpa using hvalid
      · intro hentries
        rw [hentries] at hlatest
        cases hlatest
    · rename_i hlatest
      refine outcomeFits_handleHashedItems (hmax ?_)
      rcases hmode : request.mode with _ | _ | _
      · rfl
      · rw [hmode] at hlatest
        exact absurd rfl hlatest
      · rw [hmode] at hlatest
        exact absurd rfl hlatest

end

/-! ## The invariant -/

section

variable {V H K : Type} [LinearOrder K] {createValueHash : V → H}
  {toKey : DeduplicationMode → V → Option K}

structure Good [DecidableEq V] (createValueHash : V → H)
    (toKey : DeduplicationMode → V → Option K) (s : Deduplicator V H) :
    Prop where
  calls : ∀ call ∈ s.calls, Fits createValueHash toKey call
  reported : ReportedOnce createValueHash toKey s
  last : ∀ key, ∀ value ∈ storedAt s key, ∃ current,
    s.rows.get? key = some current ∧ Extends toKey value current

theorem Extends.refl (value : ProcessedValue V H) : Extends toKey value value := by
  refine ⟨rfl, ?_⟩
  obtain ⟨mode, data⟩ := value
  cases data with
  | entries data => exact fun _ h => h
  | latest data => exact .inl rfl

theorem Extends.trans {a b c : ProcessedValue V H}
    (h : Extends toKey a b) (h' : Extends toKey b c) : Extends toKey a c := by
  obtain ⟨hmode, hdata⟩ := h
  obtain ⟨hmode', hdata'⟩ := h'
  refine ⟨hmode'.trans hmode, ?_⟩
  rcases ha : a.data with x | x <;> rcases hb : b.data with y | y <;>
    rcases hc : c.data with z | z <;> simp only [ha, hb, hc] at hdata hdata' ⊢
  · exact fun hash hmem => hdata' hash (hdata hash hmem)
  · rw [hmode] at hdata'
    exact hdata.trans hdata'

variable {s : Deduplicator V H} {n : Nat} {request : Request V}
  {output : DeduplicationOutput V} {value : ProcessedValue V H}

theorem storedAt_store (key other : RowKey) (value : ProcessedValue V H) :
    storedAt (s.store key value) other
      = storedAt s other ++ if key = other then [value] else [] := by
  show ((s.stored ++ [(key, value)]).filter _).map Prod.snd = _
  rw [filter_append, map_append]
  by_cases h : key = other
  · rw [if_pos h, filter_cons_of_pos (by simpa using h)]
    rfl
  · rw [if_neg h, filter_cons_of_neg (by simpa using h)]
    rfl

theorem Recorded.store {key other : RowKey} {v : V}
    (hextends : ∀ old, s.rows.get? key = some old → Extends toKey old value)
    (h : Recorded createValueHash s other v) :
    Recorded createValueHash (s.store key value) other v := by
  obtain ⟨old, data, hget, hdata, hmem⟩ := h
  have hset : (s.store key value).rows.get? other
      = if key = other then some value else s.rows.get? other :=
    OrderedMap.get?_set ..
  by_cases hkey : key = other
  · subst hkey
    obtain ⟨-, hold⟩ := hextends old hget
    rw [hdata] at hold
    rw [if_pos rfl] at hset
    rcases hnew : value.data with new | new
    · rw [hnew] at hold
      exact ⟨value, new, hset, hnew, hold _ hmem⟩
    · rw [hnew] at hold
      exact hold.elim
  · rw [if_neg hkey] at hset
    exact ⟨old, data, hset.trans hget, hdata, hmem⟩

variable [DecidableEq V]

section

variable (hs : Good createValueHash toKey s)
include hs

theorem Good.setCalls {calls : List (Call V H)}
    (hcalls : ∀ call ∈ calls, Fits createValueHash toKey call) :
    Good createValueHash toKey { s with calls } :=
  { hs with
    calls := hcalls
    reported := { hs.reported with } }

theorem Good.endCall (n : Nat) : Good createValueHash toKey (s.endCall n) :=
  hs.setCalls fun call hmem =>
    hs.calls call (mem_of_mem_eraseIdx hmem)

theorem Good.setCall {call : Call V H} (hcall : Fits createValueHash toKey call) :
    Good createValueHash toKey (s.setCall n call) := by
  refine hs.setCalls ?_
  intro other hmem
  rcases mem_or_eq_of_mem_set hmem with hold | heq
  · exact hs.calls other hold
  · subst heq
    exact hcall

theorem Good.not_reported {key : RowKey} {v : V} (h : ¬ Recorded createValueHash s key v) :
    s.returned.countP (reports key v) = 0 := by
  rw [countP_eq_zero]
  intro r hmem hreports
  obtain ⟨hkey, hmode, hv⟩ := of_decide_eq_true hreports
  have hrecorded := hs.reported.recorded r hmem hmode v hv
  rw [hkey] at hrecorded
  exact h hrecorded

theorem Good.return_ (hnew : request.mode = .entries → ∀ v ∈ output.new,
      Recorded createValueHash s request.key v ∧ s.returned.countP (reports request.key v) = 0) :
    Good createValueHash toKey (s.return_ n request output) := by
  refine
    { calls := (hs.endCall n).calls
      reported :=
        { once := ?_
          recorded := ?_
          latest := hs.reported.latest }
      last := hs.last }
  · intro key v
    show (s.returned ++ [_]).countP _ ≤ 1
    rw [countP_append, countP_singleton]
    split
    · rename_i hreports
      obtain ⟨hkey, hmode, hv⟩ := of_decide_eq_true hreports
      have hkey' : request.key = key := hkey
      have hzero := (hnew hmode v hv).2
      rw [hkey'] at hzero
      omega
    · exact hs.reported.once key v
  · intro r hmem hmode v hv
    rcases mem_append.mp hmem with hold | hlast
    · exact hs.reported.recorded r hold hmode v hv
    · cases mem_singleton.mp hlast
      exact (hnew hmode v hv).1

/-- What is stored extends what was there. -/
theorem Good.store {key : RowKey}
    (hextends : ∀ old, s.rows.get? key = some old → Extends toKey old value) :
    Good createValueHash toKey (s.store key value) := by
  have hset : ∀ other, (s.store key value).rows.get? other
      = if key = other then some value else s.rows.get? other :=
    fun _ => OrderedMap.get?_set ..
  have hbefore : ∀ old ∈ storedAt s key, Extends toKey old value := by
    intro old hmem
    obtain ⟨current, hget, hold⟩ := hs.last key old hmem
    exact hold.trans (hextends current hget)
  refine
    { calls := hs.calls
      reported :=
        { once := hs.reported.once
          recorded := ?_
          latest := ?_ }
      last := ?_ }
  · intro r hmem hmode v hv
    exact (hs.reported.recorded r hmem hmode v hv).store hextends
  · intro other
    rw [storedAt_store]
    by_cases hkey : key = other
    · subst hkey
      rw [if_pos rfl, pairwise_append]
      refine ⟨hs.reported.latest key, pairwise_singleton .., ?_⟩
      intro old hold new hnew
      cases mem_singleton.mp hnew
      exact hbefore old hold
    · rw [if_neg hkey, append_nil]
      exact hs.reported.latest other
  · intro other old hmem
    rw [storedAt_store] at hmem
    rw [hset]
    by_cases hkey : key = other
    · subst hkey
      rw [if_pos rfl]
      rw [if_pos rfl] at hmem
      refine ⟨value, rfl, ?_⟩
      rcases mem_append.mp hmem with hold | hnew
      · exact hbefore old hold
      · cases mem_singleton.mp hnew
        exact Extends.refl value
    · rw [if_neg hkey, append_nil] at hmem
      rw [if_neg hkey]
      exact hs.last other old hmem

end

/-! ## Steps -/

theorem good_start : Good createValueHash toKey (.start : Deduplicator V H) :=
  { calls := fun _ h => by cases h
    reported :=
      { once := fun _ _ => Nat.zero_le _
        recorded := fun _ h => by cases h
        latest := fun _ => List.Pairwise.nil }
    last := fun _ _ h => by cases h }

section

variable (hs : Good createValueHash toKey s)
include hs

theorem Good.insert (hcall : .inserting request value output ∈ s.calls)
    (hnone : s.rows.get? request.key = none) :
    Good createValueHash toKey ((s.store request.key value).return_ n request output) := by
  have hfits := hs.calls _ hcall
  have hstored : Good createValueHash toKey (s.store request.key value) := by
    refine hs.store fun old h => ?_
    rw [hnone] at h
    cases h
  refine hstored.return_ ?_
  intro hmode v hv
  obtain ⟨data, hdata, hnew⟩ := hfits hmode
  have hget : (s.store request.key value).rows.get? request.key = some value :=
    (OrderedMap.get?_set ..).trans (if_pos rfl)
  refine ⟨⟨value, data, hget, hdata, hnew v hv⟩, hs.not_reported ?_⟩
  rintro ⟨old, -, hold, -⟩
  rw [hnone] at hold
  cases hold

theorem Good.update {read : ProcessedValue V H}
    (hcall : .updating request read value output ∈ s.calls)
    (hread : s.rows.get? request.key = some read) :
    Good createValueHash toKey ((s.store request.key value).return_ n request output) := by
  obtain ⟨hextends, hentries⟩ := hs.calls _ hcall
  have hstored : Good createValueHash toKey (s.store request.key value) := by
    refine hs.store fun old h => ?_
    rw [hread] at h
    cases h
    exact hextends
  refine hstored.return_ ?_
  intro hmode v hv
  obtain ⟨old, data, hold, hdata, hnew⟩ := hentries hmode
  obtain ⟨hfresh, hmem⟩ := hnew v hv
  have hget : (s.store request.key value).rows.get? request.key = some value :=
    (OrderedMap.get?_set ..).trans (if_pos rfl)
  refine ⟨⟨value, data, hget, hdata, hmem⟩, hs.not_reported ?_⟩
  rintro ⟨current, data', hcurrent, hdata', hin⟩
  rw [hread] at hcurrent
  cases hcurrent
  rw [hold] at hdata'
  cases hdata'
  exact hfresh hin

theorem Good.write {call : Call V H} {t : Deduplicator V H} (hcall : s.calls[n]? = some call)
    (hc : Unchanged s (.writes n)) (h : s.write n call = some t) :
    Good createValueHash toKey t := by
  have hmem := mem_of_getElem? hcall
  cases call with
  | finding request => cases h
  | inserting request value output =>
    rw [Deduplicator.write] at h
    split at h
    · cases h
      exact hs.endCall n
    · rename_i hnone
      cases h
      exact hs.insert hmem hnone
  | updating request read value output =>
    have hread := hc request read value output hcall
    rw [Deduplicator.write, hread] at h
    cases h
    exact hs.update hmem hread

end

variable [DecidableEq H]

theorem Good.find (hs : Good createValueHash toKey s)
    (hcall : s.calls[n]? = some (.finding request)) (hmax : BelowMaxEntries s (.finds n)) :
    Good createValueHash toKey (s.find createValueHash toKey n request) := by
  have hfits : OutcomeFits createValueHash toKey request
      (s.rows.get? request.key) (checkProcessedAndRecord createValueHash toKey
        request (s.rows.get? request.key)) :=
    outcomeFits (hmax request hcall)
  show Good createValueHash toKey
    (match checkProcessedAndRecord createValueHash toKey request (s.rows.get? request.key) with
    | .throws => _
    | .returns output => _
    | .inserts value output => _
    | .updates value output => _)
  split
  · exact hs.endCall n
  · rename_i output houtcome
    rw [houtcome] at hfits
    refine hs.return_ fun _ v hv => ?_
    have hnil : output.new = [] := hfits
    rw [hnil] at hv
    cases hv
  · rename_i value output houtcome
    rw [houtcome] at hfits
    exact hs.setCall hfits
  · rename_i value output houtcome
    rw [houtcome] at hfits
    split
    · exact hs.endCall n
    · rename_i read hread
      exact hs.setCall (hfits read hread)

/-- **ONE STEP**: the invariant survives every step that meets the
    conditions. -/
theorem Good.step {t : Deduplicator V H} {e : Event V} (hs : Good createValueHash toKey s)
    (h : Step createValueHash toKey s e t) (hc : BelowMaxEntries s e ∧ Unchanged s e) :
    Good createValueHash toKey t := by
  cases e with
  | check items scope contextData mode maxEntries =>
    cases h
    rw [Deduplicator.check]
    split
    · exact hs
    · split
      · exact hs
      · refine hs.setCalls ?_
        intro call hmem
        rcases mem_append.mp hmem with hold | hnew
        · exact hs.calls call hold
        · cases mem_singleton.mp hnew
          exact trivial
  | finds n =>
    rw [Step, Deduplicator.next] at h
    split at h
    · rename_i request hcall
      cases h
      exact hs.find hcall hc.1
    · cases h
  | writes n =>
    obtain ⟨call, hcall, hwrite⟩ := Option.bind_eq_some_iff.mp h
    exact hs.write hcall hc.2 hwrite
  | fails n =>
    obtain ⟨call, hcall, rfl⟩ := Option.map_eq_some_iff.mp h
    exact hs.endCall n

/-- **REPORTED ONCE**: in a run in which every update finds the row that its
    call has read, and the history stays below `maxEntries`, every value is
    reported as new by one call at most and stored once that call has
    returned, and the latest value that is stored never goes down. -/
theorem reportedOnce_of_unchanged {path : List (Event V × Deduplicator V H)}
    (hrun : IsRun (Step createValueHash toKey) .start path)
    (hc : EveryStep (fun s e => BelowMaxEntries s e ∧ Unchanged s e) .start path) :
    EveryState (ReportedOnce createValueHash toKey) .start path := by
  have hall : EveryState (Good createValueHash toKey) .start path :=
    everyState_of_everyStep hrun good_start (fun _ _ _ hs hstep hc => hs.step hstep hc) hc
  exact hall.mono fun _ hs => hs.reported

end

/-! ## Two runs -/

section

/-- Values that are their own hashes, and their own keys. -/
abbrev Numbers := Deduplicator Nat Nat

def numberKey : DeduplicationMode → Nat → Option Nat := fun _ => some

def after (s : Numbers) (e : Event Nat) : Numbers := (s.next id numberKey e).getD s

/-- A call of a workflow in entries mode. -/
def checks (items : List Nat) : Event Nat :=
  .check items .workflow { workflowId := "workflow", nodeId := none } .entries (some 10)

/-- One call after the other. -/
def inTurn : List (Event Nat) :=
  [checks [1, 2], .finds 0, .writes 0, checks [2, 3], .finds 0, .writes 0]

/-- Two calls read before one of them writes. -/
def overlapping : List (Event Nat) :=
  [checks [1], .finds 0, .writes 0, checks [2], checks [2], .finds 0,
    .finds 1, .writes 0, .writes 0]

theorem inTurn_reportedOnce :
    EveryState (ReportedOnce id numberKey) .start (pathOf after .start inTurn) := by
  have hrun : IsRun (Step id numberKey) .start (pathOf after .start inTurn) :=
    ⟨rfl, rfl, rfl, rfl, rfl, rfl, trivial⟩
  refine reportedOnce_of_unchanged hrun ?_
  refine ⟨⟨trivial, trivial⟩, ⟨?_, trivial⟩, ⟨trivial, ?_⟩,
    ⟨trivial, trivial⟩, ⟨?_, trivial⟩, ⟨trivial, ?_⟩, trivial⟩
  · intro request hcall _ max hmax
    cases hcall
    cases hmax
    exact .inr (by decide)
  · intro request read value output hcall
    cases hcall
  · intro request hcall _ max hmax
    cases hcall
    cases hmax
    exact .inr (by decide)
  · intro request read value output hcall
    cases hcall
    rfl

/-- Both calls report the value 2 as new. -/
theorem overlapping_reportsTwice :
    ¬ ∀ path : List (Event Nat × Numbers), IsRun (Step id numberKey) .start path →
        EveryStep BelowMaxEntries .start path →
        EveryState (ReportedOnce id numberKey) .start path := by
  intro hall
  have hrun : IsRun (Step id numberKey) .start (pathOf after .start overlapping) :=
    ⟨rfl, rfl, rfl, rfl, rfl, rfl, rfl, rfl, rfl, trivial⟩
  have hbelow : EveryStep BelowMaxEntries .start (pathOf after .start overlapping) := by
    refine ⟨trivial, ?_, trivial, trivial, trivial, ?_, ?_, trivial, trivial,
      trivial⟩
    all_goals
      intro request hcall _ max hmax
      cases hcall
      cases hmax
      exact .inr (by decide)
  have hlast := (hall _ hrun hbelow).last
  have htwice : (lastState .start (pathOf after .start overlapping)).returned.countP
        (reports { workflowId := "workflow", context := "" } 2) = 2 := by
    decide
  have honce := hlast.once { workflowId := "workflow", context := "" } 2
  omega

end

end N8nDeduplication
