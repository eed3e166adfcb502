import Mathlib.Data.List.Perm.Subperm
import N8n.DeduplicationProofs
import N8n.DirectedGraphProofs

/-! # Remove Duplicates across executions — every item kept or discarded

    An execution groups its items in a plain object by their dedupe values,
    sends the keys through the deduplication helper and looks the groups up
    again.  The object inherits names of its own, and a dedupe value that is
    one of them finds what is no array.

    An execution reads what the earlier ones have recorded (`Recorded`, kept
    by `Recorded.concat`).  It splits its items as it should exactly where
    no value is an inherited name and none has the hash of another value
    that was processed (`run_partitions_iff`). -/

namespace N8nRemoveDuplicates

open N8nOrderedMap N8nDeduplication List
open N8nDirectedGraph (objectPrototype propertyOrder propertyOrder_perm)

/-! ## The node -/

/-- An execution: its items with the values to dedupe on. -/
structure Execution (I : Type) where
  scope : DeduplicationScope
  contextData : ContextData
  historySize : Nat
  items : List (I × String)

inductive NodeError where
  /-- the number of items exceeds the history size -/
  | nodeOperationError
  | deduplicationError
  | assertionError
  | typeError

structure Output (I : Type) where
  kept : List I
  discarded : List I
  /-- whether a hint says that the history is more than half full -/
  hint : Bool

variable {I H K : Type} [DecidableEq H] [LinearOrder K]

/-- What is inherited under a name is truthy and has no `push`. -/
def addItem (itemMapping : OrderedMap String (List I)) (entry : I × String) :
    Except NodeError (OrderedMap String (List I)) :=
  match itemMapping.get? entry.2 with
  | some group => .ok (itemMapping.set entry.2 (group ++ [entry.1]))
  | none =>
    if entry.2 ∈ objectPrototype then .error .typeError
    else .ok (itemMapping.set entry.2 [entry.1])

/-- `keys.map(key => itemMapping[key]).flat()`. -/
def groupsOf (itemMapping : OrderedMap String (List I)) (keys : List String) : List I :=
  keys.flatMap fun key => (itemMapping.get? key).getD []

abbrev Rows (H : Type) := OrderedMap RowKey (ProcessedValue String H)

def getProcessedDataCount (rows : Rows H) (key : RowKey) : Nat := (history (rows.get? key)).length

section

variable (createValueHash : String → H) (toKey : DeduplicationMode → String → Option K)

/-- The call of the helper, and what it leaves in the table. -/
def checkAndRecord (rows : Rows H) (request : Request String) :
    Except NodeError (Rows H × DeduplicationOutput String) :=
  match checkProcessedAndRecord createValueHash toKey request (rows.get? request.key) with
  | .throws => .error .deduplicationError
  | .returns output => .ok (rows, output)
  | .inserts value output => .ok (rows.set request.key value, output)
  | .updates value output => .ok (rows.set request.key value, output)

/-- The branch `removeItemsWithAlreadySeenKeyValues`. -/
def execute (rows : Rows H) (e : Execution I) :
    Except NodeError (Rows H × Output I) := do
  let itemMapping ← e.items.foldlM addItem .empty
  match createContext e.scope e.contextData with
  | none => throw .deduplicationError
  | some context =>
    let key : RowKey := { workflowId := e.contextData.workflowId, context }
    if e.historySize < getProcessedDataCount rows key + e.items.length then
      throw .nodeOperationError
    -- `assert.ok(contextData.workflow.id)`
    else if e.contextData.workflowId = "" then throw .assertionError
    else
      let (rows, itemsProcessed) ← checkAndRecord createValueHash toKey rows
        { key
          items := propertyOrder itemMapping.keys
          mode := .entries
          maxEntries := some e.historySize }
      return (rows,
        { kept := groupsOf itemMapping itemsProcessed.new
          discarded := groupsOf itemMapping itemsProcessed.processed
          hint := 0 < e.historySize
            && e.historySize < 2 * getProcessedDataCount rows key })

/-- What the executions leave in the table; one that throws leaves it as it
    is. -/
def recordedBy (executions : List (Execution I)) : Rows H :=
  executions.foldl (fun rows e =>
    match execute createValueHash toKey rows e with
    | .ok (rows, _) => rows
    | .error _ => rows) .empty

end

/-! ## The property and the condition -/

/-- The row that the execution reads and writes. -/
def rowKey (e : Execution I) : RowKey :=
  { workflowId := e.contextData.workflowId
    context := (createContext e.scope e.contextData).getD "" }

/-- The workflow is saved, and the node known where the scope needs it. -/
def Ready (e : Execution I) : Prop :=
  e.contextData.workflowId ≠ "" ∧ (createContext e.scope e.contextData).isSome

/-- The values of the executions on the row. -/
def processedValues (executions : List (Execution I)) (key : RowKey) : List String :=
  (executions.filter fun e => rowKey e = key).flatMap fun e =>
    e.items.map Prod.snd

/-- The items whose value is among these, and the others. -/
def itemsIn (e : Execution I) (values : List String) : List I :=
  (e.items.filter fun item => item.2 ∈ values).map Prod.fst

def itemsNotIn (e : Execution I) (values : List String) : List I :=
  (e.items.filter fun item => item.2 ∉ values).map Prod.fst

section

variable (createValueHash : String → H) (toKey : DeduplicationMode → String → Option K)

/-- The history has room for the items. -/
def WithinHistory (earlier : List (Execution I)) (e : Execution I) : Prop :=
  getProcessedDataCount (recordedBy createValueHash toKey earlier) (rowKey e)
    + e.items.length ≤ e.historySize

/-- The execution returns, and keeps each of the items whose value no earlier
    execution processed, and discards each of the others. -/
def Partitions (earlier : List (Execution I)) (e : Execution I) : Prop :=
  ∃ rows output, execute createValueHash toKey
        (recordedBy createValueHash toKey earlier) e = .ok (rows, output)
      ∧ output.kept.Perm (itemsNotIn e (processedValues earlier (rowKey e)))
      ∧ output.discarded.Perm (itemsIn e (processedValues earlier (rowKey e)))

/-- No value is an inherited name. -/
def NotInherited (e : Execution I) : Prop := ∀ item ∈ e.items, item.2 ∉ objectPrototype

instance (e : Execution I) : Decidable (NotInherited e) :=
  inferInstanceAs (Decidable (∀ item ∈ e.items, item.2 ∉ objectPrototype))

/-- No value that was not processed has the hash of one that was. -/
def NoCollision (earlier : List (Execution I)) (e : Execution I) : Prop :=
  ∀ item ∈ e.items, ∀ v ∈ processedValues earlier (rowKey e),
    createValueHash item.2 = createValueHash v → item.2 ∈ processedValues earlier (rowKey e)

end

/-! ## Groups -/

/-- The items of the value. -/
def groupOf (entries : List (I × String)) (key : String) : List I :=
  (entries.filter fun entry => entry.2 = key).map Prod.fst

/-- The object holds the entries, grouped by their values. -/
structure Groups (itemMapping : OrderedMap String (List I))
    (entries : List (I × String)) : Prop where
  group : ∀ key, (itemMapping.get? key).getD [] = groupOf entries key
  keys : ∀ key, key ∈ itemMapping.keys ↔ key ∈ entries.map Prod.snd

theorem groups_empty : Groups (.empty : OrderedMap String (List I)) [] :=
  ⟨fun _ => rfl, fun _ => Iff.rfl⟩

theorem groupOf_concat (entries : List (I × String)) (entry : I × String) (key : String) :
    groupOf (entries ++ [entry]) key
      = groupOf entries key ++ if entry.2 = key then [entry.1] else [] := by
  by_cases h : entry.2 = key <;> simp [h, groupOf]

variable {itemMapping : OrderedMap String (List I)}

theorem Groups.set {entries : List (I × String)} (h : Groups itemMapping entries)
    (entry : I × String) :
    Groups (itemMapping.set entry.2 ((itemMapping.get? entry.2).getD [] ++ [entry.1]))
    (entries ++ [entry]) := by
  refine ⟨fun key => ?_, fun key => ?_⟩
  · rw [OrderedMap.get?_set, groupOf_concat, ← h.group key]
    by_cases hkey : entry.2 = key
    · rw [if_pos hkey, if_pos hkey, hkey]
      rfl
    · rw [if_neg hkey, if_neg hkey, append_nil]
  · rw [OrderedMap.mem_keys_set, h.keys key]
    simp [or_comm]

theorem addItem_eq {entry : I × String} (h : entry.2 ∉ objectPrototype) :
    addItem itemMapping entry
      = .ok (itemMapping.set entry.2 ((itemMapping.get? entry.2).getD [] ++ [entry.1])) := by
  rw [addItem]
  cases itemMapping.get? entry.2 with
  | some group => rfl
  | none => exact if_neg h

theorem foldlM_addItem_ok {done rest : List (I × String)} (hgroups : Groups itemMapping done)
    (h : ∀ entry ∈ rest, entry.2 ∉ objectPrototype) :
    ∃ mapping, rest.foldlM addItem itemMapping = .ok mapping ∧ Groups mapping (done ++ rest) := by
  induction rest generalizing itemMapping done with
  | nil =>
    rw [append_nil]
    exact ⟨itemMapping, rfl, hgroups⟩
  | cons entry rest ih =>
    obtain ⟨hentry, hrest⟩ := forall_mem_cons.mp h
    obtain ⟨mapping, hfold, hmapping⟩ := ih (hgroups.set entry) hrest
    rw [append_assoc] at hmapping
    refine ⟨mapping, ?_, hmapping⟩
    rw [foldlM_cons, addItem_eq hentry]
    exact hfold

theorem foldlM_addItem_error {rest : List (I × String)}
    (hkeys : ∀ key ∈ objectPrototype, itemMapping.get? key = none)
    (h : ∃ entry ∈ rest, entry.2 ∈ objectPrototype) :
    rest.foldlM addItem itemMapping = .error .typeError := by
  induction rest generalizing itemMapping with
  | nil => simp at h
  | cons entry rest ih =>
    rw [foldlM_cons]
    by_cases hentry : entry.2 ∈ objectPrototype
    · rw [addItem, hkeys _ hentry]
      rw [if_pos hentry]
      rfl
    · rw [addItem_eq hentry]
      refine ih ?_ ?_
      · intro key hkey
        have hne : entry.2 ≠ key := fun heq => hentry (heq ▸ hkey)
        rw [OrderedMap.get?_set, if_neg hne, hkeys key hkey]
      · simpa [hentry] using h

theorem flatMap_groupOf_perm (entries : List (I × String)) {keys : List String} (h : keys.Nodup) :
    (keys.flatMap (groupOf entries)).Perm
      ((entries.filter fun entry => entry.2 ∈ keys).map Prod.fst) := by
  induction keys with
  | nil => simp
  | cons key rest ih =>
    obtain ⟨hkey, hrest⟩ := nodup_cons.mp h
    have hsplit := (filter_append_perm (fun entry => entry.2 = key)
      (entries.filter fun entry => entry.2 ∈ key :: rest)).map Prod.fst
    refine List.Perm.trans ?_ hsplit
    rw [map_append, filter_filter, filter_filter]
    refine List.Perm.append (.of_eq ?_) ((ih hrest).trans (.of_eq ?_))
    · refine congrArg (List.map Prod.fst) (filter_congr ?_)
      intro entry _
      by_cases hentry : entry.2 = key <;> simp [hentry]
    · refine congrArg (List.map Prod.fst) (filter_congr ?_)
      intro entry _
      by_cases hentry : entry.2 = key
      · simp [hentry, hkey]
      · simp [hentry]

theorem groupsOf_perm {entries : List (I × String)} (h : Groups itemMapping entries)
    {keys : List String} (hkeys : keys.Nodup) :
    (groupsOf itemMapping keys).Perm
      ((entries.filter fun entry => entry.2 ∈ keys).map Prod.fst) := by
  have heq : groupsOf itemMapping keys = keys.flatMap (groupOf entries) := by
    exact congrArg (fun f => keys.flatMap f) (funext h.group)
  rw [heq]
  exact flatMap_groupOf_perm entries hkeys

/-! ## What is recorded -/

section

variable {createValueHash : String → H}
  {toKey : DeduplicationMode → String → Option K}

theorem foldl_checkEntry_eq (set : List H) (items : List String)
    (output : DeduplicationOutput String) (data : List H) :
    items.foldl (checkEntry createValueHash set) (output, data)
      = ({ new := output.new ++ items.filter fun v => createValueHash v ∉ set
           processed := output.processed ++ items.filter fun v => createValueHash v ∈ set },
        data ++ (items.filter fun v =>
          createValueHash v ∉ set).map createValueHash) := by
  induction items generalizing output data with
  | nil => simp
  | cons v rest ih =>
    rw [foldl_cons, checkEntry]
    by_cases hv : createValueHash v ∈ set
    · rw [if_pos hv, ih]
      simp [hv]
    · rw [if_neg hv, ih]
      simp [hv]

/-- The rows hold entries, and these are the hashes of the values that the
    executions processed. -/
structure Remembers (createValueHash : String → H) (rows : Rows H)
    (executions : List (Execution I)) : Prop where
  entries : ∀ key value, rows.get? key = some value →
    ∃ data, value = { mode := .entries, data := .entries data }
  hashes : ∀ key h, h ∈ history (rows.get? key)
    ↔ ∃ v ∈ processedValues executions key, createValueHash v = h

omit [DecidableEq H] in
theorem remembers_empty : Remembers (I := I) createValueHash .empty [] := by
  constructor
  · intro key value h
    cases h
  · intro key h
    refine iff_of_false (fun hmem => ?_) ?_
    · cases hmem
    · rintro ⟨v, hv, -⟩
      cases hv

variable (toKey) in
/-- What a call of the helper returns and records within the history. -/
theorem checkAndRecord_eq {rows : Rows H} {executions : List (Execution I)}
    (hrows : Remembers createValueHash rows executions) {key : RowKey}
    {items : List String} {max : Nat}
    (hmax : (history (rows.get? key)).length + items.length ≤ max) :
    let set := history (rows.get? key)
    checkAndRecord createValueHash toKey rows
        { key, items, mode := .entries, maxEntries := some max }
      = .ok (rows.set key
          { mode := .entries
            data := .entries (set ++ (items.filter fun v =>
              createValueHash v ∉ set).map createValueHash) },
        { new := items.filter fun v => createValueHash v ∉ set
          processed := items.filter fun v => createValueHash v ∈ set }) := by
  intro set
  have hkeep (data : List H) (hlength : data.length ≤ max) :
      keepLast (some max) data = data := by
    refine keepLast_eq fun m hm => .inr ?_
    cases hm
    exact hlength
  rw [checkAndRecord, checkProcessedAndRecord]
  cases hrow : rows.get? key with
  | none =>
    have hset : set = [] := by
      show history (rows.get? key) = []
      rw [hrow]
      rfl
    have hlength : (items.map createValueHash).length ≤ max := by
      rw [length_map]
      omega
    simp [handleHashedItems, hset, hkeep _ hlength, DeduplicationMode.isLatest]
  | some value =>
    obtain ⟨data, rfl⟩ := hrows.entries key value hrow
    have hset : set = data := by
      show history (rows.get? key) = data
      rw [hrow]
      rfl
    have hlength : (data ++ (items.filter fun v =>
        createValueHash v ∉ data).map createValueHash).length ≤ max := by
      have hfilter := length_filter_le (fun v => decide (createValueHash v ∉ data)) items
      rw [hrow] at hmax
      rw [length_append, length_map]
      exact Nat.le_trans (Nat.add_le_add_left hfilter _) hmax
    have hkept := hkeep _ hlength
    simp only [decide_not] at hkept
    simp [handleHashedItems, hset, foldl_checkEntry_eq, hkept, DeduplicationMode.isLatest]

omit [DecidableEq H] in
theorem processedValues_concat (executions : List (Execution I)) (e : Execution I) (key : RowKey) :
    processedValues (executions ++ [e]) key
      = processedValues executions key ++ if rowKey e = key then e.items.map Prod.snd else [] := by
  by_cases h : rowKey e = key <;> simp [h, processedValues]

theorem Remembers.concat {rows : Rows H} {executions : List (Execution I)}
    (hrows : Remembers createValueHash rows executions) (e : Execution I)
    {items : List String} (hitems : ∀ v, v ∈ items ↔ v ∈ e.items.map Prod.snd) :
    let set := history (rows.get? (rowKey e))
    Remembers createValueHash (rows.set (rowKey e)
        { mode := .entries
          data := .entries (set ++ (items.filter fun v =>
            createValueHash v ∉ set).map createValueHash) })
      (executions ++ [e]) := by
  intro set
  constructor
  · intro key value hget
    rw [OrderedMap.get?_set] at hget
    split at hget
    · cases hget
      exact ⟨_, rfl⟩
    · exact hrows.entries key value hget
  · intro key h
    rw [OrderedMap.get?_set, processedValues_concat]
    by_cases hkey : rowKey e = key
    · subst hkey
      rw [if_pos rfl, if_pos rfl]
      show h ∈ set ++ (items.filter fun v =>
        createValueHash v ∉ set).map createValueHash ↔ _
      have hset := hrows.hashes (rowKey e)
      simp only [mem_append, mem_map, mem_filter, hitems, decide_eq_true_iff]
      constructor
      · rintro (hold | ⟨v, ⟨hv, -⟩, rfl⟩)
        · obtain ⟨v, hv, hhash⟩ := (hset h).mp hold
          exact ⟨v, .inl hv, hhash⟩
        · exact ⟨v, .inr hv, rfl⟩
      · rintro ⟨v, hv | hv, rfl⟩
        · exact .inl ((hset _).mpr ⟨v, hv, rfl⟩)
        · by_cases hold : createValueHash v ∈ set
          · exact .inl hold
          · exact .inr ⟨v, ⟨hv, hold⟩, rfl⟩
    · rw [if_neg hkey, if_neg hkey, append_nil]
      exact hrows.hashes key h

theorem nodup_propertyOrder (itemMapping : OrderedMap String (List I)) :
    (propertyOrder itemMapping.keys).Nodup :=
  (propertyOrder_perm _).nodup_iff.mpr itemMapping.nodup

section

variable {entries : List (I × String)} {itemMapping : OrderedMap String (List I)}
  (h : Groups itemMapping entries)
include h

theorem length_propertyOrder_le : (propertyOrder itemMapping.keys).length ≤ entries.length := by
  have hsub : propertyOrder itemMapping.keys ⊆ entries.map Prod.snd := by
    intro key hkey
    exact (h.keys key).mp (N8nDirectedGraph.mem_propertyOrder.mp hkey)
  have hlength := (List.Nodup.subperm (nodup_propertyOrder itemMapping) hsub).length_le
  rwa [length_map] at hlength

theorem groupsOf_filter_perm (p : String → Bool) :
    (groupsOf itemMapping ((propertyOrder itemMapping.keys).filter p)).Perm
      ((entries.filter fun entry => p entry.2).map Prod.fst) := by
  refine (groupsOf_perm h ((nodup_propertyOrder itemMapping).filter p)).trans
    (.of_eq (congrArg (List.map Prod.fst) (filter_congr ?_)))
  intro entry hentry
  have hkey : entry.2 ∈ propertyOrder itemMapping.keys :=
    N8nDirectedGraph.mem_propertyOrder.mpr ((h.keys entry.2).mpr (mem_map_of_mem hentry))
  simp [hkey]

end

variable (toKey) in
/-- An execution without inherited names returns, split by the hashes that
    were recorded. -/
theorem execute_ok {rows : Rows H} {executions : List (Execution I)}
    (hrows : Remembers createValueHash rows executions) {e : Execution I} (hready : Ready e)
    (hsize : getProcessedDataCount rows (rowKey e) + e.items.length
      ≤ e.historySize) (hnames : NotInherited e) :
    ∃ rows' output, execute createValueHash toKey rows e = .ok (rows', output)
      ∧ output.kept.Perm ((e.items.filter fun item =>
        createValueHash item.2 ∉ history (rows.get? (rowKey e))).map Prod.fst)
      ∧ output.discarded.Perm ((e.items.filter fun item =>
        createValueHash item.2 ∈ history (rows.get? (rowKey e))).map Prod.fst)
      ∧ Remembers createValueHash rows' (executions ++ [e]) := by
  obtain ⟨itemMapping, hfold, hgroups⟩ := foldlM_addItem_ok groups_empty hnames
  rw [nil_append] at hgroups
  obtain ⟨hid, hcontext⟩ := hready
  obtain ⟨context, hcontext⟩ := Option.isSome_iff_exists.mp hcontext
  have hkey : rowKey e = { workflowId := e.contextData.workflowId, context } := by
    rw [rowKey, hcontext]
    rfl
  have hmax : (history (rows.get? (rowKey e))).length
      + (propertyOrder itemMapping.keys).length ≤ e.historySize :=
    Nat.le_trans (Nat.add_le_add_left (length_propertyOrder_le hgroups) _) hsize
  have hcheck := checkAndRecord_eq toKey hrows hmax
  have hexecute : execute createValueHash toKey rows e
      = (checkAndRecord createValueHash toKey rows
          { key := rowKey e
            items := propertyOrder itemMapping.keys
            mode := .entries
            maxEntries := some e.historySize }).bind fun r =>
        .ok (r.1,
          { kept := groupsOf itemMapping r.2.new
            discarded := groupsOf itemMapping r.2.processed
            hint := 0 < e.historySize
              && e.historySize < 2 * getProcessedDataCount r.1 (rowKey e) }) := by
    rw [hkey] at hsize ⊢
    rw [execute, hfold]
    show (match createContext e.scope e.contextData with
      | none => _
      | some context => _) = _
    rw [hcontext]
    dsimp only
    rw [if_neg (Nat.not_lt.mpr hsize), if_neg hid]
    rfl
  rw [hexecute, hcheck]
  refine ⟨_, _, rfl, ?_, ?_, ?_⟩
  · exact groupsOf_filter_perm hgroups _
  · exact groupsOf_filter_perm hgroups _
  · refine hrows.concat e fun v => ?_
    rw [N8nDirectedGraph.mem_propertyOrder, hgroups.keys v]

theorem execute_error (rows : Rows H) {e : Execution I} (hnames : ¬ NotInherited e) :
    execute createValueHash toKey rows e = .error .typeError := by
  have hfold : e.items.foldlM addItem .empty = .error .typeError := by
    refine foldlM_addItem_error (fun _ _ => rfl) ?_
    simpa [NotInherited] using hnames
  rw [execute, hfold]
  rfl

/-! ## Runs -/

/-- The run has room in the history for each of its executions. -/
def Fits (createValueHash : String → H) (toKey : DeduplicationMode → String → Option K)
    (run : List (Execution I)) : Prop :=
  ∀ earlier e later, run = earlier ++ e :: later → WithinHistory createValueHash toKey earlier e

theorem recordedBy_concat (executions : List (Execution I)) (e : Execution I) :
    recordedBy createValueHash toKey (executions ++ [e])
      = match execute createValueHash toKey (recordedBy createValueHash toKey executions) e with
        | .ok (rows, _) => rows
        | .error _ => recordedBy createValueHash toKey executions := by
  rw [recordedBy, foldl_concat]
  rfl

theorem remembers_recordedBy {run : List (Execution I)} (hready : ∀ e ∈ run, Ready e)
    (hfits : Fits createValueHash toKey run) (hnames : ∀ e ∈ run, NotInherited e) :
    Remembers createValueHash (recordedBy createValueHash toKey run) run := by
  induction run using List.reverseRecOn with
  | nil => exact remembers_empty
  | append_singleton executions e ih =>
    have hrows := ih (fun e' he' => hready e' (mem_append_left _ he'))
      (fun earlier e' later h => hfits earlier e' (later ++ [e]) (by
        rw [h, append_assoc, cons_append]))
      (fun e' he' => hnames e' (mem_append_left _ he'))
    have hmem : e ∈ executions ++ [e] := by simp
    obtain ⟨rows', output, hexecute, -, -, hrows'⟩ :=
      execute_ok toKey hrows (hready e hmem) (hfits executions e [] rfl) (hnames e hmem)
    rw [recordedBy_concat, hexecute]
    exact hrows'

theorem pass_of_map_perm {items : List (I × String)}
    {p q : I × String → Bool} (himp : ∀ x ∈ items, p x = true → q x = true)
    (hperm : ((items.filter p).map Prod.fst).Perm ((items.filter q).map Prod.fst)) :
    ∀ x ∈ items, q x = true → p x = true := by
  intro x hx hq
  have hlength := hperm.length_eq
  rw [length_map, length_map] at hlength
  have hsub : (items.filter q).filter p = items.filter p := by
    rw [filter_filter]
    refine filter_congr fun y hy => ?_
    cases hp : p y with
    | false => simp
    | true => simp [himp y hy hp]
  have hall := length_filter_eq_length_iff.mp ((congrArg List.length hsub).trans hlength)
  exact hall x (mem_filter.mpr ⟨hx, hq⟩)

theorem notInherited_of_partitions {earlier : List (Execution I)}
    {e : Execution I} (h : Partitions createValueHash toKey earlier e) :
    NotInherited e := by
  obtain ⟨rows, output, hexecute, -, -⟩ := h
  refine Classical.by_contradiction fun hnames => ?_
  rw [execute_error _ hnames] at hexecute
  cases hexecute

/-- One execution, after executions whose values the table remembers. -/
theorem partitions_iff {earlier : List (Execution I)} {e : Execution I}
    (hrows : Remembers createValueHash (recordedBy createValueHash toKey earlier) earlier)
    (hready : Ready e) (hsize : WithinHistory createValueHash toKey earlier e) :
    Partitions createValueHash toKey earlier e
      ↔ NotInherited e ∧ NoCollision createValueHash earlier e := by
  -- what was processed is recorded
  have hrecorded (v : String) (hv : v ∈ processedValues earlier (rowKey e)) :
      createValueHash v ∈ history ((recordedBy createValueHash toKey earlier).get? (rowKey e)) :=
    (hrows.hashes _ _).mpr ⟨v, hv, rfl⟩
  constructor
  · intro h
    have hnames := notInherited_of_partitions h
    refine ⟨hnames, ?_⟩
    obtain ⟨rows, output, hexecute, hkept, -⟩ := h
    obtain ⟨rows', output', hexecute', hkept', -, -⟩ := execute_ok toKey hrows hready hsize hnames
    rw [hexecute] at hexecute'
    cases hexecute'
    have hall := pass_of_map_perm (fun item _ hnew => by
        refine decide_eq_true fun hold => ?_
        exact of_decide_eq_true hnew (hrecorded item.2 hold))
      (hkept'.symm.trans hkept)
    intro item hitem v hv hhash
    refine Classical.by_contradiction fun hnot => ?_
    have hnew := of_decide_eq_true (hall item hitem (decide_eq_true hnot))
    rw [hhash] at hnew
    exact hnew (hrecorded v hv)
  · rintro ⟨hnames, hcollision⟩
    obtain ⟨rows, output, hexecute, hkept, hdiscarded, -⟩ :=
      execute_ok toKey hrows hready hsize hnames
    have hsame (item : I × String) (hitem : item ∈ e.items) :
        createValueHash item.2 ∈ history ((recordedBy createValueHash toKey
            earlier).get? (rowKey e))
          ↔ item.2 ∈ processedValues earlier (rowKey e) := by
      refine ⟨fun h => ?_, hrecorded item.2⟩
      obtain ⟨v, hv, hhash⟩ := (hrows.hashes _ _).mp h
      exact hcollision item hitem v hv hhash.symm
    refine ⟨rows, output, hexecute, ?_, ?_⟩
    · refine hkept.trans (.of_eq (congrArg (List.map Prod.fst) ?_))
      refine filter_congr fun item hitem => ?_
      simp [hsame item hitem]
    · refine hdiscarded.trans (.of_eq (congrArg (List.map Prod.fst) ?_))
      refine filter_congr fun item hitem => ?_
      simp [hsame item hitem]

theorem Fits.earlier {run earlier later : List (Execution I)}
    {e : Execution I} (h : Fits createValueHash toKey run)
    (hrun : run = earlier ++ e :: later) :
    Fits createValueHash toKey earlier := by
  intro before e' after hsplit
  refine h before e' (after ++ e :: later) ?_
  rw [hrun, hsplit, append_assoc, cons_append]

/-- **EVERY EXECUTION PARTITIONS ITS ITEMS** exactly where no value is an
    inherited name and none has the hash of another value that was
    processed. -/
theorem run_partitions_iff (run : List (Execution I)) (hready : ∀ e ∈ run, Ready e)
    (hfits : Fits createValueHash toKey run) :
    (∀ earlier e later, run = earlier ++ e :: later → Partitions createValueHash toKey earlier e)
      ↔ ∀ earlier e later, run = earlier ++ e :: later →
        NotInherited e ∧ NoCollision createValueHash earlier e := by
  have hone (hnames : ∀ e ∈ run, NotInherited e) (earlier : List (Execution I)) (e : Execution I)
      (later : List (Execution I)) (hrun : run = earlier ++ e :: later) :
      Partitions createValueHash toKey earlier e
        ↔ NotInherited e ∧ NoCollision createValueHash earlier e := by
    have hmem (e' : Execution I) (he' : e' ∈ earlier) : e' ∈ run := hrun ▸ mem_append_left _ he'
    have hrows := remembers_recordedBy (fun e' he' => hready e' (hmem e' he'))
      (hfits.earlier hrun) (fun e' he' => hnames e' (hmem e' he'))
    exact partitions_iff hrows (hready e (hrun ▸ by simp)) (hfits earlier e later hrun)
  constructor
  · intro h
    have hnames (e : Execution I) (he : e ∈ run) : NotInherited e := by
      obtain ⟨earlier, later, hrun⟩ := append_of_mem he
      exact notInherited_of_partitions (h earlier e later hrun)
    intro earlier e later hrun
    exact (hone hnames earlier e later hrun).mp (h earlier e later hrun)
  · intro h
    have hnames (e : Execution I) (he : e ∈ run) : NotInherited e := by
      obtain ⟨earlier, later, hrun⟩ := append_of_mem he
      exact (h earlier e later hrun).1
    intro earlier e later hrun
    exact (hone hnames earlier e later hrun).mpr (h earlier e later hrun)

end

/-! ## Two executions -/

/-- Values that are no numbers and no dates. -/
def noKey : DeduplicationMode → String → Option Nat := fun _ _ => none

/-- An execution of numbered items with these values. -/
def executionOf (values : List String) : Execution Nat where
  scope := .workflow
  contextData := { workflowId := "w", nodeId := some "n" }
  historySize := 10000
  items := values.zipIdx.map fun v => (v.2, v.1)

theorem fits_one (values : List String) (h : values.length ≤ 10000) :
    Fits (I := Nat) id noKey [executionOf values] := by
  intro earlier e later hrun
  cases earlier with
  | nil =>
    obtain ⟨rfl, -⟩ := List.cons.inj hrun
    show 0 + (executionOf values).items.length ≤ 10000
    rw [executionOf, length_map, length_zipIdx, Nat.zero_add]
    exact h
  | cons e' rest => simp at hrun

/-- Two items of one value are both kept. -/
theorem partitions_same : Partitions id noKey [] (executionOf ["a", "a", "b"]) := by
  refine (run_partitions_iff [executionOf ["a", "a", "b"]] ?_
    (fits_one _ (by decide))).mpr ?_ [] _ [] rfl
  · intro e he
    cases mem_singleton.mp he
    exact ⟨by decide, rfl⟩
  · intro earlier e later hrun
    cases earlier with
    | nil =>
      obtain ⟨rfl, -⟩ := List.cons.inj hrun
      exact ⟨by decide, fun _ _ v hv => by cases hv⟩
    | cons e' rest => simp at hrun

/-- The first item with the value `constructor` ends its execution. -/
theorem not_partitions_constructor :
    ¬ ∀ run : List (Execution Nat), (∀ e ∈ run, Ready e) →
      Fits id noKey run → ∀ earlier e later, run = earlier ++ e :: later →
        Partitions id noKey earlier e := by
  intro h
  have hready : ∀ e ∈ [executionOf ["constructor"]], Ready e := by
    intro e he
    cases mem_singleton.mp he
    exact ⟨by decide, rfl⟩
  obtain ⟨rows, output, hexecute, -, -⟩ := h _ hready (fits_one _ (by decide)) [] _ [] rfl
  have hnames : ¬ NotInherited (executionOf ["constructor"]) := by decide
  cases hexecute

end N8nRemoveDuplicates
