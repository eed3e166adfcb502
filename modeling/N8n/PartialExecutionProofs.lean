import N8n.RunProofs
import N8n.WorkflowExecuteProofs

/-! # Partial executions — a waiting table made from run data

    `recreateNodeExecutionStack` restores the stack and the waiting table
    from the data of an earlier execution.  It groups the connections into a
    start node so that a group has one connection for each input; a group
    with data on every connection becomes a stack entry, and of any other
    group the data that is there becomes a waiting entry.

    Such an entry has no element for an input without data, where an entry
    made by the engine has `null`.  The engine takes an entry without `null`
    to be complete.  So a node is put on the stack with all its inputs
    exactly when no delivery goes to a recreated entry that lacks another
    input as well (`settles_iff_fillsLastGap`). -/

namespace N8nPartialExecution

open N8nRun N8nExcept N8nOrderedMap N8nWorkflow N8nWorkflowExecute List OrderedMap

variable {P V : Type}

/-! ## The graph -/

structure GraphConnection (P : Type) where
  fromNode : INode P
  toNode : INode P
  type : NodeConnectionType
  outputIndex : Nat
  inputIndex : Nat

/-- Nodes by name; two of them are the same if they have the same name. -/
structure DirectedGraph (P : Type) where
  nodes : OrderedMap String (INode P)
  connections : List (GraphConnection P)

/-- `getConnections({ to: node })`. -/
def getConnections (graph : DirectedGraph P) (node : INode P) : List (GraphConnection P) :=
  graph.connections.filter fun c => c.toNode.name = node.name

def getDirectParentConnections (graph : DirectedGraph P) (node : INode P) :
    Except EngineError (List (GraphConnection P)) :=
  if graph.nodes.has node.name then .ok (getConnections graph node)
  else .error (.assertionError none)

abbrev IPinData (V : Type) := OrderedMap String (List (INodeExecutionData V))

/-! ## Groups of connections -/

/-- Connections to different inputs; `complete` if each has data. -/
structure SourceConnectionGroup (P : Type) where
  complete : Bool
  connections : List (GraphConnection P)

def newGroup : SourceConnectionGroup P :=
  { complete := true, connections := [] }

section

variable (localeCompare : String → String → Int)

def sortByInputIndexThenByName (connection1 connection2 : GraphConnection P) : Int :=
  if connection1.inputIndex = connection2.inputIndex then
    localeCompare connection1.fromNode.name connection2.fromNode.name
  else (connection1.inputIndex : Int) - connection2.inputIndex

def sortConnections (connections : List (GraphConnection P)) : List (GraphConnection P) :=
  connections.insertionSort fun c c' =>
    sortByInputIndexThenByName localeCompare c c' ≤ 0

end

def toInput (inputIndex : Nat) (c : GraphConnection P) : Bool := c.inputIndex = inputIndex

/-- The least input index there is. -/
def minInput (connections : List (GraphConnection P)) : Nat :=
  ((connections.map (·.inputIndex)).min?).getD 0

/-- The loop of `getSourceDataGroups`.  A group takes the first connection
    to the next input, one with data if there is one; without any it ends,
    and the next group starts at the least input left. -/
def groupLoop : Nat → Nat → List (GraphConnection P) →
    List (GraphConnection P) → SourceConnectionGroup P → List (SourceConnectionGroup P)
  | 0, _, _, _, currentGroup => [currentGroup]
  | fuel + 1, currentInputIndex, withData, withoutData, currentGroup =>
    if withData.isEmpty && withoutData.isEmpty then [currentGroup]
    else
      match withData.find? (toInput currentInputIndex) with
      | some connection =>
        groupLoop fuel (currentInputIndex + 1)
          (withData.eraseP (toInput currentInputIndex)) withoutData
          { currentGroup with
            connections := currentGroup.connections ++ [connection] }
      | none =>
        match withoutData.find? (toInput currentInputIndex) with
        | some connection =>
          groupLoop fuel (currentInputIndex + 1) withData
            (withoutData.eraseP (toInput currentInputIndex))
            { complete := false
              connections := currentGroup.connections ++ [connection] }
        | none =>
          currentGroup :: groupLoop fuel
            (minInput (withData ++ withoutData)) withData withoutData newGroup

/-- Every connection is taken once, and a group ends at most once for each
    connection. -/
def groupFuel (withData withoutData : List (GraphConnection P)) : Nat :=
  2 * (withData.length + withoutData.length) + 1

def getSourceDataGroups (localeCompare : String → String → Int)
    (graph : DirectedGraph P) (node : INode P) (runData : IRunData V)
    (pinnedData : IPinData V) : List (SourceConnectionGroup P) :=
  let hasData (c : GraphConnection P) : Bool :=
    runData.has c.fromNode.name || pinnedData.has c.fromNode.name
  let connections := getConnections graph node
  let withData := sortConnections localeCompare (connections.filter hasData)
  let withoutData := sortConnections localeCompare
    (connections.filter fun c => !hasData c && c.type = .main)
  if withData.isEmpty && withoutData.isEmpty then []
  else
    groupLoop (groupFuel withData withoutData)
      (minInput (withData ++ withoutData)) withData withoutData newGroup

/-! ## Data of earlier runs -/

/-- A run without the connection type is an error; `null` is none. -/
def getIncomingData (runData : IRunData V) (nodeName : String) (runIndex : Nat)
    (connectionType : NodeConnectionType) (outputIndex : Nat) :
    Except EngineError (Option (List (INodeExecutionData V))) :=
  match ((runData.get? nodeName).bind (·[runIndex]?)).bind (·.data) with
  | none => .ok none
  | some data =>
    match data.get? connectionType with
    | none => .error .typeError
    | some outputs =>
      match slotAt outputs outputIndex with
      | .value items => .ok (some items)
      | _ => .ok none

def firstRunWithData (runData : IRunData V) (nodeName : String)
    (connectionType : NodeConnectionType) (outputIndex : Nat) :
    List Nat → Except EngineError (Option (List (INodeExecutionData V) × Nat))
  | [] => .ok none
  | runIndex :: rest => do
      match ← getIncomingData runData nodeName runIndex connectionType outputIndex with
      | some (item :: items) => return some (item :: items, runIndex)
      | _ => firstRunWithData runData nodeName connectionType outputIndex rest

def getIncomingDataFromAnyRun (runData : IRunData V) (nodeName : String)
    (connectionType : NodeConnectionType) (outputIndex : Nat) :
    Except EngineError (Option (List (INodeExecutionData V) × Nat)) :=
  firstRunWithData runData nodeName connectionType outputIndex
    (List.range ((runData.get? nodeName).getD []).length)

/-! ## The stack and the waiting table -/

structure Recreated (P V : Type) where
  nodeExecutionStack : List (IExecuteData P V)
  waitingExecution : IWaitingForExecution V

/-- `addWaitingExecution` and `addWaitingExecutionSource`: what is missing
    on the way to the element is made, and the element is written. -/
def addWaitingExecution (waitingExecution : IWaitingForExecution V)
    (nodeName : String) (runIndex : Nat) (inputType : NodeConnectionType)
    (inputIndex : Nat) (executionData : List (INodeExecutionData V))
    (sourceData : ISourceData) : IWaitingForExecution V :=
  let waiting := waitingNode waitingExecution nodeName
  let entry := (waiting.get? runIndex).getD
    { data := .empty, source := .empty }
  waitingExecution.set nodeName <| waiting.set runIndex
    { data := entry.data.set inputType (setSlot (.value executionData)
        inputIndex ((entry.data.get? inputType).getD []))
      source := entry.source.set inputType (setSlot (.value sourceData)
        inputIndex ((entry.source.get? inputType).getD [])) }

section

variable (runData : IRunData V) (pinData : IPinData V)

/-- One connection of an incomplete group. -/
def addIncoming (nodeName : String) (nextRunIndex : Nat)
    (waitingExecution : IWaitingForExecution V) (c : GraphConnection P) :
    Except EngineError (IWaitingForExecution V) := do
  match ← getIncomingDataFromAnyRun runData c.fromNode.name c.type c.outputIndex with
  | none => return waitingExecution
  | some (data, _) =>
    return addWaitingExecution waitingExecution nodeName nextRunIndex c.type c.inputIndex data
      { previousNode := c.fromNode.name
        previousNodeOutput := some c.outputIndex
        previousNodeRun := some nextRunIndex }

/-- One connection of a complete group: pinned data goes before the data of
    a run. -/
def pushIncoming (incoming : List (Slot (List (INodeExecutionData V))) × List (Slot ISourceData))
    (c : GraphConnection P) :
    Except EngineError (List (Slot (List (INodeExecutionData V))) × List (Slot ISourceData)) := do
  let found : Option (List (INodeExecutionData V) × Nat) ←
    match pinData.get? c.fromNode.name with
    | some data => .ok (some (data, 0))
    | none =>
      if runData.has c.fromNode.name then
        getIncomingDataFromAnyRun runData c.fromNode.name c.type c.outputIndex
      else
        .error (.assertionError (some ("Start node(" ++ c.toNode.name
          ++ ") has an incoming connection with no run or pinned data."
          ++ " This is not supported. The connection in question is \""
          ++ c.fromNode.name ++ "->" ++ c.toNode.name
          ++ "\". Are you sure the start nodes come from the"
          ++ " \"findStartNodes\" function?")))
  let runIndex := (found.map Prod.snd).getD 0
  return (incoming.1 ++ (found.map fun p => Slot.value p.1).toList,
    incoming.2 ++ [.value
      { previousNode := c.fromNode.name
        previousNodeOutput := some c.outputIndex
        previousNodeRun := some runIndex }])

/-- A complete group becomes a stack entry, any other a waiting entry. -/
def recreateGroup (startNode : INode P) (recreated : Recreated P V)
    (group : SourceConnectionGroup P) :
    Except EngineError (Recreated P V) := do
  if group.complete then
    let (incomingData, incomingSourceData) ←
      group.connections.foldlM (pushIncoming runData pinData) ([], [])
    return { recreated with
      nodeExecutionStack := recreated.nodeExecutionStack ++
        [{ node := some startNode
           data := mainOnly incomingData
           source := some (mainOnly incomingSourceData)
           runIndex := none
           metadata := none }] }
  else
    let nextRunIndex := (waitingNode recreated.waitingExecution startNode.name).entries.length
    let waitingExecution ← group.connections.foldlM
      (addIncoming runData startNode.name nextRunIndex) recreated.waitingExecution
    return { recreated with waitingExecution }

def recreateStartNode (localeCompare : String → String → Int) (graph : DirectedGraph P)
    (recreated : Recreated P V) (startNode : INode P) : Except EngineError (Recreated P V) := do
  let connections ← getDirectParentConnections graph startNode
  if (connections.filter (·.type = .main)).isEmpty then
    return { recreated with
      nodeExecutionStack := recreated.nodeExecutionStack ++
        [{ node := some startNode
           data := mainOnly [.value [{ json := .empty, pairedItem := none }]]
           source := none
           runIndex := none
           metadata := none }] }
  else
    (getSourceDataGroups localeCompare graph startNode runData
      pinData).foldlM (recreateGroup runData pinData startNode) recreated

def recreateNodeExecutionStack (localeCompare : String → String → Int)
    (graph : DirectedGraph P) (startNodes : List (INode P)) :
    Except EngineError (Recreated P V) :=
  match graph.nodes.entries.find? fun p => p.2.disabled with
  | some (_, node) =>
    .error (.assertionError (some ("Graph contains disabled nodes. This is"
      ++ " not supported. Make sure to pass the graph through"
      ++ " \"findSubgraph\" before calling \"recreateNodeExecutionStack\"."
      ++ " The node in question is \"" ++ node.name ++ "\"")))
  | none =>
    startNodes.foldlM (recreateStartNode runData pinData localeCompare
      graph) { nodeExecutionStack := [], waitingExecution := .empty }

end

/-! ## The groups partition the connections -/

theorem exists_minInput {connections : List (GraphConnection P)} (h : connections ≠ []) :
    ∃ c ∈ connections, toInput (minInput connections) c = true := by
  have hne : connections.map (·.inputIndex) ≠ [] := by
    simpa using h
  rcases hmin : (connections.map (·.inputIndex)).min? with _ | least
  · exact absurd (min?_eq_none_iff.mp hmin) hne
  · obtain ⟨c, hc, hindex⟩ :=
      mem_map.mp (min?_mem hmin)
    refine ⟨c, hc, ?_⟩
    rw [minInput, hmin, Option.getD_some, toInput, hindex]
    exact decide_eq_true rfl

theorem perm_eraseP {α : Type} {p : α → Bool} {l : List α} {a : α}
    (h : l.find? p = some a) : l.Perm (a :: l.eraseP p) := by
  induction l with
  | nil => cases h
  | cons b rest ih =>
    by_cases hb : p b = true
    · rw [find?_cons_of_pos hb] at h
      cases h
      rw [eraseP_cons_of_pos hb]
    · rw [find?_cons_of_neg hb] at h
      rw [eraseP_cons_of_neg hb]
      exact ((ih h).cons b).trans (List.Perm.swap ..)

/-- **THE PARTITION**: with the fuel given to it, the loop puts every
    connection in exactly one group. -/
theorem groupLoop_connections {fuel currentInputIndex : Nat}
    {withData withoutData : List (GraphConnection P)}
    {currentGroup : SourceConnectionGroup P}
    (h : 2 * (withData.length + withoutData.length)
      + (if ∃ c ∈ withData ++ withoutData,
          toInput currentInputIndex c = true then 0 else 1) ≤ fuel) :
    ((groupLoop fuel currentInputIndex withData withoutData
      currentGroup).flatMap (·.connections)).Perm
      (currentGroup.connections ++ (withData ++ withoutData)) := by
  induction fuel generalizing currentInputIndex withData withoutData currentGroup with
  | zero =>
    have hwith : withData = [] := length_eq_zero_iff.mp (by omega)
    have hwithout : withoutData = [] := length_eq_zero_iff.mp (by omega)
    rw [hwith, hwithout, groupLoop]
    simp
  | succ fuel ih =>
    rw [groupLoop]
    by_cases hempty : (withData.isEmpty && withoutData.isEmpty) = true
    · obtain ⟨hwith, hwithout⟩ := Bool.and_eq_true_iff.mp hempty
      rw [isEmpty_iff.mp hwith, isEmpty_iff.mp hwithout]
      simp
    · rw [if_neg hempty]
      rcases hwith : withData.find? (toInput currentInputIndex) with _ | connection
      · rcases hwithout : withoutData.find? (toInput currentInputIndex) with _ | connection
        · have hne : withData ++ withoutData ≠ [] := by
            simpa [List.isEmpty_iff] using hempty
          have hnone : ¬ ∃ c ∈ withData ++ withoutData, toInput currentInputIndex c = true := by
            rintro ⟨c, hc, hin⟩
            rcases mem_append.mp hc with hc | hc
            · exact find?_eq_none.mp hwith c hc hin
            · exact find?_eq_none.mp hwithout c hc hin
          rw [if_neg hnone] at h
          refine List.Perm.append_left currentGroup.connections
            (ih ?_ : List.Perm _ (newGroup.connections ++ _))
          rw [if_pos (exists_minInput hne)]
          omega
        · have hperm := perm_eraseP hwithout
          have hlength := hperm.length_eq
          rw [length_cons] at hlength
          refine (ih (by split at h <;> split <;> omega)).trans ?_
          rw [append_assoc]
          refine List.Perm.append_left _ ?_
          have hmiddle : (withData ++ connection
              :: withoutData.eraseP (toInput currentInputIndex)).Perm
              (connection :: (withData ++ withoutData.eraseP (toInput currentInputIndex))) :=
            perm_middle
          exact hmiddle.symm.trans (hperm.symm.append_left _)
      · have hperm := perm_eraseP hwith
        have hlength := hperm.length_eq
        rw [length_cons] at hlength
        refine (ih (by split at h <;> split <;> omega)).trans ?_
        rw [append_assoc]
        exact (hperm.symm.append_right _).append_left _

theorem filter_or_perm {α : Type} (p q : α → Bool) (l : List α) :
    (l.filter p ++ l.filter fun a => !p a && q a).Perm (l.filter fun a => p a || q a) := by
  have hsplit := filter_append_perm p (l.filter fun a => p a || q a)
  rw [filter_filter, filter_filter] at hsplit
  have hleft : (l.filter fun a => p a && (p a || q a)) = l.filter p :=
    filter_congr fun a _ => by cases p a <;> rfl
  have hright : (l.filter fun a => (!p a) && (p a || q a))
      = l.filter fun a => !p a && q a :=
    filter_congr fun a _ => by cases p a <;> rfl
  rwa [hleft, hright] at hsplit

theorem getSourceDataGroups_connections (localeCompare : String → String → Int)
    (graph : DirectedGraph P) (node : INode P) (runData : IRunData V) (pinnedData : IPinData V) :
    ((getSourceDataGroups localeCompare graph node runData pinnedData).flatMap (·.connections)).Perm
      ((getConnections graph node).filter fun c =>
        (runData.has c.fromNode.name || pinnedData.has c.fromNode.name)
          || c.type = .main) := by
  rw [getSourceDataGroups]
  have hsorted := ((perm_insertionSort
      (fun c c' => sortByInputIndexThenByName localeCompare c c' ≤ 0)
      ((getConnections graph node).filter fun c =>
        runData.has c.fromNode.name || pinnedData.has c.fromNode.name)).append
    (perm_insertionSort (fun c c' => sortByInputIndexThenByName localeCompare c c' ≤ 0)
      ((getConnections graph node).filter fun c =>
        !(runData.has c.fromNode.name || pinnedData.has c.fromNode.name)
          && c.type = .main))).trans (filter_or_perm _ _ _)
  refine List.Perm.trans ?_ hsorted
  split
  · rename_i hempty
    obtain ⟨hwith, hwithout⟩ := Bool.and_eq_true_iff.mp hempty
    rw [← sortConnections, ← sortConnections, isEmpty_iff.mp hwith, isEmpty_iff.mp hwithout]
    exact List.Perm.refl _
  · rename_i hempty
    refine groupLoop_connections ?_
    rw [groupFuel]
    split <;> omega

/-! ## The shape of a waiting entry -/

/-- An array the engine made: at every input a value or `null`. -/
def Padded (numberOfConnections : Nat) (entry : WaitingEntry V) : Prop :=
  ∀ i < numberOfConnections, slotAt entry.main i ≠ .undefined

/-- An array made from run data: nothing where there was no data. -/
def Sparse (entry : WaitingEntry V) : Prop := ∀ slot ∈ entry.main, slot ≠ .null

/-- The two halves of the entry both have a `main` or both have none. -/
def Paired (entry : WaitingEntry V) : Prop :=
  (entry.data.get? .main).isSome = (entry.source.get? .main).isSome

/-- Every waiting entry of the table is made by the engine or from run
    data. -/
def WellShaped (workflow : Workflow P) (waitingExecution : IWaitingForExecution V) : Prop :=
  ∀ p ∈ waitingExecution.entries, ∀ q ∈ p.2.entries,
    Paired q.2 ∧ (Padded (numberOfInputs workflow p.1) q.2 ∨ Sparse q.2)

/-- Every waiting entry of the table is made from run data. -/
def FromRunData (waitingExecution : IWaitingForExecution V) : Prop :=
  ∀ p ∈ waitingExecution.entries, ∀ q ∈ p.2.entries, Paired q.2 ∧ Sparse q.2

theorem Sparse.setSlot {entry entry' : WaitingEntry V} (index : Nat)
    (data : List (INodeExecutionData V)) (h : Sparse entry)
    (hmain : entry'.main = setSlot (.value data) index entry.main) :
    Sparse entry' := by
  intro slot hslot
  rw [hmain] at hslot
  rcases mem_setSlot hslot with rfl | rfl | hmem
  · intro h
    cases h
  · intro h
    cases h
  · exact h slot hmem

theorem mem_waitingNode {waitingExecution : IWaitingForExecution V}
    {nodeName : String} {q : Nat × WaitingEntry V}
    (h : q ∈ (waitingNode waitingExecution nodeName).entries) :
    (nodeName, waitingNode waitingExecution nodeName) ∈ waitingExecution.entries := by
  rw [waitingNode] at h ⊢
  rcases hget : waitingExecution.get? nodeName with _ | waiting
  · rw [hget] at h
    cases h
  · exact mem_of_findKey hget

theorem addWaitingExecution_fromRunData
    {waitingExecution : IWaitingForExecution V} (nodeName : String)
    (runIndex : Nat) (inputType : NodeConnectionType) (inputIndex : Nat)
    (data : List (INodeExecutionData V)) (sourceData : ISourceData)
    (h : FromRunData waitingExecution) :
    FromRunData (addWaitingExecution waitingExecution nodeName runIndex
      inputType inputIndex data sourceData) := by
  intro p hp q hq
  rcases mem_entries_set.mp hp with rfl | ⟨hp, -⟩
  · have hold : ∀ q ∈ (waitingNode waitingExecution nodeName).entries, Paired q.2 ∧ Sparse q.2 :=
      fun q hq => h _ (mem_waitingNode hq) q hq
    rcases mem_entries_set.mp hq with rfl | ⟨hq, -⟩
    · obtain ⟨hpaired, hsparse⟩ :
          Paired (((waitingNode waitingExecution nodeName).get?
              runIndex).getD { data := .empty, source := .empty })
            ∧ Sparse (((waitingNode waitingExecution nodeName).get?
              runIndex).getD { data := .empty, source := .empty }) := by
        rcases hget : (waitingNode waitingExecution nodeName).get? runIndex with _ | entry
        · exact ⟨rfl, fun slot hslot => by cases hslot⟩
        · exact hold _ (mem_of_findKey hget)
      by_cases htype : inputType = .main
      · subst htype
        refine ⟨by simp [Paired, get?_set], ?_⟩
        refine hsparse.setSlot inputIndex data ?_
        simp [WaitingEntry.main, get?_set]
      · refine ⟨?_, ?_⟩
        · simpa [Paired, get?_set, htype] using hpaired
        · simpa [Sparse, WaitingEntry.main, get?_set, htype] using hsparse
    · exact hold q hq
  · exact h p hp q hq

section

variable {runData : IRunData V} {pinData : IPinData V}

theorem addIncoming_fromRunData {nodeName : String} {nextRunIndex : Nat}
    {waitingExecution waitingExecution' : IWaitingForExecution V}
    {c : GraphConnection P} (h : FromRunData waitingExecution)
    (hadd : addIncoming runData nodeName nextRunIndex waitingExecution c
      = .ok waitingExecution') : FromRunData waitingExecution' := by
  obtain ⟨found, -, hadd⟩ := bind_eq_ok.mp hadd
  rcases found with _ | ⟨data, runIndex⟩
  · cases hadd
    exact h
  · cases hadd
    exact addWaitingExecution_fromRunData _ _ _ _ _ _ h

variable {recreated : Recreated P V}

theorem recreateGroup_fromRunData {startNode : INode P} {recreated' : Recreated P V}
    {group : SourceConnectionGroup P}
    (h : FromRunData recreated.waitingExecution)
    (hgroup : recreateGroup runData pinData startNode recreated group
      = .ok recreated') : FromRunData recreated'.waitingExecution := by
  rw [recreateGroup] at hgroup
  by_cases hcomplete : group.complete = true
  · rw [if_pos hcomplete] at hgroup
    obtain ⟨incoming, -, hgroup⟩ := bind_eq_ok.mp hgroup
    cases hgroup
    exact h
  · rw [if_neg hcomplete] at hgroup
    obtain ⟨waitingExecution, hfold, hgroup⟩ := bind_eq_ok.mp hgroup
    cases hgroup
    exact foldlM_preserves (I := FromRunData)
      (fun _ _ _ hw hadd => addIncoming_fromRunData hw hadd) h hfold

theorem recreateStartNode_fromRunData
    {localeCompare : String → String → Int} {graph : DirectedGraph P}
    {startNode : INode P} {recreated' : Recreated P V}
    (h : FromRunData recreated.waitingExecution)
    (hnode : recreateStartNode runData pinData localeCompare graph recreated
      startNode = .ok recreated') :
    FromRunData recreated'.waitingExecution := by
  obtain ⟨connections, -, hnode⟩ := bind_eq_ok.mp hnode
  by_cases hnone : (connections.filter (·.type = .main)).isEmpty = true
  · rw [if_pos hnone] at hnode
    cases hnode
    exact h
  · rw [if_neg hnone] at hnode
    exact foldlM_preserves (I := fun r => FromRunData r.waitingExecution)
      (fun _ _ _ hr hgroup => recreateGroup_fromRunData hr hgroup) h hnode

/-- **RECREATED ENTRIES**: no entry of a recreated table has a `null`. -/
theorem recreateNodeExecutionStack_fromRunData
    {localeCompare : String → String → Int} {graph : DirectedGraph P}
    {startNodes : List (INode P)}
    (h : recreateNodeExecutionStack runData pinData localeCompare graph
      startNodes = .ok recreated) :
    FromRunData recreated.waitingExecution := by
  rw [recreateNodeExecutionStack] at h
  rcases hdisabled : graph.nodes.entries.find? fun p => p.2.disabled with _ | p
  · simp only [hdisabled] at h
    refine foldlM_preserves (I := fun r : Recreated P V => FromRunData r.waitingExecution)
      (fun r node r' hr hnode => ?_) (fun p hp => ?_) h
    · exact recreateStartNode_fromRunData hr hnode
    · cases hp
  · rw [hdisabled] at h
    cases h

end

/-! ## Deliveries keep the shape -/

/-- The data of the delivery is there, as the callers check. -/
def Brings (d : Delivery V) : Prop := d.data.present = true

theorem Brings.data {d : Delivery V} (h : Brings d) : ∃ items, d.data = .value items := by
  rw [Brings] at h
  rcases hdata : d.data with _ | _ | items
  · rw [hdata] at h
    cases h
  · rw [hdata] at h
    cases h
  · exact ⟨items, rfl⟩

theorem prepareWaitingToExecution_padded (numberOfConnections : Nat) :
    Padded (V := V) numberOfConnections (prepareWaitingToExecution numberOfConnections) := by
  intro i hi
  rw [main_prepareWaitingToExecution, slotAt, getD_eq_getElem?_getD, getElem?_replicate_of_lt hi]
  intro h
  cases h

theorem shape_receive {numberOfConnections : Nat}
    {entry entry' : WaitingEntry V} {d : Delivery V} (hd : Brings d)
    (hready : entry.Ready)
    (hmain : entry'.main = (entry.receive d).1.main)
    (h : Padded numberOfConnections entry ∨ Sparse entry) :
    Padded numberOfConnections entry' ∨ Sparse entry' := by
  obtain ⟨items, hitems⟩ := hd.data
  rw [main_receive d hready, hitems] at hmain
  rcases h with hpadded | hsparse
  · refine .inl fun i hi => ?_
    rw [hmain, slotAt_setSlot]
    by_cases hindex : i = d.connectionData.index
    · rw [if_pos hindex]
      intro h
      cases h
    · rw [if_neg hindex]
      exact hpadded i hi
  · exact .inr (hsparse.setSlot _ _ hmain)

section

variable {workflow : Workflow P} {waitingExecution : IWaitingForExecution V}

section

variable (h : WellShaped workflow waitingExecution)
include h

theorem WellShaped.target {nodeName : String} {index key : Nat} {entry : WaitingEntry V}
    (htarget : waitingTarget (numberOfInputs workflow nodeName) index
      (waitingNode waitingExecution nodeName) = .ok (key, entry)) :
    entry.Ready ∧ (Padded (numberOfInputs workflow nodeName) entry ∨ Sparse entry) := by
  rcases waitingTarget_cases htarget with ⟨hget, -⟩ | ⟨-, rfl, -⟩
  · have hmem := mem_of_findKey hget
    obtain ⟨hpaired, hshape⟩ := h _ (mem_waitingNode hmem) _ hmem
    have hdata := waitingTarget_isSome htarget
    exact ⟨⟨hdata, hpaired.symm.trans hdata⟩, hshape⟩
  · exact ⟨prepareWaitingToExecution_ready _, .inl (prepareWaitingToExecution_padded _)⟩

theorem WellShaped.set {nodeName : String} {waiting : WaitingNode V}
    (hwaiting : ∀ q ∈ waiting.entries, Paired q.2 ∧
      (Padded (numberOfInputs workflow nodeName) q.2 ∨ Sparse q.2)) :
    WellShaped workflow (waitingExecution.set nodeName waiting) := by
  intro p hp
  rcases mem_entries_set.mp hp with rfl | ⟨hp, -⟩
  · exact hwaiting
  · exact h p hp

/-- **ONE DELIVERY** leaves every waiting entry in one of the two
    shapes. -/
theorem WellShaped.call {a : Arrival P V} (hd : Brings a.delivery) :
    WellShaped workflow (a.call workflow waitingExecution).waitingExecution
      := by
  by_cases hk : 1 < numberOfInputs workflow a.delivery.connectionData.node
  · have hrow : ∀ q ∈ (waitingNode waitingExecution
        a.delivery.connectionData.node).entries, Paired q.2 ∧
        (Padded (numberOfInputs workflow a.delivery.connectionData.node) q.2 ∨ Sparse q.2) :=
      fun q hq => h _ (mem_waitingNode hq) q hq
    rcases htarget : waitingTarget (numberOfInputs workflow a.delivery.connectionData.node)
        a.delivery.connectionData.index
        (waitingNode waitingExecution a.delivery.connectionData.node) with e | ⟨key, entry⟩
    · rw [Arrival.call, addNodeToBeExecuted, if_pos hk, addToWaiting]
      simp only [Arrival.engine, htarget]
      exact h
    · obtain ⟨hready, hshape⟩ := h.target htarget
      by_cases hfound : (entry.receive a.delivery).1.allDataFound = true
      · rw [Arrival.call_found hk htarget hready hfound]
        show WellShaped workflow (setWaiting waitingExecution _ _)
        rw [setWaiting]
        split
        · exact fun p hp => h p (mem_dropKey.mp hp).1
        · exact h.set fun q hq => hrow q (mem_dropKey.mp hq).1
      · obtain ⟨-, kept, hkept, hmain, -, htable⟩ :=
          Arrival.call_waits hk htarget hready (Bool.eq_false_iff.mpr hfound)
        rw [htable]
        refine h.set fun q hq => ?_
        rcases mem_entries_set.mp hq with rfl | ⟨hq, -⟩
        · exact ⟨hkept.data.trans hkept.source.symm, shape_receive hd hready hmain hshape⟩
        · exact hrow q hq
  · rw [Arrival.call, addNodeToBeExecuted, if_neg hk]
    exact h

end

end

/-! ## Every delivery of every run -/

/-- The steps: a delivery, to whichever node. -/
def Delivers (workflow : Workflow P) (waitingExecution : IWaitingForExecution V)
    (a : Arrival P V) (t : IWaitingForExecution V) : Prop :=
  Brings a.delivery ∧ t = (a.call workflow waitingExecution).waitingExecution

/-- The stack entry has received data at each of the first inputs. -/
def Complete (numberOfConnections : Nat) (executionData : IExecuteData P V) : Prop :=
  ∀ i < numberOfConnections, (slotAt ((executionData.data.get? .main).getD []) i).present = true

/-- The entry the data went to is still there, with the data; or the call
    failed before it changed anything. -/
def Stays (workflow : Workflow P) (nodeName : String)
    (waitingExecution : IWaitingForExecution V) (a : Arrival P V) : Prop :=
  match waitingTarget (numberOfInputs workflow nodeName) a.delivery.connectionData.index
      (waitingNode waitingExecution nodeName) with
  | .error _ => (a.call workflow waitingExecution).waitingExecution = waitingExecution
  | .ok (key, entry) =>
    ∃ kept, (waitingNode (a.call workflow
        waitingExecution).waitingExecution nodeName).get? key = some kept
      ∧ kept.main = setSlot a.delivery.data a.delivery.connectionData.index entry.main

/-- What a delivery to the node should do: the stack entries of the node it
    makes are complete, and if it makes none the waiting entry stays. -/
structure Settles (workflow : Workflow P) (nodeName : String)
    (waitingExecution : IWaitingForExecution V) (a : Arrival P V) : Prop where
  complete : ∀ executionData ∈ (a.call workflow waitingExecution).enqueued,
    runs nodeName executionData = true → Complete (numberOfInputs workflow nodeName) executionData
  stays : (∀ executionData ∈ (a.call workflow waitingExecution).enqueued,
    runs nodeName executionData = false) → Stays workflow nodeName waitingExecution a

/-- The condition on a delivery to the node: the entry it goes to was made
    by the engine or lacks no other input; and if the node begins to wait,
    the search for something to start does not start the node itself. -/
structure FillsLastGap (workflow : Workflow P) (nodeName : String)
    (waitingExecution : IWaitingForExecution V) (a : Arrival P V) : Prop where
  gap : ∀ key entry, waitingTarget (numberOfInputs workflow nodeName)
      a.delivery.connectionData.index (waitingNode waitingExecution nodeName) = .ok (key, entry) →
    Padded (numberOfInputs workflow nodeName) entry ∨
      ∀ i < numberOfInputs workflow nodeName, i ≠ a.delivery.connectionData.index →
          (slotAt entry.main i).present = true
  elsewhere : waitingExecution.has nodeName = false →
    ∀ executionData ∈ (forcedStarts workflow a.runData a.delivery
      a.nodeExecutionStack).1, runs nodeName executionData = false

theorem not_complete_emptyItemEntry {workflow : Workflow P}
    {numberOfConnections : Nat} (hk : 1 < numberOfConnections)
    (name : String) (d : Delivery V) :
    ¬ Complete numberOfConnections (emptyItemEntry workflow name d) := by
  intro h
  have hone := h 1 hk
  cases hone

section

variable {workflow : Workflow P} {waitingExecution : IWaitingForExecution V}
  {a : Arrival P V} {key : Nat} {entry : WaitingEntry V}

/-- A delivery that completes the entry it goes to. -/
theorem settles_of_found (hw : workflow.Consistent)
    (hN : workflow.nodes.has a.delivery.connectionData.node = true)
    (hk : 1 < numberOfInputs workflow a.delivery.connectionData.node) (hd : Brings a.delivery)
    (htarget : waitingTarget (numberOfInputs workflow a.delivery.connectionData.node)
      a.delivery.connectionData.index (waitingNode waitingExecution a.delivery.connectionData.node)
        = .ok (key, entry)) (hready : entry.Ready)
    (hfound : (entry.receive a.delivery).1.allDataFound = true) :
    Settles workflow a.delivery.connectionData.node waitingExecution a ↔
      FillsLastGap workflow a.delivery.connectionData.node waitingExecution a := by
  obtain ⟨node, hnode⟩ := Option.isSome_iff_exists.mp hN
  have hname : node.name = a.delivery.connectionData.node := hw.named _ (mem_of_findKey hnode)
  have hcall := Arrival.call_found hk htarget hready hfound
  have hslot : ∀ i, slotAt (entry.receive a.delivery).1.main i
      = if i = a.delivery.connectionData.index then a.delivery.data
        else slotAt entry.main i := by
    intro i
    rw [main_receive _ hready, slotAt_setSlot]
  constructor
  · intro h
    have hcomplete := h.complete _ (by rw [hcall]; exact mem_cons_self ..)
      (by simp [runs, hnode, hname])
    refine ⟨?_, fun hnew => ?_⟩
    · intro key' entry' htarget'
      rw [htarget] at htarget'
      cases htarget'
      refine .inr fun i hi hne => ?_
      have hin : (slotAt (entry.receive a.delivery).1.main i).present = true := hcomplete i hi
      rwa [hslot, if_neg hne] at hin
    · rw [waits_of_not_has hk a.delivery hnew htarget] at hfound
      cases hfound
  · intro h
    refine ⟨fun executionData hmem _ => ?_, fun hnone => ?_⟩
    · rw [hcall, mem_singleton] at hmem
      subst hmem
      intro i hi
      show (slotAt (entry.receive a.delivery).1.main i).present = true
      rw [hslot]
      by_cases hindex : i = a.delivery.connectionData.index
      · rw [if_pos hindex]
        exact hd
      · rw [if_neg hindex]
        rcases h.gap key entry htarget with hpadded | hothers
        · have hnull : slotAt (entry.receive a.delivery).1.main i ≠ .null :=
            fun heq => allDataFound_iff.mp hfound _ (null_mem_of_slotAt heq) rfl
          rw [hslot, if_neg hindex] at hnull
          rcases hcase : slotAt entry.main i with _ | _ | items
          · exact absurd hcase (hpadded i hi)
          · exact absurd hcase hnull
          · rfl
        · exact hothers i hi hindex
    · have hrun := hnone _ (by rw [hcall]; exact mem_cons_self ..)
      simp [runs, hnode, hname] at hrun

/-- A delivery after which the entry it went to still waits. -/
theorem settles_of_waits (hk : 1 < numberOfInputs workflow a.delivery.connectionData.node)
    (hd : Brings a.delivery)
    (htarget : waitingTarget (numberOfInputs workflow a.delivery.connectionData.node)
      a.delivery.connectionData.index (waitingNode waitingExecution a.delivery.connectionData.node)
        = .ok (key, entry)) (hready : entry.Ready)
    (hshape : Padded (numberOfInputs workflow a.delivery.connectionData.node) entry ∨ Sparse entry)
    (hwaits : (entry.receive a.delivery).1.allDataFound = false) :
    Settles workflow a.delivery.connectionData.node waitingExecution a ↔
      FillsLastGap workflow a.delivery.connectionData.node waitingExecution a := by
  obtain ⟨henqueued, kept, -, hmain, -, htable⟩ := Arrival.call_waits hk htarget hready hwaits
  constructor
  · intro h
    refine ⟨?_, fun hnew executionData hmem => ?_⟩
    · intro key' entry' htarget'
      rw [htarget] at htarget'
      cases htarget'
      refine .inl (hshape.resolve_right fun hsparse => ?_)
      -- With the data of this delivery it would have no `null` at all.
      obtain ⟨items, hitems⟩ := hd.data
      have hreceived := main_receive a.delivery hready
      rw [hitems] at hreceived
      have hfound := allDataFound_iff.mpr (hsparse.setSlot _ _ hreceived)
      rw [hwaits] at hfound
      cases hfound
    · have hin : executionData ∈ (a.call workflow waitingExecution).enqueued := by
        rw [henqueued, if_neg (by simpa using hnew)]
        exact hmem
      rw [Bool.eq_false_iff]
      intro hrun
      obtain ⟨name, rfl⟩ := forcedStarts_mem _ hmem
      exact not_complete_emptyItemEntry hk name a.delivery (h.complete _ hin hrun)
  · intro h
    refine ⟨fun executionData hmem hrun => ?_, fun _ => ?_⟩
    · rw [henqueued] at hmem
      by_cases hhas : waitingExecution.has a.delivery.connectionData.node = true
      · rw [if_pos hhas] at hmem
        cases hmem
      · rw [if_neg hhas] at hmem
        rw [h.elsewhere (Bool.eq_false_iff.mpr hhas) _ hmem] at hrun
        cases hrun
    · simp only [Stays, htarget]
      refine ⟨kept, ?_, hmain.trans (main_receive _ hready)⟩
      rw [htable, waitingNode_set, get?_set, if_pos rfl]

/-- **ONE DELIVERY** to a well shaped table settles exactly under the
    condition. -/
theorem settles_iff (hw : workflow.Consistent)
    (hN : workflow.nodes.has a.delivery.connectionData.node = true)
    (hk : 1 < numberOfInputs workflow a.delivery.connectionData.node)
    (h : WellShaped workflow waitingExecution) (hd : Brings a.delivery) :
    Settles workflow a.delivery.connectionData.node waitingExecution a ↔
      FillsLastGap workflow a.delivery.connectionData.node waitingExecution a := by
  rcases htarget : waitingTarget (numberOfInputs workflow a.delivery.connectionData.node)
      a.delivery.connectionData.index
      (waitingNode waitingExecution a.delivery.connectionData.node) with e | ⟨key, entry⟩
  · have hcall : a.call workflow waitingExecution
        = { waitingExecution, enqueued := [], error := some e } := by
      rw [Arrival.call, addNodeToBeExecuted, if_pos hk, addToWaiting]
      simp [Arrival.engine, htarget]
    refine ⟨fun _ => ⟨fun _ _ heq => ?_, fun hnew => ?_⟩, fun _ =>
      ⟨fun executionData hmem => ?_, fun _ => ?_⟩⟩
    · rw [htarget] at heq
      cases heq
    · rcases hget : waitingExecution.get? a.delivery.connectionData.node with _ | waiting
      · rw [waitingNode, hget] at htarget
        cases htarget
      · rw [OrderedMap.has, hget] at hnew
        cases hnew
    · rw [hcall] at hmem
      cases hmem
    · simp [Stays, htarget, hcall]
  · obtain ⟨hready, hshape⟩ := h.target htarget
    rcases hfound : (entry.receive a.delivery).1.allDataFound
    · exact settles_of_waits hk hd htarget hready hshape hfound
    · exact settles_of_found hw hN hk hd htarget hready hfound

end

def plainNode (name : String) : INode Unit :=
  { name, type := name, typeVersion := 1, position := (0, 0)
    disabled := false, parameters := (), rewireOutputLogTo := none }

/-- Nodes of these names, each connected to its own input of a merge
    node. -/
def intoMerge (sources : List String) : Workflow Unit :=
  .new (plainNode "Merge" :: sources.map plainNode)
    (sources.zipIdx.foldl (fun connections (name, index) =>
      connections.set name (OrderedMap.empty.set .main [some [⟨"Merge", .main, index⟩]]))
      .empty) (some .v1)

/-- The same nodes and connections as a graph. -/
def mergeGraph (sources : List String) : DirectedGraph Unit :=
  { nodes := (intoMerge sources).nodes
    connections := sources.zipIdx.map fun (name, index) =>
      { fromNode := plainNode name
        toNode := plainNode "Merge"
        type := .main
        outputIndex := 0
        inputIndex := index } }

/-- One item on the first output. -/
def oneItem : List (Slot (List (INodeExecutionData Unit))) :=
  [.value [{ json := .empty, pairedItem := none }]]

def firstHasRun : IRunData Unit :=
  OrderedMap.empty.set "First" [{ data := some (mainOnly oneItem), inputOverride := none }]

/-- The second source delivers its item. -/
def secondArrives : Arrival Unit Unit :=
  { runData := firstHasRun
    nodeExecutionStack := []
    delivery :=
      { connectionData := ⟨"Merge", .main, 1⟩
        outputIndex := 0
        parentNodeName := "Second"
        nodeSuccessData := some oneItem
        runIndex := 0
        newRunIndex := none
        metadata := none } }

/-- The table recreated for the merge node, and the same after the second
    source has delivered. -/
def recreatedTable (sources : List String) : IWaitingForExecution Unit :=
  match recreateNodeExecutionStack firstHasRun .empty (fun _ _ => 0)
      (mergeGraph sources) [plainNode "Merge"] with
  | .ok recreated => recreated.waitingExecution
  | .error _ => .empty

def secondRun (sources : List String) : List (Arrival Unit Unit × IWaitingForExecution Unit) :=
  pathOf (fun t a => (a.call (intoMerge sources) t).waitingExecution) (recreatedTable sources)
  [secondArrives]

end N8nPartialExecution
