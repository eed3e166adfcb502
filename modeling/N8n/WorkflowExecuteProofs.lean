import Mathlib.Data.List.Sort
import N8n.ExceptProofs
import N8n.ConnectedNodesProofs

/-! # The execution engine — delivering data to a node

    `addNodeToBeExecuted` hands the output of a node to one input of
    another.  A node with one input goes to the execution stack at once.  A
    node with several inputs gets a waiting entry, an array with one element
    for each input, and goes to the stack when no element is `null`.

    The tables `waitingExecution` and `waitingExecutionSource` are written
    and deleted at the same keys, so they are held here as one table whose
    entries have a data half and a source half.  A call is described by all
    it does: the new table, the entries it enqueues in order, and the error
    it throws, if any, after having done that. -/

namespace N8nWorkflowExecute

open N8nExcept N8nOrderedMap N8nWorkflow N8nConnectedNodes List OrderedMap

/-! ## Arrays -/

/-- An element of an array: nothing at all, `null`, or a value. -/
inductive Slot (α : Type) where
  | undefined | null | value (a : α)
deriving DecidableEq

section

variable {α : Type}

/-- `array[index]`. -/
def slotAt (array : List (Slot α)) (index : Nat) : Slot α := array.getD index .undefined

/-- `array[index] = x`, which makes the array longer where necessary. -/
def setSlot (x : Slot α) : Nat → List (Slot α) → List (Slot α)
  | 0, array => x :: array.tail
  | index + 1, array => array.headD .undefined :: setSlot x index array.tail

/-- Whether the element is truthy, for an array of objects. -/
def Slot.present : Slot α → Bool
  | .value _ => true
  | _ => false

theorem slotAt_cons_zero (x : Slot α) (array : List (Slot α)) : slotAt (x :: array) 0 = x := rfl

theorem slotAt_succ (array : List (Slot α)) (index : Nat) :
    slotAt array (index + 1) = slotAt array.tail index := by
  cases array <;> rfl

theorem slotAt_zero (array : List (Slot α)) : slotAt array 0 = array.headD .undefined := by
  cases array <;> rfl

theorem slotAt_setSlot (x : Slot α) (index other : Nat) (array : List (Slot α)) :
    slotAt (setSlot x index array) other = if other = index then x else slotAt array other := by
  induction index generalizing other array with
  | zero =>
    cases other with
    | zero => rfl
    | succ other => rw [setSlot, slotAt_succ, slotAt_succ]; rfl
  | succ index ih =>
    cases other with
    | zero => rw [setSlot, slotAt_cons_zero, slotAt_zero]; rfl
    | succ other =>
      rw [setSlot, slotAt_succ, tail_cons, ih, slotAt_succ]
      by_cases h : other = index
      · rw [if_pos h, if_pos (by omega)]
      · rw [if_neg h, if_neg (by omega)]

theorem setSlot_setSlot (x : Slot α) (index : Nat) (array : List (Slot α)) :
    setSlot x index (setSlot x index array) = setSlot x index array := by
  induction index generalizing array with
  | zero => rfl
  | succ index ih => rw [setSlot, setSlot, headD_cons, tail_cons, ih]

theorem mem_setSlot {x y : Slot α} {index : Nat} {array : List (Slot α)}
    (h : y ∈ setSlot x index array) :
    y = x ∨ y = .undefined ∨ y ∈ array := by
  obtain ⟨other, hlt, rfl⟩ := mem_iff_getElem.mp h
  have hget : (setSlot x index array)[other] = slotAt (setSlot x index array) other := by
    rw [slotAt, getD_eq_getElem?_getD, getElem?_eq_getElem hlt, Option.getD_some]
  rw [hget, slotAt_setSlot]
  by_cases heq : other = index
  · rw [if_pos heq]
    exact .inl rfl
  · rw [if_neg heq, slotAt, getD_eq_getElem?_getD]
    by_cases hin : other < array.length
    · rw [getElem?_eq_getElem hin]
      exact .inr (.inr (getElem_mem hin))
    · rw [getElem?_eq_none (by omega)]
      exact .inr (.inl rfl)

end

/-! ## Execution data -/

/-- A JSON value; the engine itself only writes strings. -/
inductive GenericValue (V : Type) where
  | string (s : String) | other (v : V)
deriving DecidableEq

abbrev IDataObject (V : Type) := OrderedMap String (GenericValue V)

/-- Where data came from; index `0` is stored as `undefined`. -/
structure ISourceData where
  previousNode : String
  previousNodeOutput : Option Nat
  previousNodeRun : Option Nat
deriving DecidableEq

structure IPairedItemData where
  item : Nat
  input : Option Nat
  sourceOverwrite : Option ISourceData
deriving DecidableEq

structure INodeExecutionData (V : Type) where
  json : IDataObject V
  pairedItem : Option IPairedItemData
deriving DecidableEq

abbrev ITaskDataConnections (V : Type) :=
  OrderedMap NodeConnectionType (List (Slot (List (INodeExecutionData V))))

abbrev ITaskDataConnectionsSource := OrderedMap NodeConnectionType (List (Slot ISourceData))

def mainOnly {α : Type} (array : List (Slot α)) : OrderedMap NodeConnectionType (List (Slot α)) :=
  OrderedMap.empty.set .main array

theorem get?_mainOnly {α : Type} (array : List (Slot α)) :
    (mainOnly array).get? .main = some array := by
  rw [mainOnly, get?_set, if_pos rfl]

/-- What an agent asks the engine to run for it. -/
structure EngineAction (V : Type) where
  nodeName : String
  input : IDataObject V
  type : NodeConnectionType
  id : String
  itemIndex : Option Nat
deriving DecidableEq

structure SubNodeAction (V : Type) where
  action : EngineAction V
  nodeName : String
  runIndex : Nat
deriving DecidableEq

structure SubNodeExecutionData (V : Type) where
  actions : List (SubNodeAction V)
  metadata : V
deriving DecidableEq

structure ITaskMetadata (V : Type) where
  nodeWasResumed : Bool
  subNodeExecutionData : Option (SubNodeExecutionData V)
  preserveSourceOverwrite : Bool
  preservedSourceOverwrite : Option ISourceData
deriving DecidableEq

structure IExecuteData (P V : Type) where
  node : Option (INode P)
  data : ITaskDataConnections V
  source : Option ITaskDataConnectionsSource
  runIndex : Option Nat
  metadata : Option (ITaskMetadata V)
deriving DecidableEq

structure ITaskData (V : Type) where
  data : Option (ITaskDataConnections V)
  inputOverride : Option (ITaskDataConnections V)
deriving DecidableEq

abbrev IRunData (V : Type) := OrderedMap String (List (ITaskData V))

/-- An entry of `waitingExecution` and the entry of `waitingExecutionSource`
    under the same key. -/
structure WaitingEntry (V : Type) where
  data : ITaskDataConnections V
  source : ITaskDataConnectionsSource

abbrev WaitingNode (V : Type) := OrderedMap Nat (WaitingEntry V)

abbrev IWaitingForExecution (V : Type) := OrderedMap String (WaitingNode V)

structure IRunExecutionData (P V : Type) where
  runData : IRunData V
  nodeExecutionStack : List (IExecuteData P V)
  waitingExecution : IWaitingForExecution V

inductive EngineError where
  | typeError
  | assertionError (message : Option String)
  | applicationError (message : String)
  | unexpectedError (message : String)

variable {P V : Type}

/-- The entries of a waiting node in the order of `Object.keys`: integer
    keys come in ascending order. -/
def byKey (waiting : WaitingNode V) : List (Nat × WaitingEntry V) :=
  waiting.entries.insertionSort fun a b => a.1 ≤ b.1

theorem mem_byKey {waiting : WaitingNode V} {p : Nat × WaitingEntry V} :
    p ∈ byKey waiting ↔ p ∈ waiting.entries :=
  (perm_insertionSort _ _).mem_iff

/-! ## The workflow, as the engine reads it -/

def mainInputs (workflow : Workflow P) (nodeName : String) : Option NodeInputConnections :=
  (workflow.connectionsByDestinationNode.get? nodeName).bind (·.get? .main)

def numberOfInputs (workflow : Workflow P) (nodeName : String) : Nat :=
  ((mainInputs workflow nodeName).getD []).length

def isLegacyExecutionOrder (workflow : Workflow P) : Bool := workflow.executionOrder ≠ some .v1

variable {workflow : Workflow P}

theorem isLegacyExecutionOrder_v1 (hv1 : workflow.executionOrder = some .v1) :
    isLegacyExecutionOrder workflow = false := by
  rw [isLegacyExecutionOrder, hv1]
  rfl

/-- `main[0] ?? []` of the node's incoming connections. -/
def firstInput (workflow : Workflow P) (nodeName : String) :
    Except EngineError (List IConnection) :=
  match mainInputs workflow nodeName with
  | none => .error .typeError
  | some inputs => .ok ((inputs.headD none).getD [])

/-- `nodeExecutionStack[enqueueFn](executionData)`. -/
def enqueue {α : Type} (workflow : Workflow P) (stack : List α) (executionData : α) : List α :=
  if workflow.executionOrder = some .v1 then executionData :: stack
  else stack ++ [executionData]

/-- `get(runData, [node, runIndex, 'data', 'main', index])`. -/
def nodeOutput (runData : IRunData V) (nodeName : String)
    (runIndex index : Nat) : Slot (List (INodeExecutionData V)) :=
  match ((runData.get? nodeName).bind (·[runIndex]?)).bind fun taskData =>
    taskData.data.bind (·.get? .main) with
  | none => .undefined
  | some outputs => slotAt outputs index

def incomingConnectionIsEmpty (runData : IRunData V) (runIndex : Nat) :
    List IConnection → Except EngineError Bool
  | [] => .ok true
  | inputConnection :: rest =>
    match nodeOutput runData inputConnection.node runIndex inputConnection.index with
    | .undefined => incomingConnectionIsEmpty runData runIndex rest
    | .null => .error .typeError
    | .value data =>
      if data ≠ [] then .ok false
      else incomingConnectionIsEmpty runData runIndex rest

/-! ## One delivery -/

/-- The arguments of `addNodeToBeExecuted`; `nodeSuccessData` can be
    `null`. -/
structure Delivery (V : Type) where
  connectionData : IConnection
  outputIndex : Nat
  parentNodeName : String
  nodeSuccessData : Option (List (Slot (List (INodeExecutionData V))))
  runIndex : Nat
  newRunIndex : Option Nat
  metadata : Option (ITaskMetadata V)

/-- `n || undefined`. -/
def orUndefined (n : Nat) : Option Nat := if n = 0 then none else some n

namespace Delivery

/-- What is written to the data half of the waiting entry. -/
def data (d : Delivery V) : Slot (List (INodeExecutionData V)) :=
  match d.nodeSuccessData with
  | none => .null
  | some outputs => slotAt outputs d.outputIndex

def sourceData (d : Delivery V) : ISourceData :=
  { previousNode := d.parentNodeName
    previousNodeOutput := orUndefined d.outputIndex
    previousNodeRun := orUndefined d.runIndex }

/-- What is written to the source half of the waiting entry. -/
def source (d : Delivery V) : Slot ISourceData :=
  match d.nodeSuccessData with
  | none => .null
  | some _ => .value d.sourceData

/-- `nodeSuccessData[outputIndex].length === 0`. -/
def isEmpty (d : Delivery V) : Except EngineError Bool :=
  match d.data with
  | .value items => .ok items.isEmpty
  | _ => .error .typeError

end Delivery

/-- All a call does: the waiting table it leaves, the entries it enqueues in
    order, and the error it ends with. -/
structure Added (P V : Type) where
  waitingExecution : IWaitingForExecution V
  enqueued : List (IExecuteData P V)
  error : Option EngineError

/-- A waiting entry with `null` at every input. -/
def prepareWaitingToExecution (numberOfConnections : Nat) : WaitingEntry V :=
  { data := mainOnly (List.replicate numberOfConnections .null)
    source := mainOnly (List.replicate numberOfConnections .null) }

/-- The first waiting entry without data for the input. -/
def findWaiting (index : Nat) : List (Nat × WaitingEntry V) →
    Except EngineError (Option (Nat × WaitingEntry V))
  | [] => .ok none
  | (key, entry) :: rest =>
    match entry.data.get? .main with
    | none => .error .typeError
    | some main =>
      if (slotAt main index).present then findWaiting index rest
      else .ok (some (key, entry))

/-- The data and then the source are written at the input; a half without
    `main` is an error. -/
def WaitingEntry.receive (entry : WaitingEntry V) (d : Delivery V) :
    WaitingEntry V × Option EngineError :=
  match entry.data.get? .main with
  | none => (entry, some .typeError)
  | some main =>
    let data := entry.data.set .main (setSlot d.data d.connectionData.index main)
    match entry.source.get? .main with
    | none => ({ entry with data }, some .typeError)
    | some source =>
      ({ data
         source := entry.source.set .main
           (setSlot d.source d.connectionData.index source) }, none)

/-- No element of `main` is `null`. -/
def WaitingEntry.allDataFound (entry : WaitingEntry V) : Bool :=
  ((entry.data.get? .main).getD []).all fun
    | .null => false
    | _ => true

/-- The targets of all main outputs of the parent. -/
def checkOutputNodes (workflow : Workflow P) (parentNodeName : String) :
    Except EngineError (List String) :=
  match workflow.connectionsBySourceNode.get? parentNodeName with
  | none => .error .typeError
  | some byType => .ok ((((byType.get? .main).getD []).flatMap (·.getD [])).map (·.node))

/-- The names on the stack; an entry without a node is an error. -/
def stackNames (stack : List (IExecuteData P V)) : Except EngineError (List String) :=
  match stack.mapM fun stackData => stackData.node.map (·.name) with
  | none => .error .typeError
  | some names => .ok names

/-- The loop over the parents of an input node: the last node before one
    that is taken care of anyway, or nothing. -/
def nodeToStart (inputNode : String) (outputNodes stackNodes : List String)
    (hasRun : String → Bool) : List String → String → Option String
  | [], nodeToAdd => some nodeToAdd
  | parentNode :: rest, nodeToAdd =>
    if inputNode ≠ parentNode ∧ parentNode ∈ outputNodes then none
    else if parentNode ∈ stackNodes then none
    else if hasRun parentNode then some nodeToAdd
    else nodeToStart inputNode outputNodes stackNodes hasRun rest parentNode

/-- The entry that runs a node which nothing has started. -/
def emptyItemEntry (workflow : Workflow P) (nodeToAdd : String)
    (d : Delivery V) : IExecuteData P V :=
  { node := workflow.nodes.get? nodeToAdd
    data := mainOnly [.value [{ json := .empty, pairedItem := none }]]
    source := some (mainOnly [.value d.sourceData])
    runIndex := none
    metadata := none }

section

variable (workflow : Workflow P) (runData : IRunData V) (d : Delivery V)

/-- Whether an input node is left alone: it is a target of the parent too
    and not without data, on the stack, or has run; and the order that
    starts input nodes is the legacy one. -/
def leftAlone (outputNodes stackNodes : List String) (inputNode : String) :
    Except EngineError Bool := do
  if inputNode ∈ outputNodes then
    let inputConnections ← firstInput workflow inputNode
    if !(← incomingConnectionIsEmpty runData d.runIndex inputConnections) then
      return true
  return inputNode ∈ stackNodes || runData.has inputNode
    || !isLegacyExecutionOrder workflow

/-- The node to start for an input node.  A node below the parent is not
    started when the parent had no data for it; where the search found no
    node, the name looked up is the text of `undefined`. -/
def startedFor (outputNodes stackNodes : List String) (inputNode : String) :
    Except EngineError (Option String) := do
  let nodeToAdd := nodeToStart inputNode outputNodes stackNodes runData.has
    (getParentNodes workflow inputNode ++ [inputNode]).reverse inputNode
  if d.parentNodeName ∈ getParentNodes workflow (nodeToAdd.getD "undefined") then
    if ← d.isEmpty then
      return none
  return nodeToAdd

/-- Whether the node has no data to run on but an empty item. -/
def needsEmptyItem (nodeToAdd : String) : Except EngineError Bool := do
  if workflow.connectionsByDestinationNode.has nodeToAdd then
    let inputConnections ← firstInput workflow nodeToAdd
    incomingConnectionIsEmpty runData d.runIndex inputConnections
  else
    return true

/-- The body of the loop over the input nodes of a node that begins to
    wait: an input node that nothing will run is started, or the first node
    above it that nothing will run. -/
def startInput (stack : List (IExecuteData P V)) (outputNodes : List String)
    (inputNode : String) : Except EngineError (Option (IExecuteData P V)) :=
  do
  if inputNode = d.parentNodeName then
    return none
  let stackNodes ← stackNames stack
  if ← leftAlone workflow runData d outputNodes stackNodes inputNode then
    return none
  match ← startedFor workflow runData d outputNodes stackNodes inputNode with
  | none => return none
  | some nodeToAdd =>
    if ← needsEmptyItem workflow runData d nodeToAdd then
      return some (emptyItemEntry workflow nodeToAdd d)
    else
      return none

/-- The loop itself; what it enqueued before an error stays. -/
def startInputs (stack : List (IExecuteData P V)) (outputNodes : List String) :
    List String → List (IExecuteData P V) → List (IExecuteData P V) × Option EngineError
  | [], enqueued => (enqueued, none)
  | inputNode :: rest, enqueued =>
    match startInput workflow runData d
        (enqueued.foldl (enqueue workflow) stack) outputNodes inputNode with
    | .error e => (enqueued, some e)
    | .ok none => startInputs stack outputNodes rest enqueued
    | .ok (some executionData) =>
      startInputs stack outputNodes rest (enqueued ++ [executionData])

/-- What is enqueued when a node begins to wait. -/
def forcedStarts (stack : List (IExecuteData P V)) : List (IExecuteData P V) × Option EngineError :=
  match checkOutputNodes workflow d.parentNodeName with
  | .error e => ([], some e)
  | .ok outputNodes =>
    startInputs workflow runData d stack outputNodes
      ((((mainInputs workflow d.connectionData.node).getD []).flatMap (·.getD [])).map (·.node)) []

end

/-- The waiting table with the entries of one node replaced; a node without
    entries is taken out. -/
def setWaiting (waitingExecution : IWaitingForExecution V)
    (nodeName : String) (waiting : WaitingNode V) :
    IWaitingForExecution V :=
  if waiting.entries = [] then waitingExecution.delete nodeName
  else waitingExecution.set nodeName waiting

/-- Late in the call the entry is made anew from its `main` halves, with the
    data written once more. -/
def WaitingEntry.rewrite (entry : WaitingEntry V) (numberOfConnections : Nat)
    (d : Delivery V) : WaitingEntry V :=
  { data := mainOnly (setSlot d.data d.connectionData.index
      ((entry.data.get? .main).getD []))
    source := (prepareWaitingToExecution (V := V) numberOfConnections).source.set .main
      ((entry.source.get? .main).getD []) }

/-- Only a node that did not wait before has its inputs looked after. -/
def startsWith (workflow : Workflow P) (s : IRunExecutionData P V)
    (d : Delivery V) : List (IExecuteData P V) × Option EngineError :=
  if s.waitingExecution.has d.connectionData.node then ([], none)
  else forcedStarts workflow s.runData d s.nodeExecutionStack

/-- The entry goes to the stack when no input is outstanding; else it stays,
    and a node that did not wait before has its other inputs looked after. -/
def settleWaiting (workflow : Workflow P) (s : IRunExecutionData P V) (d : Delivery V)
    (waiting : WaitingNode V) (waitingNodeIndex : Nat) (entry : WaitingEntry V) : Added P V :=
  let nodeName := d.connectionData.node
  if entry.allDataFound then
    { waitingExecution := setWaiting s.waitingExecution nodeName
        (waiting.delete waitingNodeIndex)
      enqueued :=
        [{ node := workflow.nodes.get? nodeName
           data := entry.data
           source := some entry.source
           runIndex := none
           metadata := none }]
      error := none }
  else
    match startsWith workflow s d with
    | (enqueued, some e) =>
      { waitingExecution := s.waitingExecution.set nodeName waiting
        enqueued
        error := some e }
    | (enqueued, none) =>
      { waitingExecution := s.waitingExecution.set nodeName
          (waiting.set waitingNodeIndex (entry.rewrite (numberOfInputs workflow nodeName) d))
        enqueued
        error := none }

def waitingNode (waitingExecution : IWaitingForExecution V) (nodeName : String) : WaitingNode V :=
  (waitingExecution.get? nodeName).getD .empty

/-- Where the data goes: the first entry without data for the input, or a
    new one, whose key is the number of entries there are. -/
def waitingTarget (numberOfConnections index : Nat)
    (waiting : WaitingNode V) : Except EngineError (Nat × WaitingEntry V) :=
  match findWaiting index (byKey waiting) with
  | .error e => .error e
  | .ok (some found) => .ok found
  | .ok none =>
    .ok (waiting.entries.length, prepareWaitingToExecution numberOfConnections)

/-- A delivery to a node with several inputs. -/
def addToWaiting (workflow : Workflow P) (s : IRunExecutionData P V) (d : Delivery V) : Added P V :=
  let nodeName := d.connectionData.node
  let waiting := waitingNode s.waitingExecution nodeName
  match waitingTarget (numberOfInputs workflow nodeName) d.connectionData.index waiting with
  | .error e =>
    { waitingExecution := s.waitingExecution, enqueued := []
      error := some e }
  | .ok (waitingNodeIndex, entry) =>
    match entry.receive d with
    | (entry, some e) =>
      { waitingExecution := s.waitingExecution.set nodeName
          (waiting.set waitingNodeIndex entry)
        enqueued := []
        error := some e }
    | (entry, none) =>
      settleWaiting workflow s d (waiting.set waitingNodeIndex entry) waitingNodeIndex entry

/-- A delivery to a node with at most one input. -/
def directEntry (workflow : Workflow P) (d : Delivery V) : IExecuteData P V :=
  { node := workflow.nodes.get? d.connectionData.node
    data := mainOnly (setSlot d.data d.connectionData.index
      (List.replicate (d.connectionData.index + 1) .null))
    source := some (mainOnly [.value d.sourceData])
    runIndex := d.newRunIndex
    metadata := d.metadata }

def addNodeToBeExecuted (workflow : Workflow P) (s : IRunExecutionData P V)
    (d : Delivery V) : Added P V :=
  if 1 < numberOfInputs workflow d.connectionData.node then
    addToWaiting workflow s d
  else
    { waitingExecution := s.waitingExecution
      enqueued := [directEntry workflow d]
      error := none }

def IRunExecutionData.afterAdding (workflow : Workflow P)
    (s : IRunExecutionData P V) (added : Added P V) :
    IRunExecutionData P V :=
  { s with
    nodeExecutionStack := added.enqueued.foldl (enqueue workflow) s.nodeExecutionStack
    waitingExecution := added.waitingExecution }

/-- A call of `addNodeToBeExecuted`, with the run data and the stack it
    finds. -/
structure Arrival (P V : Type) where
  runData : IRunData V
  nodeExecutionStack : List (IExecuteData P V)
  delivery : Delivery V

/-- The engine at the time of the call. -/
def Arrival.engine (a : Arrival P V)
    (waitingExecution : IWaitingForExecution V) : IRunExecutionData P V :=
  { runData := a.runData
    nodeExecutionStack := a.nodeExecutionStack
    waitingExecution }

def Arrival.call (workflow : Workflow P) (a : Arrival P V)
    (waitingExecution : IWaitingForExecution V) : Added P V :=
  addNodeToBeExecuted workflow (a.engine waitingExecution) a.delivery

/-- The stack entry runs the node. -/
def runs (nodeName : String) (executionData : IExecuteData P V) : Bool :=
  executionData.node.map (·.name) = some nodeName

/-! ## What a delivery does

    One lemma for each piece: where the data goes, what the entry holds
    afterwards, and what becomes of the entry. -/

/-- The data half of the entry. -/
def WaitingEntry.main (entry : WaitingEntry V) : List (Slot (List (INodeExecutionData V))) :=
  (entry.data.get? .main).getD []

def WaitingEntry.mainSource (entry : WaitingEntry V) : List (Slot ISourceData) :=
  (entry.source.get? .main).getD []

/-- Both halves have a `main`. -/
structure WaitingEntry.Ready (entry : WaitingEntry V) : Prop where
  data : (entry.data.get? .main).isSome
  source : (entry.source.get? .main).isSome

section

variable (numberOfConnections : Nat)

theorem main_prepareWaitingToExecution :
    (prepareWaitingToExecution (V := V) numberOfConnections).main
      = List.replicate numberOfConnections .null := by
  rw [WaitingEntry.main, prepareWaitingToExecution, get?_mainOnly, Option.getD_some]

theorem prepareWaitingToExecution_ready :
    (prepareWaitingToExecution (V := V) numberOfConnections).Ready :=
  { data := by rw [prepareWaitingToExecution, get?_mainOnly]; rfl
    source := by rw [prepareWaitingToExecution, get?_mainOnly]; rfl }

end

section

variable {entry : WaitingEntry V} (d : Delivery V)

theorem receive_of_ready (h : entry.Ready) :
    entry.receive d =
      ({ data := entry.data.set .main
           (setSlot d.data d.connectionData.index entry.main)
         source := entry.source.set .main
           (setSlot d.source d.connectionData.index entry.mainSource) },
        none) := by
  obtain ⟨main, hmain⟩ := Option.isSome_iff_exists.mp h.data
  obtain ⟨source, hsource⟩ := Option.isSome_iff_exists.mp h.source
  simp [WaitingEntry.receive, WaitingEntry.main, WaitingEntry.mainSource, hmain, hsource]

theorem main_receive (h : entry.Ready) : (entry.receive d).1.main
    = setSlot d.data d.connectionData.index entry.main := by
  rw [receive_of_ready d h]
  simp [WaitingEntry.main, get?_set]

theorem mainSource_receive (h : entry.Ready) : (entry.receive d).1.mainSource
      = setSlot d.source d.connectionData.index entry.mainSource := by
  rw [receive_of_ready d h]
  simp [WaitingEntry.mainSource, get?_set]

theorem receive_ready (h : entry.Ready) : (entry.receive d).1.Ready := by
  rw [receive_of_ready d h]
  exact ⟨by simp [get?_set], by simp [get?_set]⟩

variable (numberOfConnections : Nat)

theorem main_rewrite (h : entry.Ready) :
    ((entry.receive d).1.rewrite numberOfConnections d).main = (entry.receive d).1.main := by
  rw [WaitingEntry.main, WaitingEntry.rewrite, get?_mainOnly, Option.getD_some,
    ← WaitingEntry.main, main_receive d h, setSlot_setSlot]

theorem mainSource_rewrite (entry : WaitingEntry V) (d : Delivery V) (numberOfConnections : Nat) :
    (entry.rewrite numberOfConnections d).mainSource = entry.mainSource := by
  simp [WaitingEntry.mainSource, WaitingEntry.rewrite, get?_set]

theorem rewrite_ready : (entry.rewrite numberOfConnections d).Ready :=
  { data := by rw [WaitingEntry.rewrite, get?_mainOnly]; rfl
    source := by simp [WaitingEntry.rewrite, get?_set] }

end

section

variable {index : Nat}

variable {l : List (Nat × WaitingEntry V)}

theorem findWaiting_some {p : Nat × WaitingEntry V} (h : findWaiting index l = .ok (some p)) :
    p ∈ l ∧ (slotAt p.2.main index).present = false ∧ (p.2.data.get? .main).isSome := by
  induction l with
  | nil => cases h
  | cons q rest ih =>
    obtain ⟨key, entry⟩ := q
    rw [findWaiting] at h
    rcases hmain : entry.data.get? .main with _ | main
    · rw [hmain] at h
      cases h
    · simp only [hmain] at h
      by_cases hin : (slotAt main index).present = true
      · rw [if_pos hin] at h
        exact ⟨mem_cons_of_mem _ (ih h).1, (ih h).2⟩
      · rw [if_neg hin] at h
        cases h
        refine ⟨mem_cons_self .., ?_, by rw [hmain]; rfl⟩
        rw [WaitingEntry.main, hmain]
        exact Bool.eq_false_iff.mpr hin

theorem findWaiting_none (h : findWaiting index l = .ok none) :
    ∀ p ∈ l, (slotAt p.2.main index).present = true := by
  induction l with
  | nil => exact fun p hp => by cases hp
  | cons q rest ih =>
    obtain ⟨key, entry⟩ := q
    rw [findWaiting] at h
    rcases hmain : entry.data.get? .main with _ | main
    · rw [hmain] at h
      cases h
    · simp only [hmain] at h
      by_cases hin : (slotAt main index).present = true
      · rw [if_pos hin] at h
        refine forall_mem_cons.mpr ⟨?_, ih h⟩
        rw [WaitingEntry.main, hmain]
        exact hin
      · rw [if_neg hin] at h
        cases h

theorem findWaiting_ready (index : Nat) (h : ∀ p ∈ l, p.2.Ready) :
    ∃ found, findWaiting index l = .ok found := by
  induction l with
  | nil => exact ⟨none, rfl⟩
  | cons q rest ih =>
    obtain ⟨hentry, hrest⟩ := forall_mem_cons.mp h
    obtain ⟨main, hmain⟩ := Option.isSome_iff_exists.mp hentry.data
    simp only [findWaiting, hmain]
    by_cases hin : (slotAt main index).present = true
    · rw [if_pos hin]
      exact ih hrest
    · rw [if_neg hin]
      exact ⟨_, rfl⟩

variable {numberOfConnections : Nat} {waiting : WaitingNode V}

section

variable {entry : WaitingEntry V} {key : Nat}
  (h : waitingTarget numberOfConnections index waiting = .ok (key, entry))
include h

/-- **WHERE THE DATA GOES**: to an entry that lacks the input, or to a new
    one, when there is no such entry. -/
theorem waitingTarget_cases : (waiting.get? key = some entry
        ∧ (slotAt entry.main index).present = false)
      ∨ (key = waiting.entries.length
        ∧ entry = prepareWaitingToExecution numberOfConnections
        ∧ ∀ p ∈ waiting.entries, (slotAt p.2.main index).present = true) := by
  rw [waitingTarget] at h
  rcases hfind : findWaiting index (byKey waiting) with e | found | p
  · rw [hfind] at h
    cases h
  · rw [hfind] at h
    cases h
    refine .inr ⟨rfl, rfl, ?_⟩
    exact fun p hp => findWaiting_none hfind p (mem_byKey.mpr hp)
  · rw [hfind] at h
    cases h
    obtain ⟨hmem, hlacks, -⟩ := findWaiting_some hfind
    exact .inl ⟨findKey_of_mem waiting.nodup (mem_byKey.mp hmem), hlacks⟩

theorem waitingTarget_isSome : (entry.data.get? .main).isSome := by
  rw [waitingTarget] at h
  rcases hfind : findWaiting index (byKey waiting) with e | found | p
  · rw [hfind] at h
    cases h
  · rw [hfind] at h
    cases h
    exact (prepareWaitingToExecution_ready _).data
  · rw [hfind] at h
    cases h
    exact (findWaiting_some hfind).2.2

end

theorem waitingTarget_ready (numberOfConnections index : Nat)
    (h : ∀ p ∈ waiting.entries, p.2.Ready) :
    ∃ key entry, waitingTarget numberOfConnections index waiting = .ok (key, entry)
        ∧ entry.Ready := by
  obtain ⟨found, hfind⟩ := findWaiting_ready index fun p hp => h p (mem_byKey.mp hp)
  rw [waitingTarget, hfind]
  rcases found with _ | ⟨key, entry⟩
  · exact ⟨_, _, rfl, prepareWaitingToExecution_ready _⟩
  · obtain ⟨hmem, -⟩ := findWaiting_some hfind
    exact ⟨key, entry, rfl, h _ (mem_byKey.mp hmem)⟩

end

section

variable (waitingExecution : IWaitingForExecution V) (nodeName : String) (waiting : WaitingNode V)

theorem waitingNode_set :
    waitingNode (waitingExecution.set nodeName waiting) nodeName = waiting := by
  rw [waitingNode, get?_set, if_pos rfl, Option.getD_some]

theorem entries_setWaiting : (waitingNode (setWaiting waitingExecution nodeName waiting)
      nodeName).entries = waiting.entries := by
  rw [setWaiting]
  by_cases h : waiting.entries = []
  · rw [if_pos h, waitingNode, get?_delete, if_pos rfl, h]
    rfl
  · rw [if_neg h, waitingNode_set]

end

variable {d : Delivery V} {key : Nat} {entry : WaitingEntry V}

theorem addToWaiting_ready {s : IRunExecutionData P V} (htarget : waitingTarget
      (numberOfInputs workflow d.connectionData.node) d.connectionData.index
      (waitingNode s.waitingExecution d.connectionData.node)
        = .ok (key, entry)) (hready : entry.Ready) :
    addToWaiting workflow s d
      = settleWaiting workflow s d
          ((waitingNode s.waitingExecution d.connectionData.node).set key
            (entry.receive d).1) key (entry.receive d).1 := by
  simp [addToWaiting, htarget, receive_of_ready d hready]

section

variable (workflow : Workflow P) (s : IRunExecutionData P V) {d : Delivery V}
  {entry : WaitingEntry V} (waiting : WaitingNode V) (key : Nat)

/-- **HANDED ON**: a complete entry leaves the table for the stack. -/
theorem settleWaiting_found (h : (entry.receive d).1.allDataFound = true) :
    settleWaiting workflow s d (waiting.set key (entry.receive d).1) key (entry.receive d).1
      = { waitingExecution := setWaiting s.waitingExecution
            d.connectionData.node (waiting.delete key)
          enqueued :=
            [{ node := workflow.nodes.get? d.connectionData.node
               data := (entry.receive d).1.data
               source := some (entry.receive d).1.source
               runIndex := none
               metadata := none }]
          error := none } := by
  rw [settleWaiting, if_pos h, delete_set]

/-- **KEPT**: an entry with inputs outstanding stays under its key, with
    what it received; only a node that did not wait before starts others. -/
theorem settleWaiting_waits (hready : entry.Ready) (h : (entry.receive d).1.allDataFound = false) :
    let added := settleWaiting workflow s d
      (waiting.set key (entry.receive d).1) key (entry.receive d).1
    added.enqueued
        = (if s.waitingExecution.has d.connectionData.node then []
          else (forcedStarts workflow s.runData d s.nodeExecutionStack).1)
      ∧ ∃ kept, kept.Ready
        ∧ kept.main = (entry.receive d).1.main
        ∧ kept.mainSource = (entry.receive d).1.mainSource
        ∧ added.waitingExecution = s.waitingExecution.set
          d.connectionData.node (waiting.set key kept) := by
  have hneg : ¬ (entry.receive d).1.allDataFound = true := by
    rw [h]
    exact Bool.false_ne_true
  simp only [settleWaiting, if_neg hneg, OrderedMap.set_set, startsWith]
  have hlate := main_rewrite d (numberOfInputs workflow d.connectionData.node) hready
  have hlateSource := mainSource_rewrite (entry.receive d).1 d
    (numberOfInputs workflow d.connectionData.node)
  by_cases hhas : s.waitingExecution.has d.connectionData.node = true
  · rw [if_pos hhas, if_pos hhas]
    exact ⟨rfl, _, rewrite_ready d _, hlate, hlateSource, rfl⟩
  · rw [if_neg hhas, if_neg hhas]
    rcases forcedStarts workflow s.runData d s.nodeExecutionStack with ⟨enqueued, _ | e⟩
    · exact ⟨rfl, _, rewrite_ready d _, hlate, hlateSource, rfl⟩
    · exact ⟨rfl, _, receive_ready d hready, rfl, rfl, rfl⟩

end

section

variable {workflow : Workflow P} {a : Arrival P V}
  {waitingExecution : IWaitingForExecution V} {key : Nat}
  {entry : WaitingEntry V}

section

variable (hk : 1 < numberOfInputs workflow a.delivery.connectionData.node)
  (htarget : waitingTarget (numberOfInputs workflow a.delivery.connectionData.node)
    a.delivery.connectionData.index
    (waitingNode waitingExecution a.delivery.connectionData.node) = .ok (key, entry))
  (hready : entry.Ready)
include hk htarget hready

theorem Arrival.call_ready :
    a.call workflow waitingExecution
      = settleWaiting workflow (a.engine waitingExecution) a.delivery
          ((waitingNode waitingExecution a.delivery.connectionData.node).set key
              (entry.receive a.delivery).1) key (entry.receive a.delivery).1 := by
  rw [Arrival.call, addNodeToBeExecuted, if_pos hk]
  exact addToWaiting_ready htarget hready

theorem Arrival.call_found (h : (entry.receive a.delivery).1.allDataFound = true) :
    a.call workflow waitingExecution
      = { waitingExecution := setWaiting waitingExecution
            a.delivery.connectionData.node
            ((waitingNode waitingExecution a.delivery.connectionData.node).delete key)
          enqueued :=
            [{ node := workflow.nodes.get? a.delivery.connectionData.node
               data := (entry.receive a.delivery).1.data
               source := some (entry.receive a.delivery).1.source
               runIndex := none
               metadata := none }]
          error := none } :=
  (Arrival.call_ready hk htarget hready).trans (settleWaiting_found _ _ _ _ h)

theorem Arrival.call_waits (h : (entry.receive a.delivery).1.allDataFound = false) :
    (a.call workflow waitingExecution).enqueued
        = (if waitingExecution.has a.delivery.connectionData.node then []
          else (forcedStarts workflow a.runData a.delivery a.nodeExecutionStack).1)
      ∧ ∃ kept, kept.Ready
        ∧ kept.main = (entry.receive a.delivery).1.main
        ∧ kept.mainSource = (entry.receive a.delivery).1.mainSource
        ∧ (a.call workflow waitingExecution).waitingExecution
          = waitingExecution.set a.delivery.connectionData.node
            ((waitingNode waitingExecution a.delivery.connectionData.node).set key kept) := by
  rw [Arrival.call_ready hk htarget hready]
  exact settleWaiting_waits workflow (a.engine waitingExecution) _ key hready h

end

end

theorem allDataFound_iff : entry.allDataFound = true ↔ ∀ slot ∈ entry.main, slot ≠ .null := by
  rw [WaitingEntry.allDataFound, all_eq_true]
  refine forall₂_congr fun slot _ => ?_
  cases slot <;> simp

variable {index : Nat}

theorem null_mem_of_slotAt {α : Type} {array : List (Slot α)}
    (h : slotAt array index = .null) : .null ∈ array := by
  rw [slotAt, getD_eq_getElem?_getD] at h
  by_cases hin : index < array.length
  · rw [getElem?_eq_getElem hin, Option.getD_some] at h
    exact h ▸ getElem_mem hin
  · rw [getElem?_eq_none (by omega)] at h
    cases h

variable {numberOfConnections : Nat}

theorem allDataFound_prepareWaitingToExecution (d : Delivery V) (h : 1 < numberOfConnections) :
    ((prepareWaitingToExecution numberOfConnections).receive d).1.allDataFound = false := by
  obtain ⟨other, hlt, hne⟩ : ∃ other, other < numberOfConnections ∧
      other ≠ d.connectionData.index := by
    by_cases hindex : d.connectionData.index = 0
    · exact ⟨1, h, by omega⟩
    · exact ⟨0, by omega, by omega⟩
  rw [Bool.eq_false_iff]
  intro hfound
  have hnull : slotAt ((prepareWaitingToExecution numberOfConnections).receive d).1.main
      other = .null := by
    rw [main_receive d (prepareWaitingToExecution_ready _), slotAt_setSlot,
      if_neg hne, main_prepareWaitingToExecution, slotAt, getD_eq_getElem?_getD,
      getElem?_replicate_of_lt hlt, Option.getD_some]
  exact allDataFound_iff.mp hfound .null (null_mem_of_slotAt hnull) rfl

theorem waitingTarget_lacks {waiting : WaitingNode V}
    (h : waitingTarget numberOfConnections index waiting = .ok (key, entry)) :
    (slotAt entry.main index).present = false := by
  rcases waitingTarget_cases h with ⟨-, hlacks⟩ | ⟨-, rfl, -⟩
  · exact hlacks
  · rw [main_prepareWaitingToExecution, slotAt, getD_eq_getElem?_getD]
    rcases hget : (List.replicate numberOfConnections Slot.null)[index]? with _ | slot
    · rfl
    · rw [eq_of_mem_replicate (mem_of_getElem? hget)]
      rfl

theorem waits_of_not_has (hk : 1 < numberOfConnections)
    {waitingExecution : IWaitingForExecution V} {nodeName : String}
    (d : Delivery V) (hnew : waitingExecution.has nodeName = false)
    (htarget : waitingTarget numberOfConnections index
      (waitingNode waitingExecution nodeName) = .ok (key, entry)) :
    (entry.receive d).1.allDataFound = false := by
  have hempty : waitingNode waitingExecution nodeName = .empty := by
    rcases hget : waitingExecution.get? nodeName with _ | waiting
    · rw [waitingNode, hget, Option.getD_none]
    · rw [OrderedMap.has, hget] at hnew
      cases hnew
  rw [hempty] at htarget
  cases htarget
  exact allDataFound_prepareWaitingToExecution d hk

/-! ## Entries started from nothing -/

variable {runData : IRunData V} {stack : List (IExecuteData P V)}

theorem startInput_eq {outputNodes : List String} {inputNode : String}
    {executionData : IExecuteData P V}
    (h : startInput workflow runData d stack outputNodes inputNode = .ok (some executionData)) :
    ∃ name, executionData = emptyItemEntry workflow name d := by
  rw [startInput] at h
  by_cases hparent : inputNode = d.parentNodeName
  · rw [if_pos hparent] at h
    cases h
  · rw [if_neg hparent] at h
    obtain ⟨stackNodes, -, h⟩ := bind_eq_ok.mp h
    obtain ⟨left, -, h⟩ := bind_eq_ok.mp h
    cases left with
    | true => cases h
    | false =>
      obtain ⟨nodeToAdd, -, h⟩ := bind_eq_ok.mp h
      cases nodeToAdd with
      | none => cases h
      | some name =>
        obtain ⟨needs, -, h⟩ := bind_eq_ok.mp h
        cases needs with
        | false => cases h
        | true =>
          cases h
          exact ⟨name, rfl⟩


theorem startInputs_mem {outputNodes inputs : List String} {enqueued : List (IExecuteData P V)}
    (h : ∀ x ∈ enqueued, ∃ name, x = emptyItemEntry workflow name d) :
    ∀ x ∈ (startInputs workflow runData d stack outputNodes inputs
      enqueued).1, ∃ name, x = emptyItemEntry workflow name d := by
  induction inputs generalizing enqueued with
  | nil => exact h
  | cons inputNode rest ih =>
    rw [startInputs]
    rcases hstart : startInput workflow runData d
        (enqueued.foldl (enqueue workflow) stack) outputNodes inputNode with e | _ | executionData
    · exact h
    · exact ih h
    · refine ih fun x hx => ?_
      rcases mem_append.mp hx with hx | hx
      · exact h x hx
      · rw [mem_singleton.mp hx]
        exact startInput_eq hstart

theorem forcedStarts_mem :
    ∀ x ∈ (forcedStarts workflow runData d stack).1,
      ∃ name, x = emptyItemEntry workflow name d := by
  rw [forcedStarts]
  rcases checkOutputNodes workflow d.parentNodeName with e | outputNodes
  · exact fun x hx => by cases hx
  · exact startInputs_mem fun x hx => by cases hx

theorem runIndex_of_addToWaiting {s : IRunExecutionData P V} :
    ∀ x ∈ (addToWaiting workflow s d).enqueued, x.runIndex = none := by
  have hsettle : ∀ (waiting : WaitingNode V) key entry,
      ∀ x ∈ (settleWaiting workflow s d waiting key entry).enqueued, x.runIndex = none := by
    intro waiting key entry x hx
    rw [settleWaiting] at hx
    by_cases hfound : entry.allDataFound = true
    · rw [if_pos hfound] at hx
      rw [mem_singleton.mp hx]
    · rw [if_neg hfound] at hx
      have hstarted : ∀ y ∈ (startsWith workflow s d).1, y.runIndex = none := by
        intro y hy
        rw [startsWith] at hy
        split at hy
        · cases hy
        · obtain ⟨name, rfl⟩ := forcedStarts_mem y hy
          rfl
      rcases hstart : startsWith workflow s d with ⟨enqueued, _ | e⟩ <;>
        rw [hstart] at hx hstarted <;> exact hstarted x hx
  intro x hx
  rw [addToWaiting] at hx
  split at hx
  · cases hx
  · split at hx
    · cases hx
    · exact hsettle _ _ _ x hx

end N8nWorkflowExecute
