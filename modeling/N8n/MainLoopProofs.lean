import Mathlib.Algebra.Order.Ring.Nat
import N8n.EngineRequestProofs
import N8n.PartialExecutionProofs

/-! # The main loop — waiting nodes that nothing promotes

    `processRunExecutionData` takes entries from the execution stack until
    there are none.  An iteration that comes to its end with an empty stack
    looks through the waiting nodes for one that can run without all of its
    inputs.

    Not every iteration comes to its end.  A node that is not on the filter,
    that outputs `null`, or whose request comes to nothing leaves by a
    `continue`, and when it was the last on the stack nobody looks.  And of
    the entries of a waiting node only the first is looked at.  Where neither
    happens, no entry that could run is left (`noneStranded_of_looks`).

    An iteration is two steps here, so that what its end finds is a state:
    the node with its outputs, and the look through the waiting nodes. -/

namespace N8nMainLoop

open N8nRun N8nOrderedMap N8nWorkflow N8nConnectedNodes N8nWorkflowExecute List OrderedMap
open N8nEngineRequest N8nExcept

variable {P V : Type}

/-! ## What the loop reads -/

inductive RequiredInputs where
  | indices (inputs : List Nat)
  | amount (n : Nat)

/-- `inputs.length` and, with its expression evaluated, `requiredInputs`. -/
structure NodeTypeDescription where
  inputsLength : Nat
  requiredInputs : Option RequiredInputs

inductive OnError where
  | stopWorkflow | continueRegularOutput | continueErrorOutput
deriving DecidableEq

/-- The settings of a node; `maxTries` is `0` where it is not set. -/
structure NodeSettings where
  retryOnFail : Bool
  maxTries : Nat
  alwaysOutputData : Bool
  continueOnFail : Bool
  onError : Option OnError

def NodeSettings.tries (settings : NodeSettings) : Nat :=
  if settings.retryOnFail then
    min 5 (max 2 (if settings.maxTries = 0 then 3 else settings.maxTries))
  else 1

def NodeSettings.continues (settings : NodeSettings) : Bool :=
  settings.continueOnFail
    || settings.onError = some .continueRegularOutput
    || settings.onError = some .continueErrorOutput

/-- What is given for a run of the loop.  The type of a node is described
    from its name, version and parameters. -/
structure Context (P : Type) where
  settings : INode P → NodeSettings
  description : String → Nat → P → NodeTypeDescription
  runNodeFilter : Option (List String)
  destinationNode : Option String
  typeErrorMessage : String

def Context.describe (ctx : Context P) (node : INode P) : NodeTypeDescription :=
  ctx.description node.type node.typeVersion node.parameters

/-! ## Paired items -/

def resolveSourceOverwrite (item : INodeExecutionData V)
    (executionData : IExecuteData P V) : Option ISourceData :=
  match executionData.metadata with
  | none => none
  | some metadata =>
    if metadata.preserveSourceOverwrite then
      metadata.preservedSourceOverwrite <|> item.pairedItem.bind (·.sourceOverwrite)
    else none

/-- Every item is paired with its own place in the input. -/
def updatePairedItems (executionData : IExecuteData P V) : ITaskDataConnections V :=
  executionData.data.map fun _ inputs =>
    inputs.zipIdx.map fun (input, inputIndex) =>
      match input with
      | .value items => .value <| items.zipIdx.map fun (item, itemIndex) =>
        { item with
          pairedItem := some
            { item := itemIndex
              input := orUndefined inputIndex
              sourceOverwrite :=
                resolveSourceOverwrite item executionData } }
      | input => input

/-! ## The input data -/

/-- The nodes above an input that are not disabled, with the nodes that were
    checked. -/
def getHighestNode (workflow : Workflow P) :
    Nat → String → Option Nat → List String → Except EngineError (List String × List String)
  | 0, _, _, checkedNodes => .ok ([], checkedNodes)
  | fuel + 1, nodeName, nodeConnectionIndex, checkedNodes =>
    match workflow.nodes.get? nodeName with
    | none => .error .typeError
    | some node =>
      let currentHighest := if node.disabled then [] else [nodeName]
      match mainInputs workflow nodeName with
      | none => .ok (currentHighest, checkedNodes)
      | some inputs =>
        if nodeName ∈ checkedNodes then
          .ok (currentHighest, checkedNodes)
        else
          ((inputs.zipIdx.filter fun p =>
              nodeConnectionIndex.all (· = p.2)).flatMap (·.1.getD [])).foldlM
            (fun found connection =>
              if connection.node ∈ found.2 then .ok found
              else
                match workflow.nodes.get? connection.node with
                | none => .ok found
                | some above => do
                    let (addNodes, checked) ← getHighestNode workflow
                      fuel connection.node none found.2
                    let addNodes :=
                      if addNodes = [] ∧ !above.disabled then
                        [connection.node]
                      else addNodes
                    .ok (found.1 ++ addNodes.filter (· ∉ found.1), checked))
            ([], checkedNodes ++ [nodeName])

/-- Whether a node has the data to run; without it, it is put back. -/
def ensureInputs (workflow : Workflow P) (nodeName : String)
    (data : ITaskDataConnections V) : List Nat → Except EngineError Bool
  | [] => .ok true
  | connectionIndex :: rest => do
      let (highestNodes, _) ← getHighestNode workflow
        (workflow.connectionsByDestinationNode.keys.length + 1) nodeName (some connectionIndex) []
      if highestNodes = [] then
        return true
      match data.get? .main with
      | none => return false
      | some main =>
        if isLegacyExecutionOrder workflow
            && (main.length < connectionIndex
              || slotAt main connectionIndex matches .null) then
          return false
        ensureInputs workflow nodeName data rest

def ensureInputData (workflow : Workflow P) (nodeName : String)
    (executionData : IExecuteData P V) : Except EngineError Bool :=
  ensureInputs workflow nodeName executionData.data (List.range (numberOfInputs workflow nodeName))

/-! ## Running the node -/

abbrev Outputs (V : Type) := List (Slot (List (INodeExecutionData V)))

/-- One try of a node: it asks for its tools, it returns (with the items as
    they are stored), or an error is thrown when it had returned this. -/
inductive Try (V : Type) where
  | request (request : EngineRequest V)
  | data (nodeSuccessData : Option (Outputs V))
  | failed (message : String) (nodeSuccessData : Option (Outputs V))

def Context.message (ctx : Context P) : EngineError → String
  | .typeError => ctx.typeErrorMessage
  | .assertionError message => message.getD ""
  | .applicationError message => message
  | .unexpectedError message => message

/-- `nodeSuccessData?.[0]?.[0]`. -/
def hasFirstItem (nodeSuccessData : Option (Outputs V)) : Bool :=
  match slotAt (nodeSuccessData.getD []) 0 with
  | .value items => !items.isEmpty
  | _ => false

/-- With `alwaysOutputData` a node without items has one empty item, paired
    with all that came in. -/
def alwaysOutput (settings : NodeSettings)
    (nodeSuccessData : Option (Outputs V)) : Option (Outputs V) :=
  if settings.alwaysOutputData && !hasFirstItem nodeSuccessData then
    some (setSlot (.value [{ json := .empty, pairedItem := none }]) 0 (nodeSuccessData.getD []))
  else nodeSuccessData

section

variable (ctx : Context P) (node : INode P) (executionData : IExecuteData P V) (runIndex : Nat)

/-- Whether the input is looked at to pair the items of the output. -/
def readsInput (settings : NodeSettings) (nodeSuccessData : Option (Outputs V)) : Bool :=
  !(nodeSuccessData.getD []).isEmpty
    || (settings.alwaysOutputData && !hasFirstItem nodeSuccessData)

/-- `nodeSuccessData = [main[0]]`, if there is something to pass through. -/
def passThrough (nodeSuccessData : Option (Outputs V)) : Option (Outputs V) :=
  match (executionData.data.get? .main).getD [] with
  | [] => nodeSuccessData
  | .null :: _ => nodeSuccessData
  | input :: _ => some [input]

/-- `Object.assign(currentTaskData, taskData)`. -/
def assignTaskData (current taskData : ITaskData V) : ITaskData V :=
  { data := taskData.data <|> current.data
    inputOverride := taskData.inputOverride <|> current.inputOverride }

/-- The run is added to the runs of the node, or joined with the one that
    was reserved for it. -/
def storeTaskData (runData : IRunData V) (taskData : ITaskData V) : IRunData V :=
  let runs := (runData.get? node.name).getD []
  match runs[runIndex]? with
  | some current =>
    runData.set node.name (runs.set runIndex (assignTaskData current taskData))
  | none => runData.set node.name (runs ++ [taskData])

/-- The input that was noted for the run, if the output is logged under
    another type. -/
def inputOverride (runData : IRunData V) : Option (ITaskDataConnections V) :=
  node.rewireOutputLogTo.map fun _ =>
    ((((runData.get? node.name).getD [])[runIndex]?).bind (·.inputOverride)).getD .empty

def successTaskData (runData : IRunData V) (outputs : Outputs V) : ITaskData V :=
  { data := some (OrderedMap.empty.set
      (node.rewireOutputLogTo.getD .main) outputs)
    inputOverride := inputOverride node runIndex runData }

def errorTaskData (runData : IRunData V) (message : String) : ITaskData V :=
  { data := node.rewireOutputLogTo.map fun type =>
      OrderedMap.empty.set type
        [.value [{ json := OrderedMap.empty.set "error" (.string message)
                   pairedItem := none }]]
    inputOverride := inputOverride node runIndex runData }

end

/-! ## Handing on the output -/

/-- `position[1]` and then `position[0]`, the greater ones first. -/
def before (a b : Int × Int) : Prop := b.2 < a.2 ∨ a.2 = b.2 ∧ b.1 ≤ a.1

instance : DecidableRel before := fun a b =>
  inferInstanceAs (Decidable (b.2 < a.2 ∨ a.2 = b.2 ∧ b.1 ≤ a.1))

/-- The connections of the main outputs of a node, with their outputs. -/
def outgoing (workflow : Workflow P) (nodeName : String) : List (Nat × IConnection) :=
  ((((workflow.connectionsBySourceNode.get? nodeName).bind
    (·.get? .main)).getD []).zipIdx).flatMap fun (connections, outputIndex) =>
      (connections.getD []).map fun connectionData =>
        (outputIndex, connectionData)

/-- Whether the output goes to the connection. -/
def goesTo (workflow : Workflow P) (outputs : Outputs V) (p : Nat × IConnection) : Bool :=
  match slotAt outputs p.1 with
  | .value items => !items.isEmpty
      || (0 < p.2.index && isLegacyExecutionOrder workflow)
  | _ => false

def positionOf (workflow : Workflow P) (nodeName : String) : Int × Int :=
  ((workflow.nodes.get? nodeName).map (·.position)).getD (0, 0)

/-- The call of `addNodeToBeExecuted` for a connection. -/
def deliveryTo (nodeName : String) (outputs : Outputs V) (runIndex : Nat)
    (p : Nat × IConnection) : Delivery V :=
  { connectionData := p.2
    outputIndex := p.1
    parentNodeName := nodeName
    nodeSuccessData := some outputs
    runIndex
    newRunIndex := none
    metadata := none }

/-- In the v1 order a connection to an unknown node is noticed before
    anything is added, and what is more to the top left is added last. -/
def addChildren (workflow : Workflow P) (nodeName : String)
    (outputs : Outputs V) (runIndex : Nat) (s : IRunExecutionData P V) :
    IRunExecutionData P V × Option EngineError :=
  let connections := outgoing workflow nodeName
  let known := connections.takeWhile fun p => workflow.nodes.has p.2.node
  let notFound : Option EngineError :=
    if known.length < connections.length then
      some (.applicationError "Destination node not found")
    else none
  let toAdd := known.filter (goesTo workflow outputs)
  if isLegacyExecutionOrder workflow then
    let (s, error) := addAll workflow (toAdd.map (deliveryTo nodeName outputs runIndex)) s
    (s, error <|> notFound)
  else if notFound.isSome then (s, notFound)
  else
    addAll workflow
      ((toAdd.insertionSort fun a b =>
        before (positionOf workflow a.2.node) (positionOf workflow b.2.node)).map
            (deliveryTo nodeName outputs runIndex)) s

/-! ## The waiting nodes -/

section

variable (ctx : Context P) (workflow : Workflow P)

/-- The inputs a node has to have data at; the legacy order knows none. -/
def requiredInputs (node : INode P) : Option RequiredInputs :=
  if isLegacyExecutionOrder workflow then none
  else (ctx.describe node).requiredInputs

/-- The node only runs with data at all of its inputs. -/
def allRequired (node : INode P) : Bool :=
  match requiredInputs ctx workflow node with
  | none => false
  | some (.indices inputs) => inputs.length = (ctx.describe node).inputsLength
  | some (.amount n) => n = (ctx.describe node).inputsLength

def parentIsWaiting (waitingNodes : List String) (nodeName : String) : Bool :=
  (getParentNodes workflow nodeName).any (· ∈ waitingNodes)

/-- The inputs with any kind of data, even if it is an empty array. -/
def inputsWithData (main : Outputs V) : List Nat :=
  (main.zipIdx.filter fun p => p.1.present).map Prod.snd

def hasRequiredInputs (node : INode P) (main : Outputs V) : Bool :=
  match requiredInputs ctx workflow node with
  | none => true
  | some (.indices inputs) => inputs.all (· ∈ inputsWithData main)
  | some (.amount n) => n ≤ (inputsWithData main).length

/-- Some input has an item. -/
def hasItems (main : Outputs V) : Bool :=
  main.any fun
    | .value items => !items.isEmpty
    | _ => false

/-- The entries of a node in the order that sorting the keys as texts gives
    them. -/
def byText (waiting : WaitingNode V) : List (Nat × WaitingEntry V) :=
  waiting.entries.insertionSort fun a b => toString a.1 ≤ toString b.1

/-- The entry that runs a waiting node on what it has. -/
def promotedEntry (node : INode P) (nodeName : String)
    (main : Outputs V) (entry : WaitingEntry V) : IExecuteData P V :=
  let taskDataMain := main.map fun
    | .null => .value []
    | data => data
  { node := workflow.nodes.get? nodeName
    data := mainOnly (taskDataMain ++ List.replicate
      ((ctx.describe node).inputsLength - taskDataMain.length) (.value []))
    source := some entry.source
    runIndex := none
    metadata := none }

/-- What is done about a waiting node: nothing, or its first entry is taken
    out, to the stack unless it has no items at all. -/
inductive Look (P V : Type) where
  | skip
  | take (key : Nat) (executionData : Option (IExecuteData P V))
  | throw (error : EngineError)

def lookAt (waitingExecution : IWaitingForExecution V) (nodeName : String) : Look P V :=
  match workflow.nodes.get? nodeName with
  | none => .skip
  | some checkNode =>
    if allRequired ctx workflow checkNode then .skip
    else if parentIsWaiting workflow waitingExecution.keys nodeName then
      .skip
    else
      match byText (waitingNode waitingExecution nodeName) with
      | [] => .throw .typeError
      | (key, entry) :: _ =>
        match entry.data.get? .main with
        | none => .throw .typeError
        | some main =>
          if !hasRequiredInputs ctx workflow checkNode main then .skip
          else if hasItems main then
            .take key (some (promotedEntry ctx workflow checkNode nodeName main entry))
          else .take key none

/-- The first waiting node that something is done about. -/
def lookThrough (waitingExecution : IWaitingForExecution V) :
    List String → Option (String × Look P V)
  | [] => none
  | nodeName :: rest =>
    match lookAt ctx workflow waitingExecution nodeName with
    | .skip => lookThrough waitingExecution rest
    | look => some (nodeName, look)

/-- Waiting nodes are looked through until an entry goes to the stack, from
    the beginning whenever an entry without items was taken out. -/
def promote : Nat → IRunExecutionData P V → IRunExecutionData P V × Option EngineError
  | 0, s => (s, none)
  | fuel + 1, s =>
    match lookThrough ctx workflow s.waitingExecution s.waitingExecution.keys with
    | some (nodeName, .take key executionData) =>
      let taken := { s with
        waitingExecution := setWaiting s.waitingExecution nodeName
          ((waitingNode s.waitingExecution nodeName).delete key) }
      match executionData with
      | none => promote fuel taken
      | some executionData =>
        ({ taken with
           nodeExecutionStack :=
             s.nodeExecutionStack ++ [executionData] }, none)
    | some (_, .throw error) => (s, some error)
    | some (_, .skip) | none => (s, none)

end

/-- The weight of the entries that wait, by the node they wait for. -/
def weighWaiting (weight : String → Nat) (waitingExecution : IWaitingForExecution V) : Nat :=
  (waitingExecution.entries.map fun p => p.2.size * weight p.1).sum

/-! ## The loop -/

inductive Ending where
  | canceled
  | failed
  | waiting
  | thrown (error : EngineError)

/-- The entry in hand, with what its tries have come to so far. -/
structure Running (P V : Type) where
  node : INode P
  executionData : IExecuteData P V
  runIndex : Nat
  tryIndex : Nat
  executionError : Option String
  nodeSuccessData : Option (Outputs V)
deriving DecidableEq

/-- Where the loop is: at its head, at a try of a node, or before the look
    through the waiting nodes. -/
inductive Phase (P V : Type) where
  | head
  | running (r : Running P V)
  | promoting
deriving DecidableEq

structure MainLoop (P V : Type) where
  workflow : Workflow P
  state : IRunExecutionData P V
  lastExecutionTry : Option (String × Nat)
  waitTill : Bool
  phase : Phase P V
  ended : Option Ending

namespace MainLoop

/-- The loop as it is entered. -/
def start (workflow : Workflow P) (state : IRunExecutionData P V) : MainLoop P V :=
  { workflow, state, lastExecutionTry := none, waitTill := false
    phase := .head, ended := none }

def throw (l : MainLoop P V) (error : EngineError) : MainLoop P V :=
  { l with ended := some (.thrown error) }

def setStack (l : MainLoop P V) (stack : List (IExecuteData P V)) : MainLoop P V :=
  { l with state := { l.state with nodeExecutionStack := stack } }

/-- `runIndex`: the one of the entry, or the number of runs. -/
def runIndexOf (l : MainLoop P V) (node : INode P) (executionData : IExecuteData P V) : Nat :=
  executionData.runIndex.getD ((l.state.runData.get? node.name).getD []).length

end MainLoop

def isFilteredOut (ctx : Context P) (node : INode P) : Bool :=
  match ctx.runNodeFilter with
  | none => false
  | some names => node.name ∉ names

section

variable (ctx : Context P)

/-- An entry of a node, taken from the stack. -/
def takeEntry (l : MainLoop P V) (node : INode P)
    (executionData : IExecuteData P V) : MainLoop P V :=
  let executionData :=
    { executionData with data := updatePairedItems executionData }
  let runIndex := l.runIndexOf node executionData
  if l.lastExecutionTry = some (node.name, runIndex) then
    l.throw (.applicationError "Stopped execution because it seems to be in an endless loop")
  else if isFilteredOut ctx node then l
  else
    match ensureInputData l.workflow node.name executionData with
    | .error error => l.throw error
    | .ok false =>
      { l.setStack (l.state.nodeExecutionStack ++ [executionData]) with
        lastExecutionTry := some (node.name, runIndex) }
    | .ok true =>
      { l with
        phase := .running
          { node, executionData, runIndex, tryIndex := 0
            executionError := none, nodeSuccessData := none } }

/-- The beginning of an iteration. -/
def take (l : MainLoop P V) : MainLoop P V :=
  match l.state.nodeExecutionStack with
  | [] => l
  | executionData :: rest =>
    let l := l.setStack rest
    match executionData.node with
    | none => l.throw .typeError
    | some node => takeEntry ctx l node executionData

/-- The node has run, with or without error. -/
def settleNode (l : MainLoop P V) (r : Running P V)
    (nodeSuccessData : Option (Outputs V)) : MainLoop P V :=
  match nodeSuccessData with
  | none => l.throw .typeError
  | some outputs =>
    if outputs.any (!·.present) then l.throw .typeError
    else
      let stored := { l with
        phase := .head
        state := { l.state with
          runData := storeTaskData r.node r.runIndex l.state.runData
            (successTaskData r.node r.runIndex l.state.runData
              outputs) } }
      if l.waitTill then
        { stored.setStack
            (r.executionData :: l.state.nodeExecutionStack) with
          ended := some .waiting }
      else if ctx.destinationNode = some r.node.name then stored
      else
        match addChildren stored.workflow r.node.name outputs r.runIndex stored.state with
        | (state, some error) => { stored with state }.throw error
        | (state, none) => { stored with state, phase := .promoting }

/-- The tries have all failed; if the node does not continue, its entry goes
    back to the stack. -/
def giveUp (l : MainLoop P V) (r : Running P V) (message : String) : MainLoop P V :=
  if (ctx.settings r.node).continues then
    settleNode ctx l r (passThrough r.executionData r.nodeSuccessData)
  else
    { l with
      state :=
        { l.state with
          runData := storeTaskData r.node r.runIndex l.state.runData
            (errorTaskData r.node r.runIndex l.state.runData message)
          nodeExecutionStack :=
            r.executionData :: l.state.nodeExecutionStack }
      ended := some .failed }

/-- A try that has thrown; there may be another. -/
def failTry (l : MainLoop P V) (r : Running P V) (message : String)
    (nodeSuccessData : Option (Outputs V)) : MainLoop P V :=
  { l with
    phase := .running
      { r with
        tryIndex := r.tryIndex + 1
        executionError := some message
        nodeSuccessData } }

/-- Whether a try that returned this throws, because the items that came in
    are read from `undefined`. -/
def lacksInput (r : Running P V) (nodeSuccessData : Option (Outputs V)) : Bool :=
  readsInput (ctx.settings r.node) nodeSuccessData && !r.executionData.data.has .main

/-- A try of the node.  A request that is thrown out has changed the
    workflow and the run data; `null` is not passed on, unless the execution
    waits. -/
def tryNode (l : MainLoop P V) (r : Running P V) :
    Try V → MainLoop P V
  | .request request =>
    let handled := handleEngineRequest l.workflow r.node request r.runIndex r.executionData l.state
    let l := { l with workflow := handled.workflow, state := handled.state }
    match handled.error with
    | none => { l with phase := .head }
    | some e => failTry l r (ctx.message e) r.nodeSuccessData
  | .data nodeSuccessData =>
    if lacksInput ctx r nodeSuccessData then
      failTry l r ctx.typeErrorMessage nodeSuccessData
    else
      match alwaysOutput (ctx.settings r.node) nodeSuccessData with
      | none =>
        if l.waitTill then l.throw .typeError
        else { l with phase := .head }
      | some outputs => settleNode ctx l r (some outputs)
  | .failed message nodeSuccessData => failTry l r message nodeSuccessData

/-- The end of an iteration. -/
def finish (l : MainLoop P V) : MainLoop P V :=
  if l.state.nodeExecutionStack = [] then
    match promote ctx l.workflow
        (weighWaiting (fun _ => 1) l.state.waitingExecution + 1) l.state with
    | (state, none) => { l with state, phase := .head }
    | (state, some error) => { l with state }.throw error
  else { l with phase := .head }

end

/-- In one try a node is run again while its first item is an error; it can
    make the execution wait while it runs. -/
inductive Event (V : Type) where
  | take
  | runTry (t : Try V) (again : Nat) (waitTill : Bool)
  | giveUp
  | finish
  | cancel

/-- At its head the loop goes on while there is something on the stack, and
    it can be canceled there. -/
def Enabled (ctx : Context P) (l : MainLoop P V) : Event V → Prop
  | .take | .cancel => l.ended = none ∧ l.phase = .head ∧ l.state.nodeExecutionStack ≠ []
  | .runTry _ again _ => l.ended = none
      ∧ ∃ r, l.phase = .running r ∧ r.tryIndex + again < (ctx.settings r.node).tries
  | .giveUp => l.ended = none ∧ ∃ r, l.phase = .running r ∧ (ctx.settings r.node).tries ≤ r.tryIndex
  | .finish => l.ended = none ∧ l.phase = .promoting

def next (ctx : Context P) (l : MainLoop P V) : Event V → MainLoop P V
  | .take => take ctx l
  | .runTry t again waitTill =>
    match l.phase with
    | .running r =>
      tryNode ctx { l with waitTill := l.waitTill || waitTill }
        { r with tryIndex := r.tryIndex + again } t
    | _ => l
  | .giveUp =>
    match l.phase with
    | .running r => giveUp ctx l r (r.executionError.getD "")
    | _ => l
  | .finish => finish ctx l
  | .cancel => { l with ended := some .canceled }

def Step (ctx : Context P) (l : MainLoop P V) (e : Event V) (l' : MainLoop P V) : Prop :=
  Enabled ctx l e ∧ l' = next ctx l e

/-! ## Waiting nodes that could run -/

section

variable (ctx : Context P)

/-- The entry has data wherever the node requires it. -/
def HasRequired (workflow : Workflow P) (node : INode P) (entry : WaitingEntry V) : Prop :=
  ∃ main, entry.data.get? .main = some main ∧ hasRequiredInputs ctx workflow node main = true

/-- What the loop asks of an entry to put it on the stack. -/
structure Promotable (workflow : Workflow P)
    (waitingExecution : IWaitingForExecution V) (nodeName : String)
    (node : INode P) (entry : WaitingEntry V) : Prop where
  exists_node : workflow.nodes.get? nodeName = some node
  not_allRequired : allRequired ctx workflow node = false
  no_parent : parentIsWaiting workflow waitingExecution.keys nodeName = false
  has_required : HasRequired ctx workflow node entry
  has_items : hasItems entry.main = true

/-- An entry that could run is left waiting. -/
def Stranded (workflow : Workflow P) (waitingExecution : IWaitingForExecution V) : Prop :=
  ∃ nodeName node key entry, (key, entry) ∈ (waitingNode waitingExecution nodeName).entries
      ∧ Promotable ctx workflow waitingExecution nodeName node entry

/-- The loop does not end for want of entries while one could run. -/
def NoneStranded (l : MainLoop P V) : Prop :=
  l.ended = none → l.phase = .head → l.waitTill = false →
    l.state.nodeExecutionStack = [] → ¬ Stranded ctx l.workflow l.state.waitingExecution

/-- Of the entries of a node, none that lacks a required input comes before
    one that could run. -/
def InOrder (workflow : Workflow P) (waitingExecution : IWaitingForExecution V) : Prop :=
  ∀ nodeName node, workflow.nodes.get? nodeName = some node →
    allRequired ctx workflow node = false → ∀ p ∈ (waitingNode waitingExecution nodeName).entries,
      HasRequired ctx workflow node p.2 → hasItems p.2.main = true →
      ∀ q ∈ (waitingNode waitingExecution nodeName).entries,
        toString q.1 ≤ toString p.1 → HasRequired ctx workflow node q.2

/-- The request brings the node back to the stack, or is ignored while
    nothing waits that could run. -/
def ComesBack (l : MainLoop P V) (r : Running P V) : Prop :=
  match resumeParent r.executionData with
  | none => ¬ Stranded ctx l.workflow l.state.waitingExecution
  | some _ => numberOfInputs l.workflow r.node.name ≤ 1

/-- The condition on a step.  The last entry on the stack leaves early only
    when nothing waits that could run, and an entry that could run is not
    behind one that could not when the waiting nodes are looked through. -/
def Looks (l : MainLoop P V) : Event V → Prop
  | .take => ∀ executionData node, l.state.nodeExecutionStack = [executionData] →
        executionData.node = some node → isFilteredOut ctx node = true →
          ¬ Stranded ctx l.workflow l.state.waitingExecution
  | .runTry (.request _) _ _ => l.state.nodeExecutionStack = [] →
      ∀ r, l.phase = .running r → ComesBack ctx l r
  | .runTry (.data nodeSuccessData) _ waitTill =>
    l.state.nodeExecutionStack = [] → ∀ r, l.phase = .running r →
      alwaysOutput (ctx.settings r.node) nodeSuccessData = none →
        (l.waitTill || waitTill) = false → ¬ Stranded ctx l.workflow l.state.waitingExecution
  | .finish => l.state.nodeExecutionStack = [] → InOrder ctx l.workflow l.state.waitingExecution
  | .runTry (.failed _ _) _ _ | .giveUp | .cancel => True

end

/-! ## The search for the highest nodes comes to an end -/

section

variable {workflow : Workflow P}

theorem getHighestNode_checks {fuel : Nat} {nodeName : String}
    {index : Option Nat} {checkedNodes : List String}
    {found : List String × List String}
    (h : getHighestNode workflow fuel nodeName index checkedNodes
      = .ok found) : checkedNodes ⊆ found.2 := by
  induction fuel generalizing nodeName index checkedNodes found with
  | zero =>
    cases h
    exact List.Subset.refl _
  | succ fuel ih =>
    rw [getHighestNode] at h
    rcases hnode : workflow.nodes.get? nodeName with _ | node
    · rw [hnode] at h
      cases h
    · simp only [hnode] at h
      rcases hinputs : mainInputs workflow nodeName with _ | inputs
      · rw [hinputs] at h
        cases h
        exact List.Subset.refl _
      · simp only [hinputs] at h
        split at h
        · cases h
          exact List.Subset.refl _
        · refine foldlM_preserves (I := fun b => checkedNodes ⊆ b.2) ?_ (subset_append_left ..) h
          intro b connection c hb hc
          split at hc
          · cases hc
            exact hb
          · split at hc
            · cases hc
              exact hb
            · obtain ⟨above, habove, hc⟩ := bind_eq_ok.mp hc
              have hmore := ih habove
              cases hc
              exact List.Subset.trans hb hmore

theorem unchecked_le_of_subset (connections : IConnections)
    {checkedNodes more : List String} (h : checkedNodes ⊆ more) :
    (unchecked connections more).length ≤ (unchecked connections checkedNodes).length := by
  rw [unchecked, unchecked, ← countP_eq_length_filter, ← countP_eq_length_filter]
  refine countP_mono_left fun name _ hname => ?_
  rw [decide_eq_true_eq] at hname ⊢
  exact fun hin => hname (h hin)

/-- **FUEL**: two searches with more fuel than there are nodes left to check
    find the same nodes. -/
theorem getHighestNode_fuel {fuel fuel' : Nat} (nodeName : String) (index : Option Nat)
    (checkedNodes : List String)
    (h : (unchecked workflow.connectionsByDestinationNode checkedNodes).length < fuel)
    (h' : (unchecked workflow.connectionsByDestinationNode checkedNodes).length < fuel') :
    getHighestNode workflow fuel nodeName index checkedNodes
      = getHighestNode workflow fuel' nodeName index checkedNodes := by
  induction fuel generalizing fuel' nodeName index checkedNodes with
  | zero => exact absurd h (Nat.not_lt_zero _)
  | succ fuel ih =>
    obtain ⟨more, rfl⟩ : ∃ more, fuel' = more + 1 := ⟨fuel' - 1, by omega⟩
    rw [getHighestNode, getHighestNode]
    rcases workflow.nodes.get? nodeName with _ | node
    · rfl
    · rcases hinputs : mainInputs workflow nodeName with _ | inputs
      · rfl
      · dsimp only
        by_cases hchecked : nodeName ∈ checkedNodes
        · rw [if_pos hchecked, if_pos hchecked]
        · rw [if_neg hchecked, if_neg hchecked]
          have hkey : nodeName ∈ workflow.connectionsByDestinationNode.keys := by
            obtain ⟨byType, hget, -⟩ := Option.bind_eq_some_iff.mp hinputs
            exact mem_keys_of_get? hget
          have hlt := unchecked_cons_lt hkey hchecked
          -- Every node on the way has been checked by then.
          refine foldlM_congr_of (I := fun b => nodeName :: checkedNodes ⊆ b.2) ?_ ?_ ?_ _
          · intro b connection c hb hc
            split at hc
            · cases hc
              exact hb
            · split at hc
              · cases hc
                exact hb
              · obtain ⟨above, habove, hc⟩ := bind_eq_ok.mp hc
                have hmore := getHighestNode_checks habove
                cases hc
                exact List.Subset.trans hb hmore
          · intro b connection hb
            have hle := unchecked_le_of_subset workflow.connectionsByDestinationNode hb
            by_cases hseen : connection.node ∈ b.2
            · rw [if_pos hseen, if_pos hseen]
            · rw [@ih more connection.node none b.2 (by omega) (by omega)]
          · intro name hname
            rcases mem_cons.mp hname with rfl | hname
            · exact mem_append_right _ (mem_singleton_self _)
            · exact mem_append_left _ hname

end

/-! ## Requests -/

section

variable (ctx : Context P)

/-- The workflow with tools marked: nothing that the waiting nodes are
    looked through with has changed. -/
structure Marked (workflow workflow' : Workflow P) : Prop where
  tables : workflow'.connectionsByDestinationNode = workflow.connectionsByDestinationNode
  order : workflow'.executionOrder = workflow.executionOrder
  described : ∀ name, (workflow'.nodes.get? name).map ctx.describe
    = (workflow.nodes.get? name).map ctx.describe

variable {ctx} {workflow workflow' : Workflow P}

theorem Marked.refl (ctx : Context P) (workflow : Workflow P) : Marked ctx workflow workflow :=
  ⟨rfl, rfl, fun _ => rfl⟩

theorem Marked.trans {workflow'' : Workflow P} (h : Marked ctx workflow workflow')
    (h' : Marked ctx workflow' workflow'') :
    Marked ctx workflow workflow'' :=
  ⟨h'.tables.trans h.tables, h'.order.trans h.order,
    fun name => (h'.described name).trans (h.described name)⟩

theorem marked_requestAction {node : INode P} {runIndex : Nat}
    {executionData : IExecuteData P V} {r r' : Requesting P V}
    {action : EngineAction V}
    (h : requestAction node executionData runIndex r action = .ok r') :
    Marked ctx r.workflow r'.workflow := by
  rw [requestAction] at h
  rcases hnode : r.workflow.nodes.get? action.nodeName with _ | tool
  · rw [hnode] at h
    cases h
  · rw [hnode] at h
    cases h
    refine ⟨rfl, rfl, fun name => ?_⟩
    show ((r.workflow.nodes.set action.nodeName _).get? name).map _ = _
    rw [get?_set]
    by_cases hname : action.nodeName = name
    · subst hname
      rw [if_pos rfl, hnode]
      rfl
    · rw [if_neg hname]

theorem marked_prepare {node : INode P} {runIndex : Nat}
    {executionData : IExecuteData P V} {actions : List (EngineAction V)}
    {r r' : Requesting P V}
    (h : prepareRequestedNodesForExecution node executionData runIndex
      actions r = (r', none)) : Marked ctx r.workflow r'.workflow := by
  induction actions generalizing r with
  | nil =>
    cases h
    exact Marked.refl ..
  | cons action rest ih =>
    rw [prepareRequestedNodesForExecution] at h
    rcases haction : requestAction node executionData runIndex r action with e | next
    · rw [haction] at h
      cases h
    · rw [haction] at h
      exact (marked_requestAction haction).trans (ih h)

theorem afterAdding_ne_nil (workflow : Workflow P) {s : IRunExecutionData P V} (added : Added P V)
    (h : s.nodeExecutionStack ≠ []) :
    (s.afterAdding workflow added).nodeExecutionStack ≠ [] := by
  show added.enqueued.foldl (enqueue workflow) s.nodeExecutionStack ≠ []
  induction added.enqueued generalizing s with
  | nil => exact h
  | cons x rest ih =>
    refine @ih { s with
      nodeExecutionStack := enqueue workflow s.nodeExecutionStack x } ?_
    show enqueue workflow s.nodeExecutionStack x ≠ []
    rw [enqueue]
    split
    · exact cons_ne_nil _ _
    · exact append_ne_nil_of_right_ne_nil _ (cons_ne_nil _ _)

theorem addAll_ne_nil {deliveries : List (Delivery V)}
    {s : IRunExecutionData P V} (h : s.nodeExecutionStack ≠ []) :
    (addAll workflow deliveries s).1.nodeExecutionStack ≠ [] := by
  induction deliveries generalizing s with
  | nil => exact h
  | cons d rest ih =>
    rw [addAll]
    have hadded := afterAdding_ne_nil workflow (addNodeToBeExecuted workflow s d) h
    rcases (addNodeToBeExecuted workflow s d).error with _ | e
    · exact ih hadded
    · exact hadded

section

variable {node : INode P} {request : EngineRequest V} {runIndex : Nat}
  {executionData : IExecuteData P V} {s : IRunExecutionData P V}

theorem handleEngineRequest_ne_nil (h : s.nodeExecutionStack ≠ []) :
    (handleEngineRequest workflow node request runIndex executionData
      s).state.nodeExecutionStack ≠ [] := by
  rw [handleEngineRequest]
  rcases handleRequest workflow node request runIndex executionData s.runData
    with ⟨requesting, _ | e⟩
  · exact addAll_ne_nil (s := { s with runData := requesting.runData }) h
  · exact h

/-- **IGNORED**: without the node the data came from, nothing is put on the
    stack or in the waiting table. -/
theorem handleEngineRequest_ignored (ctx : Context P) (hparent : resumeParent executionData = none)
    (herror : (handleEngineRequest workflow node request runIndex executionData s).error = none) :
    let handled := handleEngineRequest workflow node request runIndex executionData s
    Marked ctx workflow handled.workflow ∧ handled.state.waitingExecution = s.waitingExecution := by
  rw [handleEngineRequest, handleRequest] at herror ⊢
  rcases hprepare : prepareRequestedNodesForExecution node executionData runIndex request.actions
    { workflow, runData := s.runData, nodesToBeExecuted := [], actions := [] }
    with ⟨requesting, _ | e⟩
  · simp only [hparent]
    exact ⟨marked_prepare hprepare, rfl⟩
  · simp only [hprepare] at herror
    cases herror

/-- **RESUMED**: a node with one input is put on the stack again. -/
theorem handleEngineRequest_resumed (ctx : Context P)
    (hparent : (resumeParent executionData).isSome = true)
    (hinputs : numberOfInputs workflow node.name ≤ 1)
    (herror : (handleEngineRequest workflow node request runIndex executionData s).error = none) :
    (handleEngineRequest workflow node request runIndex executionData
      s).state.nodeExecutionStack ≠ [] := by
  obtain ⟨parent, hparent⟩ := Option.isSome_iff_exists.mp hparent
  rw [handleEngineRequest, handleRequest] at herror ⊢
  rcases hprepare : prepareRequestedNodesForExecution node executionData runIndex request.actions
    { workflow, runData := s.runData, nodesToBeExecuted := [], actions := [] }
    with ⟨requesting, _ | e⟩
  · simp only [hprepare, hparent] at herror ⊢
    rcases hmain : executionData.data.get? .main with _ | main
    · simp only [hmain] at herror
      cases herror
    · simp only [addAll]
      have hmarked : Marked ctx workflow requesting.workflow := marked_prepare hprepare
      have hdirect : ∀ d : Delivery V, d.connectionData.node = node.name →
          ¬ 1 < numberOfInputs requesting.workflow d.connectionData.node := by
        intro d hd
        rw [hd, numberOfInputs_congr hmarked.tables]
        exact Nat.not_lt.mpr hinputs
      rw [addNodeToBeExecuted, if_neg (hdirect _ rfl)]
      refine addAll_ne_nil ?_
      show enqueue requesting.workflow s.nodeExecutionStack _ ≠ []
      rw [enqueue]
      split
      · exact cons_ne_nil _ _
      · exact append_ne_nil_of_right_ne_nil _ (cons_ne_nil _ _)
  · simp only [hprepare] at herror
    cases herror

end

end

/-! ## Looking through the waiting nodes -/

section

variable (weight : String → Nat)
  (waitingExecution : IWaitingForExecution V) (nodeName : String) (waiting : WaitingNode V)

theorem weighWaiting_split :
    weighWaiting weight waitingExecution
      = (waitingNode waitingExecution nodeName).size * weight nodeName
        + weighWaiting weight (waitingExecution.delete nodeName) := by
  rcases hget : waitingExecution.get? nodeName with _ | waiting
  · rw [weighWaiting, weighWaiting, waitingNode, hget, Option.getD_none,
      delete_of_not_mem (get?_eq_none.mp hget)]
    show _ = 0 * _ + _
    rw [Nat.zero_mul, Nat.zero_add]
  · have hperm := entries_of_get? hget
    rw [weighWaiting, waitingNode, hget, Option.getD_some,
      (hperm.map _).sum_nat, map_cons, sum_cons]
    rfl

theorem weighWaiting_set :
    weighWaiting weight (waitingExecution.set nodeName waiting)
      = waiting.size * weight nodeName
        + weighWaiting weight (waitingExecution.delete nodeName) := by
  have hperm := entries_set waitingExecution nodeName waiting
  rw [weighWaiting, (hperm.map _).sum_nat, map_cons, sum_cons]
  rfl

theorem weighWaiting_setWaiting :
    weighWaiting weight (setWaiting waitingExecution nodeName waiting)
      = waiting.size * weight nodeName
        + weighWaiting weight (waitingExecution.delete nodeName) := by
  rw [setWaiting]
  by_cases h : waiting.entries = []
  · rw [if_pos h, OrderedMap.size, h, length_nil, Nat.zero_mul, Nat.zero_add]
  · rw [if_neg h, weighWaiting_set]

end

theorem get?_setWaiting (waitingExecution : IWaitingForExecution V)
    (nodeName other : String) (waiting : WaitingNode V) :
    waitingNode (setWaiting waitingExecution nodeName waiting) other
      = if nodeName = other then waiting
        else waitingNode waitingExecution other := by
  rw [setWaiting, waitingNode]
  by_cases hname : nodeName = other
  · subst hname
    rw [if_pos rfl]
    by_cases h : waiting.entries = []
    · rw [if_pos h, get?_delete, if_pos rfl, Option.getD_none,
        OrderedMap.empty, OrderedMap.mk.injEq]
      exact h.symm
    · rw [if_neg h, get?_set, if_pos rfl, Option.getD_some]
  · rw [if_neg hname]
    by_cases h : waiting.entries = []
    · rw [if_pos h, get?_delete, if_neg (Ne.symm hname), waitingNode]
    · rw [if_neg h, get?_set, if_neg hname, waitingNode]

section

variable {ctx : Context P} {workflow : Workflow P}
  {waitingExecution : IWaitingForExecution V} {nodeName : String}
  {key : Nat} {entry : WaitingEntry V} {p : Nat × WaitingEntry V}

theorem mem_byText {waiting : WaitingNode V} : p ∈ byText waiting ↔ p ∈ waiting.entries :=
  (perm_insertionSort _ _).mem_iff

theorem byText_head {waiting : WaitingNode V} {q : Nat × WaitingEntry V}
    {rest : List (Nat × WaitingEntry V)} (h : byText waiting = q :: rest)
    (hp : p ∈ waiting.entries) :
    toString q.1 ≤ toString p.1 := by
  have hsorted := pairwise_insertionSort
    (fun a b : Nat × WaitingEntry V => toString a.1 ≤ toString b.1) waiting.entries
  rw [← byText, h] at hsorted
  rcases mem_cons.mp (h ▸ mem_byText.mpr hp) with rfl | hrest
  · exact String.le_refl (toString p.1)
  · exact (pairwise_cons.mp hsorted).1 p hrest

/-- **NOTHING IN THE WAY**: a node with an entry that could run is not
    skipped if no entry without its required inputs comes first. -/
theorem lookAt_ne_skip (horder : InOrder ctx workflow waitingExecution) {node : INode P}
    (hmem : (key, entry) ∈ (waitingNode waitingExecution nodeName).entries)
    (h : Promotable ctx workflow waitingExecution nodeName node entry) :
    lookAt ctx workflow waitingExecution nodeName ≠ .skip := by
  rw [lookAt, h.exists_node]
  simp only [h.not_allRequired, h.no_parent, Bool.false_eq_true, if_false]
  rcases hfirst : byText (waitingNode waitingExecution nodeName)
    with _ | ⟨⟨first, firstEntry⟩, rest⟩
  · have := mem_byText.mpr hmem
    rw [hfirst] at this
    cases this
  · have hin : (first, firstEntry) ∈ (waitingNode waitingExecution nodeName).entries := by
      refine mem_byText.mp ?_
      rw [hfirst]
      exact mem_cons_self ..
    obtain ⟨main, hmain, hhas⟩ := horder nodeName node h.exists_node
      h.not_allRequired (key, entry) hmem h.has_required h.has_items
      (first, firstEntry) hin (byText_head hfirst hmem)
    simp only [hmain, hhas, Bool.not_true, Bool.false_eq_true, if_false]
    split <;> exact fun hskip => by cases hskip

theorem lookThrough_none {names : List String}
    (h : lookThrough ctx workflow waitingExecution names = none) :
    ∀ name ∈ names, lookAt ctx workflow waitingExecution name = .skip := by
  induction names with
  | nil => exact fun name hname => by cases hname
  | cons first rest ih =>
    rw [lookThrough] at h
    rcases hlook : lookAt ctx workflow waitingExecution first with _ | ⟨key, x⟩ | e
    · rw [hlook] at h
      exact forall_mem_cons.mpr ⟨hlook, ih h⟩
    · rw [hlook] at h
      cases h
    · rw [hlook] at h
      cases h

theorem lookThrough_some {names : List String} {look : Look P V}
    (h : lookThrough ctx workflow waitingExecution names = some (nodeName, look)) :
    nodeName ∈ names ∧ look ≠ .skip ∧ lookAt ctx workflow waitingExecution nodeName = look := by
  induction names with
  | nil => cases h
  | cons first rest ih =>
    rw [lookThrough] at h
    rcases hlook : lookAt ctx workflow waitingExecution first with _ | ⟨key, x⟩ | e
    · rw [hlook] at h
      obtain ⟨hmem, hfound⟩ := ih h
      exact ⟨mem_cons_of_mem _ hmem, hfound⟩
    · rw [hlook] at h
      cases h
      exact ⟨mem_cons_self .., (fun hskip => by cases hskip), hlook⟩
    · rw [hlook] at h
      cases h
      exact ⟨mem_cons_self .., (fun hskip => by cases hskip), hlook⟩

/-- **WHAT IS TAKEN**: an entry of a node of the workflow. -/
theorem lookAt_take {x : Option (IExecuteData P V)}
    (h : lookAt ctx workflow waitingExecution nodeName = .take key x) :
    ∃ node entry main, workflow.nodes.get? nodeName = some node
        ∧ (key, entry) ∈ (waitingNode waitingExecution nodeName).entries
        ∧ ∀ y, x = some y → y = promotedEntry ctx workflow node nodeName main entry := by
  rw [lookAt] at h
  rcases hnode : workflow.nodes.get? nodeName with _ | node
  · rw [hnode] at h
    cases h
  · simp only [hnode] at h
    split at h
    · cases h
    · split at h
      · cases h
      · rcases hfirst : byText (waitingNode waitingExecution nodeName)
          with _ | ⟨⟨first, entry⟩, rest⟩
        · simp only [hfirst] at h
          cases h
        · have hmem : (first, entry) ∈ (waitingNode waitingExecution nodeName).entries := by
            refine mem_byText.mp ?_
            rw [hfirst]
            exact mem_cons_self ..
          rcases hmain : entry.data.get? .main with _ | main
          · simp only [hfirst, hmain] at h
            cases h
          · simp only [hfirst, hmain] at h
            split at h
            · cases h
            · split at h
              · cases h
                refine ⟨node, entry, main, rfl, hmem, fun y hy => ?_⟩
                exact (Option.some.inj hy).symm
              · cases h
                exact ⟨node, entry, main, rfl, hmem, fun y hy => by cases hy⟩

theorem mem_keys_of_waiting (hmem : p ∈ (waitingNode waitingExecution nodeName).entries) :
    nodeName ∈ waitingExecution.keys := by
  rcases hget : waitingExecution.get? nodeName with _ | waiting
  · rw [waitingNode, hget] at hmem
    cases hmem
  · exact mem_keys_of_get? hget

theorem InOrder.taken (h : InOrder ctx workflow waitingExecution) :
    InOrder ctx workflow (setWaiting waitingExecution nodeName
      ((waitingNode waitingExecution nodeName).delete key)) := by
  have hsub : ∀ name, ∀ p ∈ (waitingNode (setWaiting waitingExecution
      nodeName ((waitingNode waitingExecution nodeName).delete key))
        name).entries, p ∈ (waitingNode waitingExecution name).entries := by
    intro name p hp
    rw [get?_setWaiting] at hp
    by_cases hname : nodeName = name
    · subst hname
      rw [if_pos rfl] at hp
      exact (mem_dropKey.mp hp).1
    · rwa [if_neg hname] at hp
  intro name node hnode hall p hp hrequired hitems q hq hle
  exact h name node hnode hall p (hsub name p hp) hrequired hitems q (hsub name q hq) hle

theorem weighWaiting_taken (weight : String → Nat)
    (hmem : (key, entry) ∈ (waitingNode waitingExecution nodeName).entries) :
    weighWaiting weight (setWaiting waitingExecution nodeName
        ((waitingNode waitingExecution nodeName).delete key))
      + weight nodeName = weighWaiting weight waitingExecution := by
  have hsize := size_delete_of_mem (get?_eq_some.mpr hmem)
  rw [weighWaiting_setWaiting, weighWaiting_split weight waitingExecution
    nodeName, ← hsize, Nat.add_mul, Nat.one_mul]
  omega

end

/-! ## Steps -/

section

variable {ctx : Context P} {workflow : Workflow P}

theorem Stranded.of_marked {workflow' : Workflow P} {waitingExecution : IWaitingForExecution V}
    (hmarked : Marked ctx workflow workflow') (h : Stranded ctx workflow' waitingExecution) :
    Stranded ctx workflow waitingExecution := by
  obtain ⟨nodeName, node', key, entry, hmem, h⟩ := h
  have hlegacy : isLegacyExecutionOrder workflow' = isLegacyExecutionOrder workflow := by
    rw [isLegacyExecutionOrder, isLegacyExecutionOrder, hmarked.order]
  have hdescribed := hmarked.described nodeName
  rw [h.exists_node, Option.map_some] at hdescribed
  obtain ⟨node, hnode, hsame⟩ := Option.map_eq_some_iff.mp hdescribed.symm
  have hrequired : requiredInputs ctx workflow' node' = requiredInputs ctx workflow node := by
    rw [requiredInputs, requiredInputs, hlegacy, hsame]
  have hparents : getParentNodes workflow' nodeName = getParentNodes workflow nodeName := by
    rw [getParentNodes, getParentNodes, hmarked.tables]
  refine ⟨nodeName, node, key, entry, hmem, hnode, ?_, ?_, ?_, h.has_items⟩
  · rw [← h.not_allRequired, allRequired, allRequired, hrequired, hsame]
  · rw [← h.no_parent, parentIsWaiting, parentIsWaiting, hparents]
  · obtain ⟨main, hmain, hhas⟩ := h.has_required
    refine ⟨main, hmain, ?_⟩
    rw [← hhas, hasRequiredInputs, hasRequiredInputs, hrequired]

/-- **THE LOOK**: with the entries in order, an entry goes to the stack, or
    none is left that could run. -/
theorem promote_leaves_none {fuel : Nat} {s s' : IRunExecutionData P V}
    (horder : InOrder ctx workflow s.waitingExecution)
    (hfuel : weighWaiting (fun _ => 1) s.waitingExecution < fuel)
    (h : promote ctx workflow fuel s = (s', none)) (hstack : s'.nodeExecutionStack = []) :
    ¬ Stranded ctx workflow s'.waitingExecution := by
  induction fuel generalizing s with
  | zero => exact absurd hfuel (Nat.not_lt_zero _)
  | succ fuel ih =>
    rw [promote] at h
    rcases hlook : lookThrough ctx workflow s.waitingExecution
        s.waitingExecution.keys with _ | ⟨nodeName, look⟩
    · rw [hlook] at h
      cases h
      rintro ⟨nodeName, node, key, entry, hmem, hcould⟩
      exact lookAt_ne_skip horder hmem hcould
        (lookThrough_none hlook nodeName (mem_keys_of_waiting hmem))
    · obtain ⟨-, hne, hat⟩ := lookThrough_some hlook
      rw [hlook] at h
      rcases look with _ | ⟨key, x⟩ | e
      · exact absurd rfl hne
      · obtain ⟨node, entry, main, -, hmem, -⟩ := lookAt_take hat
        rcases x with _ | x
        · refine ih horder.taken ?_ h
          have := weighWaiting_taken (fun _ => 1) hmem
          show weighWaiting _ (setWaiting _ _ _) < fuel
          omega
        · cases h
          exact absurd hstack (append_ne_nil_of_right_ne_nil _ (cons_ne_nil _ _))
      · cases h

variable {l : MainLoop P V}

theorem noneStranded_of_ended (h : l.ended ≠ none) :
    NoneStranded ctx l := fun hended => absurd hended h

theorem noneStranded_of_phase (h : l.phase ≠ .head) :
    NoneStranded ctx l := fun _ hphase => absurd hphase h

theorem noneStranded_of_stack (h : l.state.nodeExecutionStack ≠ []) : NoneStranded ctx l :=
  fun _ _ _ hstack => absurd hstack h

theorem noneStranded_throw (l : MainLoop P V) (error : EngineError) :
    NoneStranded ctx (l.throw error) :=
  noneStranded_of_ended (Option.some_ne_none _)

theorem noneStranded_settleNode (hdest : ctx.destinationNode = none) (l : MainLoop P V)
    (r : Running P V) (nodeSuccessData : Option (Outputs V)) :
    NoneStranded ctx (settleNode ctx l r nodeSuccessData) := by
  unfold settleNode
  split
  · exact noneStranded_throw _ _
  · split
    · exact noneStranded_throw _ _
    · simp only [hdest, reduceCtorEq, if_false]
      split
      · exact noneStranded_of_ended (Option.some_ne_none _)
      · split
        · exact noneStranded_throw _ _
        · exact noneStranded_of_phase (fun h => by cases h)

theorem noneStranded_failTry (l : MainLoop P V) (r : Running P V)
    (message : String) (nodeSuccessData : Option (Outputs V)) :
    NoneStranded ctx (failTry l r message nodeSuccessData) :=
  noneStranded_of_phase (fun h => by cases h)

theorem noneStranded_take (hlooks : Looks ctx l .take) (hstack : l.state.nodeExecutionStack ≠ []) :
    NoneStranded ctx (take ctx l) := by
  rw [take]
  rcases hentries : l.state.nodeExecutionStack with _ | ⟨x, rest⟩
  · exact absurd hentries hstack
  · rcases hnode : x.node with _ | node
    · simp only [hnode]
      exact noneStranded_throw _ _
    · simp only [hnode]
      rw [takeEntry]
      split
      · exact noneStranded_throw _ _
      · split
        · rename_i hfilter
          intro _ _ _ hrest
          rw [show rest = [] from hrest] at hentries
          exact hlooks x node hentries hnode hfilter
        · split
          · exact noneStranded_throw _ _
          · exact noneStranded_of_stack (append_ne_nil_of_right_ne_nil _ (cons_ne_nil _ _))
          · exact noneStranded_of_phase (fun h => by cases h)

theorem noneStranded_request {r : Running P V} {request : EngineRequest V}
    (hlooks : l.state.nodeExecutionStack = [] → ComesBack ctx l r) :
    NoneStranded ctx (tryNode ctx l r (.request request)) := by
  rw [tryNode]
  rcases herror : (handleEngineRequest l.workflow r.node request r.runIndex
    r.executionData l.state).error with _ | e
  · intro _ _ _ hafter
    have hbefore : l.state.nodeExecutionStack = [] := by
      by_contra hne
      exact handleEngineRequest_ne_nil hne hafter
    have hback := hlooks hbefore
    rw [ComesBack] at hback
    rcases hparent : resumeParent r.executionData with _ | parent
    · simp only [hparent] at hback
      obtain ⟨hmarked, hsame⟩ := handleEngineRequest_ignored ctx hparent herror
      rintro hstranded
      rw [show _ = _ from hsame] at hstranded
      exact hback (hstranded.of_marked hmarked)
    · simp only [hparent] at hback
      refine absurd hafter (handleEngineRequest_resumed ctx ?_ hback herror)
      rw [hparent]
      rfl
  · exact noneStranded_failTry _ _ _ _

theorem noneStranded_data (hdest : ctx.destinationNode = none) {r : Running P V}
    {nodeSuccessData : Option (Outputs V)}
    (hlooks : l.state.nodeExecutionStack = [] →
      alwaysOutput (ctx.settings r.node) nodeSuccessData = none → l.waitTill = false →
          ¬ Stranded ctx l.workflow l.state.waitingExecution) :
    NoneStranded ctx (tryNode ctx l r (.data nodeSuccessData)) := by
  rw [tryNode]
  split
  · exact noneStranded_failTry _ _ _ _
  · split
    · rename_i hnone
      split
      · exact noneStranded_throw _ _
      · intro _ _ hwait hstack
        exact hlooks hstack hnone hwait
    · exact noneStranded_settleNode hdest _ _ _

theorem noneStranded_giveUp (hdest : ctx.destinationNode = none)
    (l : MainLoop P V) (r : Running P V) (message : String) :
    NoneStranded ctx (giveUp ctx l r message) := by
  rw [giveUp]
  split
  · exact noneStranded_settleNode hdest _ _ _
  · exact noneStranded_of_ended (Option.some_ne_none _)

theorem noneStranded_finish (hlooks : l.state.nodeExecutionStack = [] →
      InOrder ctx l.workflow l.state.waitingExecution) :
    NoneStranded ctx (finish ctx l) := by
  rw [finish]
  split
  · rename_i hstack
    rcases hpromote : promote ctx l.workflow
        (weighWaiting (fun _ => 1) l.state.waitingExecution + 1) l.state with ⟨state, _ | e⟩
    · intro _ _ _ hafter
      exact promote_leaves_none (hlooks hstack) (Nat.lt_succ_self _) hpromote hafter
    · exact noneStranded_throw _ _
  · rename_i hstack
    exact noneStranded_of_stack hstack

/-- **ONE STEP**: a step that meets the condition leaves no entry behind
    that could run. -/
theorem noneStranded_next (hdest : ctx.destinationNode = none)
    {l' : MainLoop P V} {e : Event V} (hstep : Step ctx l e l')
    (hlooks : Looks ctx l e) : NoneStranded ctx l' := by
  obtain ⟨henabled, rfl⟩ := hstep
  cases e with
  | take => exact noneStranded_take hlooks henabled.2.2
  | runTry t again waitTill =>
    obtain ⟨-, r, hphase, -⟩ := henabled
    rw [next, hphase]
    cases t with
    | request request => exact noneStranded_request fun hstack => hlooks hstack r hphase
    | data nodeSuccessData =>
      exact noneStranded_data hdest fun hstack =>
        hlooks hstack r hphase
    | failed message nodeSuccessData => exact noneStranded_failTry _ _ _ _
  | giveUp =>
    obtain ⟨-, r, hphase, -⟩ := henabled
    rw [next, hphase]
    exact noneStranded_giveUp hdest _ _ _
  | finish => exact noneStranded_finish hlooks
  | cancel => exact noneStranded_of_ended (Option.some_ne_none _)

end

/-- **NO RUNNABLE NODE IS STRANDED** where the waiting nodes are looked
    through whenever the stack runs out, and nothing is in the way then. -/
theorem noneStranded_of_looks (ctx : Context P) (hdest : ctx.destinationNode = none)
    (workflow : Workflow P) (state : IRunExecutionData P V)
    (hstart : state.nodeExecutionStack = [] → ¬ Stranded ctx workflow state.waitingExecution)
    {path : List (Event V × MainLoop P V)}
    (hrun : IsRun (Step ctx) (.start workflow state) path)
    (hlooks : EveryStep (Looks ctx) (.start workflow state) path) :
    EveryState (NoneStranded ctx) (.start workflow state) path :=
  everyState_of_everyStep hrun (fun _ _ _ hstack => hstart hstack)
    (fun _ _ _ _ hstep hlook => noneStranded_next hdest hstep hlook) hlooks

/-! ## Two nodes before a merge node -/

theorem inOrder_of_one_each {ctx : Context P} {workflow : Workflow P}
    {waitingExecution : IWaitingForExecution V}
    (h : ∀ p ∈ waitingExecution.entries, p.2.entries.length ≤ 1) :
    InOrder ctx workflow waitingExecution := by
  intro nodeName node _ _ p hp hrequired _ q hq _
  rcases hget : waitingExecution.get? nodeName with _ | waiting
  · rw [waitingNode, hget] at hp
    cases hp
  · have hlength := h _ (mem_of_findKey hget)
    rw [waitingNode, hget, Option.getD_some] at hp hq
    rcases hentries : waiting.entries with _ | ⟨first, _ | ⟨second, rest⟩⟩
    · rw [hentries] at hp
      cases hp
    · rw [hentries] at hp hq
      rw [mem_singleton.mp hq, ← mem_singleton.mp hp]
      exact hrequired
    · rw [hentries] at hlength
      simp at hlength

section

open N8nPartialExecution

/-- A merge node has two inputs and requires data at one of them. -/
def mergeContext : Context Unit :=
  { settings := fun _ =>
      { retryOnFail := false, maxTries := 0, alwaysOutputData := false
        continueOnFail := false, onError := none }
    description := fun type _ _ =>
      if type = "Merge" then ⟨2, some (.amount 1)⟩ else ⟨1, none⟩
    runNodeFilter := none
    destinationNode := none
    typeErrorMessage := "" }

def itemFor (nodeName : String) : IExecuteData Unit Unit :=
  { node := some (plainNode nodeName)
    data := mainOnly oneItem
    source := none
    runIndex := none
    metadata := none }

/-- Both nodes before the merge node are on the stack. -/
def bothOnStack : MainLoop Unit Unit :=
  .start (intoMerge ["First", "Second"])
    { runData := .empty
      nodeExecutionStack := [itemFor "First", itemFor "Second"]
      waitingExecution := .empty }

/-- The first node has an item for the merge node, the second returns
    this. -/
def mergePath (second : Option (Outputs Unit)) : List (Event Unit × MainLoop Unit Unit) :=
  pathOf (next mergeContext) bothOnStack
    [.take, .runTry (.data (some oneItem)) 0 false, .finish, .take, .runTry (.data second) 0 false]

theorem isRun_mergePath (second : Option (Outputs Unit)) :
    IsRun (Step mergeContext) bothOnStack (mergePath second) :=
  ⟨⟨⟨rfl, rfl, cons_ne_nil _ _⟩, rfl⟩, ⟨⟨rfl, _, rfl, Nat.one_pos⟩, rfl⟩, ⟨⟨rfl, rfl⟩, rfl⟩,
    ⟨⟨rfl, rfl, cons_ne_nil _ _⟩, rfl⟩, ⟨⟨rfl, _, rfl, Nat.one_pos⟩, rfl⟩, trivial⟩

/-- An output without items brings the loop to the merge node. -/
theorem noneStranded_empty_output :
    EveryState (NoneStranded mergeContext) bothOnStack
      (mergePath (some [.value []])
        ++ [(.finish, finish mergeContext
          (lastState bothOnStack (mergePath (some [.value []]))))]) := by
  refine noneStranded_of_looks mergeContext rfl _ _ (fun h => by cases h) ?_ ?_
  · exact ⟨⟨⟨rfl, rfl, cons_ne_nil _ _⟩, rfl⟩,
      ⟨⟨rfl, _, rfl, Nat.one_pos⟩, rfl⟩, ⟨⟨rfl, rfl⟩, rfl⟩, ⟨⟨rfl, rfl, cons_ne_nil _ _⟩, rfl⟩,
      ⟨⟨rfl, _, rfl, Nat.one_pos⟩, rfl⟩, ⟨⟨rfl, rfl⟩, rfl⟩, trivial⟩
  · refine ⟨?_, ?_, ?_, ?_, ?_, ?_, trivial⟩
    · intro _ _ hone
      cases hone
    · intro hnil
      cases hnil
    · intro hnil
      cases hnil
    · intro _ _ _ _ hfiltered
      cases hfiltered
    · intro _ r hphase hnone
      cases hphase
      cases hnone
    · intro _
      exact inOrder_of_one_each (by decide)

/-- **`null` STRANDS THE MERGE NODE**: it has an item, requires no more, and
    the loop has ended. -/
theorem null_strands_merge :
    IsRun (Step mergeContext) bothOnStack (mergePath none)
      ∧ ¬ EveryState (NoneStranded mergeContext) bothOnStack (mergePath none) := by
  refine ⟨isRun_mergePath none, fun h => ?_⟩
  refine h.last rfl rfl rfl rfl
    ⟨"Merge", plainNode "Merge", 0, _, mem_cons_self .., rfl, ?_, ?_, ⟨_, rfl, ?_⟩, ?_⟩ <;> decide

end

end N8nMainLoop
