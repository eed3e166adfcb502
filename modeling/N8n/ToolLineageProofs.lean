import N8n.MainLoopProofs

/-! # Tool lineage — the source an item of a tool is traced back to

    The item a tool runs on carries a `sourceOverwrite`, and the metadata of
    its entry a `preservedSourceOverwrite`.  On the first run of the agent
    the former names what fed the main input of the agent.  The latter is
    the one the agent has itself, when it runs as the tool of another agent,
    and else the same.

    At the start of the run every item is paired anew.  The one in the
    metadata is what the item is traced back to from then on
    (`lineage_kept`); so the tools of a nested agent are traced back to what
    fed the outer one (`not_keepsLineage_nested`). -/

namespace N8nToolLineage

open N8nOrderedMap N8nWorkflow N8nWorkflowExecute N8nEngineRequest N8nMainLoop

variable {P V : Type}

/-! ## What an entry is traced back to -/

/-- `main[0][0]`. -/
def firstItem (data : ITaskDataConnections V) : Option (INodeExecutionData V) :=
  match slotAt ((data.get? .main).getD []) 0 with
  | .value items => items.head?
  | _ => none

/-- `pairedItem.sourceOverwrite` of the item. -/
def overwriteOf (data : ITaskDataConnections V) : Option ISourceData :=
  ((firstItem data).bind (·.pairedItem)).bind (·.sourceOverwrite)

/-- `pairedItem.item` of the item. -/
def pairedIndexOf (data : ITaskDataConnections V) : Option Nat :=
  ((firstItem data).bind (·.pairedItem)).map (·.item)

def preservedOf (executionData : IExecuteData P V) : Option ISourceData :=
  executionData.metadata.bind (·.preservedSourceOverwrite)

/-- The node, output and run that fed the main input of a node. -/
def fedBy (executionData : IExecuteData P V) : Option ISourceData :=
  (sourceAt executionData 0).map fun sourceData =>
    { previousNode := sourceData.previousNode
      previousNodeOutput := some (sourceData.previousNodeOutput.getD 0)
      previousNodeRun := some (sourceData.previousNodeRun.getD 0) }

/-- What one would expect of the entry of an action: all of it leads to what
    fed the node that asks, and it stays so when the items are paired
    anew. -/
structure KeepsLineage (executionData : IExecuteData P V)
    (action : EngineAction V) (x : IExecuteData P V) : Prop where
  sourceOverwrite : overwriteOf x.data = fedBy executionData
  preservedSourceOverwrite : preservedOf x = fedBy executionData
  pairedIndex : pairedIndexOf x.data = some (action.itemIndex.getD 0)
  survives : overwriteOf (updatePairedItems x) = overwriteOf x.data

/-- What the entry of an action has: the metadata keeps the source of an
    outer agent, and else that of the item, which names what fed the node on
    its first run; the item is traced back to it when the tool runs. -/
structure Traced (ctx : Context P) (executionData : IExecuteData P V)
    (runIndex : Nat) (x : IExecuteData P V) : Prop where
  fed : runIndex = 0 → ∃ overwrite, fedBy executionData = some overwrite
    ∧ overwriteOf x.data = some overwrite
  preserved : preservedOf x = (preservedOf executionData).or (overwriteOf x.data)
  survives : ∀ (l : MainLoop P V) (r : Running P V),
    l.state.nodeExecutionStack.head? = some x → l.phase = .head →
      (take ctx l).phase = .running r → overwriteOf r.executionData.data = preservedOf x
          ∧ r.executionData.metadata = x.metadata

/-! ## The entry of an action -/

section

variable (currentNode : INode P) (executionData : IExecuteData P V) (runIndex : Nat)

def toolDelivery (newRunIndex : Nat) (action : EngineAction V) : Delivery V :=
  { connectionData :=
      { node := action.nodeName, type := action.type, index := 0 }
    outputIndex := 0
    parentNodeName := currentNode.name
    nodeSuccessData := some (toolInput currentNode executionData runIndex action)
    runIndex
    newRunIndex := some newRunIndex
    metadata := some
      { nodeWasResumed := false
        subNodeExecutionData := none
        preserveSourceOverwrite := true
        preservedSourceOverwrite := some <|
          (executionData.metadata.bind (·.preservedSourceOverwrite)).getD
            (sourceOverwrite currentNode executionData runIndex) } }

/-- The delivery is for this action. -/
def IsFor (action : EngineAction V) (d : Delivery V) : Prop :=
  ∃ newRunIndex, d = toolDelivery currentNode executionData runIndex newRunIndex action

variable {currentNode} {executionData} {runIndex}

theorem requestAction_delivers {r r' : Requesting P V} {action : EngineAction V}
    (h : requestAction currentNode executionData runIndex r action = .ok r') :
    r'.workflow.connectionsByDestinationNode
        = r.workflow.connectionsByDestinationNode
      ∧ ∃ d, r'.nodesToBeExecuted = r.nodesToBeExecuted ++ [d]
        ∧ IsFor currentNode executionData runIndex action d := by
  rw [requestAction] at h
  rcases hnode : r.workflow.nodes.get? action.nodeName with _ | node <;>
    rw [hnode] at h <;> cases h
  exact ⟨rfl, _, rfl, _, rfl⟩

/-- **LOOP**: the deliveries are for the actions, in their order. -/
theorem loop_delivers {done rest : List (EngineAction V)} {r r' : Requesting P V}
    (hdone : List.Forall₂ (IsFor currentNode executionData runIndex) done r.nodesToBeExecuted)
    (h : prepareRequestedNodesForExecution currentNode executionData runIndex rest r = (r', none)) :
    r'.workflow.connectionsByDestinationNode
        = r.workflow.connectionsByDestinationNode
      ∧ List.Forall₂ (IsFor currentNode executionData runIndex)
        (done ++ rest) r'.nodesToBeExecuted := by
  induction rest generalizing done r with
  | nil =>
    cases h
    rw [List.append_nil]
    exact ⟨rfl, hdone⟩
  | cons action rest ih =>
    rw [prepareRequestedNodesForExecution] at h
    rcases haction : requestAction currentNode executionData runIndex r action with e | next
    · rw [haction] at h
      cases h
    · rw [haction] at h
      obtain ⟨htables, d, hmore, hfor⟩ := requestAction_delivers haction
      have hnext : List.Forall₂ (IsFor currentNode executionData runIndex)
          (done ++ [action]) next.nodesToBeExecuted := by
        rw [hmore]
        exact List.rel_append hdone (.cons hfor .nil)
      obtain ⟨htables', hall⟩ := ih hnext h
      rw [List.append_assoc, List.singleton_append] at hall
      exact ⟨htables'.trans htables, hall⟩

/-- The entry of a tool with one input is made from the delivery for its
    action; there is one only if something fed the node that asks. -/
theorem entry_of_action {workflow : Workflow P} {request : EngineRequest V}
    {s : IRunExecutionData P V} {x : Label × IExecuteData P V}
    (hx : x ∈ stackAfter workflow currentNode request runIndex executionData
      s) {i : Nat} (hlabel : x.1 = .action i) {action : EngineAction V}
    (haction : request.actions[i]? = some action)
    (hinputs : numberOfInputs workflow action.nodeName ≤ 1) :
    (resumeParent executionData).isSome = true
      ∧ ∃ (workflow' : Workflow P) (d : Delivery V),
        IsFor currentNode executionData runIndex action d ∧ x.2 = directEntry workflow' d := by
  have holder : ∀ {stack : List (IExecuteData P V)}, x ∉ stack.map fun y => (Label.older, y) := by
    intro stack hmem
    obtain ⟨y, -, rfl⟩ := List.mem_map.mp hmem
    cases hlabel
  rw [stackAfter, handleRequest] at hx
  rcases hloop : prepareRequestedNodesForExecution currentNode executionData
      runIndex request.actions
      { workflow, runData := s.runData, nodesToBeExecuted := [], actions := [] }
    with ⟨r, _ | e⟩
  · obtain ⟨htables, hall⟩ := loop_delivers .nil hloop
    rw [hloop] at hx
    rcases hparent : resumeParent executionData with _ | parentNode
    · rw [hparent] at hx
      exact absurd hx holder
    · rcases hmain : executionData.data.get? .main with _ | main
      · rw [hparent, hmain] at hx
        exact absurd hx holder
      · rw [hparent, hmain] at hx
        refine ⟨rfl, r.workflow, ?_⟩
        obtain hmem | ⟨d, s', hd, hin⟩ := mem_labelAll hx
        · exact absurd hmem holder
        · rw [hlabel] at hd
          rcases List.mem_cons.mp hd with heq | hd
          · cases heq
          · obtain ⟨j, hj, htool⟩ := mem_toolLabels.mp hd
            cases hj
            obtain ⟨action', haction', hfor⟩ := forall₂_getElem? hall htool
            cases haction.symm.trans haction'
            refine ⟨d, hfor, ?_⟩
            obtain ⟨newRunIndex, rfl⟩ := hfor
            rw [addNodeToBeExecuted, if_neg] at hin
            · exact List.mem_singleton.mp hin
            · show ¬ 1 < numberOfInputs r.workflow action.nodeName
              rw [numberOfInputs_congr htables]
              exact Nat.not_lt.mpr hinputs
  · rw [hloop] at hx
    exact absurd hx holder

end

/-! ## The run of the tool -/

theorem executionData_of_take {ctx : Context P} {l : MainLoop P V}
    {x : IExecuteData P V} {r : Running P V}
    (hstack : l.state.nodeExecutionStack.head? = some x)
    (hphase : l.phase = .head) (h : (take ctx l).phase = .running r) :
    r.executionData = { x with data := updatePairedItems x } := by
  obtain ⟨rest, hstack⟩ := List.head?_eq_some_iff.mp hstack
  rw [take, hstack] at h
  dsimp only at h
  split at h
  · cases hphase.symm.trans h
  · rw [takeEntry] at h
    split at h
    · cases hphase.symm.trans h
    · split at h
      · cases hphase.symm.trans h
      · split at h
        · cases hphase.symm.trans h
        · cases hphase.symm.trans h
        · cases h
          rfl

/-- **LINEAGE KEPT**: for every action of a request, on any run of the node
    that asks. -/
theorem lineage_kept (ctx : Context P) {workflow : Workflow P}
    {currentNode : INode P} {request : EngineRequest V} {runIndex : Nat}
    {executionData : IExecuteData P V} {s : IRunExecutionData P V}
    {x : Label × IExecuteData P V}
    (hx : x ∈ stackAfter workflow currentNode request runIndex executionData
      s) {i : Nat} (hlabel : x.1 = .action i) {action : EngineAction V}
    (haction : request.actions[i]? = some action)
    (hinputs : numberOfInputs workflow action.nodeName ≤ 1) :
    Traced ctx executionData runIndex x.2 := by
  obtain ⟨hparent, workflow', _, ⟨newRunIndex, rfl⟩, heq⟩ :=
    entry_of_action hx hlabel haction hinputs
  have hoverwrite : overwriteOf x.2.data
      = some (sourceOverwrite currentNode executionData runIndex) := by
    rw [heq]
    rfl
  have hpreserved : preservedOf x.2 = (preservedOf executionData).or (overwriteOf x.2.data) := by
    rw [hoverwrite, heq]
    show some ((preservedOf executionData).getD _) = _
    rcases preservedOf executionData with _ | overwrite <;> rfl
  refine ⟨?_, hpreserved, ?_⟩
  · rintro rfl
    obtain ⟨sourceData, hsource⟩ : ∃ sourceData, sourceAt executionData 0 = some sourceData := by
      rw [resumeParent] at hparent
      rcases hsource : sourceAt executionData 0 with _ | sourceData
      · rw [hsource] at hparent
        cases hparent
      · exact ⟨_, rfl⟩
    refine ⟨_, by rw [fedBy, hsource]; rfl, ?_⟩
    rw [hoverwrite, sourceOverwrite, hsource]
    rfl
  · intro l r hstack hphase hrunning
    rw [executionData_of_take hstack hphase hrunning, heq]
    exact ⟨rfl, rfl⟩

/-- On its first run the agent has been fed by the trigger, and its third
    tool is traced back to there. -/
theorem lineage_kept_agentRequest :
    ∃ x ∈ stackAfter (agentWorkflow (some .v1)) agentNode agentRequest 0
      agentData agentState, x.1 = .action 2 ∧ Traced mergeContext agentData 0 x.2 := by
  obtain ⟨x, hx, hlabel⟩ : ∃ x ∈ stackAfter (agentWorkflow (some .v1))
      agentNode agentRequest 0 agentData agentState, x.1 = .action 2 :=
    ⟨_, List.mem_cons_self .., rfl⟩
  obtain ⟨action, haction, hinputs⟩ : ∃ action, agentRequest.actions[2]? = some action
        ∧ numberOfInputs (agentWorkflow (some .v1)) action.nodeName ≤ 1 :=
    ⟨_, rfl, by decide⟩
  exact ⟨x, hx, hlabel, lineage_kept mergeContext hx hlabel haction hinputs⟩

/-! ## An agent that is a tool -/

section

open N8nPartialExecution

/-- A trigger, an agent whose tool is an agent, and the tool of that one. -/
def nestedWorkflow : Workflow Unit :=
  let feeds (name : String) (type : NodeConnectionType) : INodeConnections :=
    OrderedMap.empty.set type [some [⟨name, type, 0⟩]]
  .new (["Chat", "Outer", "Inner", "Search"].map plainNode)
    (((OrderedMap.empty.set "Chat" (feeds "Outer" .main)).set "Inner"
      (feeds "Outer" .aiTool)).set "Search" (feeds "Inner" .aiTool)) (some .v1)

def callOf (nodeName : String) : EngineAction Unit :=
  { nodeName, input := .empty, type := .aiTool, id := "1"
    itemIndex := some 0 }

/-- The outer agent runs on an item from the trigger. -/
def outerData : IExecuteData Unit Unit :=
  { agentData with node := some (plainNode "Outer") }

/-- The outer agent has asked for the inner one. -/
def afterOuter : Handled Unit Unit :=
  handleEngineRequest nestedWorkflow (plainNode "Outer")
    { actions := [callOf "Inner"], metadata := () } 0 outerData
    { runData := .empty, nodeExecutionStack := []
      waitingExecution := .empty }

/-- The inner agent runs on what the outer one has asked it for. -/
def innerData : IExecuteData Unit Unit :=
  match afterOuter.state.nodeExecutionStack with
  | [] => outerData
  | entry :: _ => { entry with data := updatePairedItems entry }

/-- The labelled stack when the inner agent has asked for its tool. -/
def afterInner : List (Label × IExecuteData Unit Unit) :=
  stackAfter afterOuter.workflow (plainNode "Inner")
    { actions := [callOf "Search"], metadata := () } 0 innerData
    { afterOuter.state with
      nodeExecutionStack := afterOuter.state.nodeExecutionStack.tail }

/-- **THE TOOL OF A NESTED AGENT** is traced back to what fed the outer
    agent, not to what fed its own. -/
theorem not_keepsLineage_nested :
    ∃ x ∈ afterInner, x.1 = .action 0
      ∧ fedBy innerData = some ⟨"Outer", some 0, some 0⟩
      ∧ preservedOf x.2 = some ⟨"Chat", some 0, some 0⟩
      ∧ ¬ KeepsLineage innerData (callOf "Search") x.2 := by
  refine ⟨_, List.mem_cons_self .., rfl, rfl, rfl, fun h => ?_⟩
  exact absurd h.preservedSourceOverwrite (by decide)

end

end N8nToolLineage
