import N8n.WorkflowExecuteProofs
import N8n.WorkStackProofs

/-! # Engine requests — an agent waits for its tools

    A node can answer with a request: nodes to run as its tools, after which
    it runs again with their results.  `handleRequest` reserves a run of each
    tool with a placeholder in the run data, and `handleEngineRequest` adds
    the agent and then the tools to the stack.

    In the v1 order each entry is put at the front, so the tools end up over
    the agent.  In the legacy order each is put at the back, so the agent
    comes before its tools; and a tool with several inputs is not put on the
    stack with its reserved run in either order.  `scheduled_iff` says that
    there is nothing else that goes wrong. -/

namespace N8nEngineRequest

open N8nRun N8nOrderedMap N8nWorkflow N8nWorkflowExecute N8nWorkStack List

variable {P V : Type}

/-! ## The request -/

structure EngineRequest (V : Type) where
  actions : List (EngineAction V)
  metadata : V

/-- What the loop over the actions has produced so far. -/
structure Requesting (P V : Type) where
  workflow : Workflow P
  runData : IRunData V
  nodesToBeExecuted : List (Delivery V)
  actions : List (SubNodeAction V)

/-- `source?.main?.[index]`. -/
def sourceAt (executionData : IExecuteData P V) (index : Nat) : Option ISourceData :=
  match slotAt ((executionData.source.bind (·.get? .main)).getD []) index with
  | .value sourceData => some sourceData
  | _ => none

/-- The source an item of a tool is traced back to. -/
def sourceOverwrite (currentNode : INode P) (executionData : IExecuteData P V)
    (runIndex : Nat) : ISourceData :=
  let parentSourceData := sourceAt executionData runIndex
  { previousNode := (parentSourceData.map (·.previousNode)).getD
      currentNode.name
    previousNodeOutput := some ((parentSourceData.bind (·.previousNodeOutput)).getD 0)
    previousNodeRun :=
      some ((parentSourceData.bind (·.previousNodeRun)).getD 0) }

/-- The JSON of the item of the agent the action is about. -/
def agentJson (executionData : IExecuteData P V) (itemIndex : Nat) : IDataObject V :=
  match slotAt ((executionData.data.get? .main).getD []) 0 with
  | .value items => (items[itemIndex]?.map (·.json)).getD .empty
  | _ => .empty

/-- The item of the agent, what the action adds to it, and the id of the
    call. -/
def mergedJson (executionData : IExecuteData P V) (action : EngineAction V) : IDataObject V :=
  (action.input.entries.foldl (fun json (key, value) => json.set key value)
    (agentJson executionData (action.itemIndex.getD 0))).set "toolCallId" (.string action.id)

/-- The one item a tool runs on. -/
def toolInput (currentNode : INode P) (executionData : IExecuteData P V)
    (runIndex : Nat) (action : EngineAction V) :
    List (Slot (List (INodeExecutionData V))) :=
  let overwrite := sourceOverwrite currentNode executionData runIndex
  [.value
    [{ json := mergedJson executionData action
       pairedItem := some
         { item := overwrite.previousNodeRun.getD 0
           input := overwrite.previousNodeOutput
           sourceOverwrite := some overwrite } }]]

/-- The run data entry that reserves a run of a tool. -/
def placeholder (input : List (Slot (List (INodeExecutionData V)))) : ITaskData V :=
  { data := none
    inputOverride := some (OrderedMap.empty.set .aiTool input) }

/-- One action: the tool is marked, a run of it is reserved, and the entry
    for it is prepared. -/
def requestAction (currentNode : INode P) (executionData : IExecuteData P V)
    (runIndex : Nat) (requesting : Requesting P V) (action : EngineAction V) :
    Except EngineError (Requesting P V) :=
  match requesting.workflow.nodes.get? action.nodeName with
  | none =>
    .error (.unexpectedError
      ("Workflow does not contain a node with the name of \"" ++ action.nodeName ++ "\"."))
  | some node =>
    let input := toolInput currentNode executionData runIndex action
    let nodeRunData := (requesting.runData.get? node.name).getD []
    let overwrite := sourceOverwrite currentNode executionData runIndex
    .ok
      { workflow :=
          { requesting.workflow with
            nodes := requesting.workflow.nodes.set action.nodeName
              { node with rewireOutputLogTo := some action.type } }
        runData := requesting.runData.set node.name (nodeRunData ++ [placeholder input])
        nodesToBeExecuted := requesting.nodesToBeExecuted ++
          [{ connectionData :=
               { node := action.nodeName, type := action.type, index := 0 }
             outputIndex := 0
             parentNodeName := currentNode.name
             nodeSuccessData := some input
             runIndex
             newRunIndex := some nodeRunData.length
             metadata := some
               { nodeWasResumed := false
                 subNodeExecutionData := none
                 preserveSourceOverwrite := true
                 preservedSourceOverwrite := some <|
                   (executionData.metadata.bind
                     (·.preservedSourceOverwrite)).getD overwrite } }]
        actions := requesting.actions ++
          [{ action
             nodeName := action.nodeName
             runIndex := nodeRunData.length }] }

/-- The loop over the actions; what it did before an error stays. -/
def prepareRequestedNodesForExecution (currentNode : INode P)
    (executionData : IExecuteData P V) (runIndex : Nat) :
    List (EngineAction V) → Requesting P V → Requesting P V × Option EngineError
  | [], requesting => (requesting, none)
  | action :: rest, requesting =>
    match requestAction currentNode executionData runIndex requesting action with
    | .error e => (requesting, some e)
    | .ok requesting =>
      prepareRequestedNodesForExecution currentNode executionData runIndex rest requesting

/-- The node the agent got its data from; without it the request is
    ignored. -/
def resumeParent (executionData : IExecuteData P V) : Option String :=
  ((sourceAt executionData 0).map (·.previousNode)).filter (· ≠ "")

/-- The agent, to be run again on its data under the run it has now. -/
def prepareRequestingNodeForResuming (currentNode : INode P) (executionData : IExecuteData P V)
    (runIndex : Nat) (parentNode : String) (main : List (Slot (List (INodeExecutionData V))))
    (subNodeExecutionData : SubNodeExecutionData V) : Delivery V :=
  let preserved := executionData.metadata.bind (·.preservedSourceOverwrite)
  let preserve := (executionData.metadata.map
    (·.preserveSourceOverwrite)).getD false && preserved.isSome
  { connectionData := { node := currentNode.name, type := .aiTool, index := 0 }
    outputIndex := 0
    parentNodeName := parentNode
    nodeSuccessData := some main
    runIndex
    newRunIndex := some runIndex
    metadata := some
      { nodeWasResumed := true
        subNodeExecutionData := some subNodeExecutionData
        preserveSourceOverwrite := preserve
        preservedSourceOverwrite := if preserve then preserved else none } }

/-- The tools are prepared, and the agent is put before them. -/
def handleRequest (workflow : Workflow P) (currentNode : INode P) (request : EngineRequest V)
    (runIndex : Nat) (executionData : IExecuteData P V) (runData : IRunData V) :
    Requesting P V × Option EngineError :=
  match prepareRequestedNodesForExecution currentNode executionData runIndex request.actions
      { workflow, runData, nodesToBeExecuted := [], actions := [] } with
  | (requesting, some e) => (requesting, some e)
  | (requesting, none) =>
    match resumeParent executionData, executionData.data.get? .main with
    | none, _ => ({ requesting with nodesToBeExecuted := [] }, none)
    -- The call for the agent reads an element of `undefined`.
    | some _, none => (requesting, some .typeError)
    | some parentNode, some main =>
      ({ requesting with
         nodesToBeExecuted :=
           prepareRequestingNodeForResuming currentNode executionData runIndex parentNode main
             { actions := requesting.actions
               metadata := request.metadata }
           :: requesting.nodesToBeExecuted }, none)

/-- The calls of `addNodeToBeExecuted`, up to the first that fails. -/
def addAll (workflow : Workflow P) : List (Delivery V) →
    IRunExecutionData P V → IRunExecutionData P V × Option EngineError
  | [], s => (s, none)
  | d :: rest, s =>
    let added := addNodeToBeExecuted workflow s d
    match added.error with
    | some e => (s.afterAdding workflow added, some e)
    | none => addAll workflow rest (s.afterAdding workflow added)

/-- The workflow and the run data after a request, and the error. -/
structure Handled (P V : Type) where
  workflow : Workflow P
  state : IRunExecutionData P V
  error : Option EngineError

def handleEngineRequest (workflow : Workflow P) (currentNode : INode P) (request : EngineRequest V)
    (runIndex : Nat) (executionData : IExecuteData P V) (s : IRunExecutionData P V) :
    Handled P V :=
  match handleRequest workflow currentNode request runIndex executionData s.runData with
  | (requesting, some e) =>
    { workflow := requesting.workflow
      state := { s with runData := requesting.runData }
      error := some e }
  | (requesting, none) =>
    let (state, error) := addAll requesting.workflow
      requesting.nodesToBeExecuted { s with runData := requesting.runData }
    { workflow := requesting.workflow, state, error }

/-! ## Labels

    To speak about the order in which entries are taken, every entry is
    labelled with what it was put there for. -/

inductive Label where
  | older | resumed | action (index : Nat) | fresh

/-- `addAll` on a labelled stack: a call labels what it enqueues. -/
def labelAll (workflow : Workflow P) : List (Label × Delivery V) →
    IRunExecutionData P V → List (Label × IExecuteData P V) → List (Label × IExecuteData P V)
  | [], _, stack => stack
  | (label, d) :: rest, s, stack =>
    let added := addNodeToBeExecuted workflow s d
    let stack := (added.enqueued.map fun x => (label, x)).foldl (enqueue workflow) stack
    match added.error with
    | some _ => stack
    | none => labelAll workflow rest (s.afterAdding workflow added) stack

/-- The agent comes first, then the tools in the order of the actions. -/
def labelled : List (Delivery V) → List (Label × Delivery V)
  | [] => []
  | agent :: tools => (.resumed, agent) :: tools.zipIdx.map fun p => (.action p.2, p.1)

section

variable (workflow : Workflow P) (currentNode : INode P)
  (request : EngineRequest V) (runIndex : Nat)
  (executionData : IExecuteData P V) (s : IRunExecutionData P V)

def stackAfter : List (Label × IExecuteData P V) :=
  let older := s.nodeExecutionStack.map fun x => (Label.older, x)
  match handleRequest workflow currentNode request runIndex executionData s.runData with
  | (_, some _) => older
  | (requesting, none) =>
    labelAll requesting.workflow (labelled requesting.nodesToBeExecuted)
      { s with runData := requesting.runData } older

/-- The node and the run a stack entry was made for. -/
def reservedRun (x : IExecuteData P V) : Option (String × Nat) :=
  x.node.bind fun node => x.runIndex.map fun run => (node.name, run)

/-- The run is a new one, and a placeholder stands in its place. -/
def Reserved (before after : IRunData V) (nodeName : String) (run : Nat) : Prop :=
  ((before.get? nodeName).getD []).length ≤ run
    ∧ ∃ input, ((after.get? nodeName).getD [])[run]? = some (placeholder input)

/-- The runs of the stack: whatever a node puts on it is labelled as
    fresh.  With an entry that is taken, the number of runs its node has
    had is recorded. -/
def Works (t : WorkStack Label (IExecuteData P V) Nat) (e : Turn Label (IExecuteData P V) Nat)
    (t' : WorkStack Label (IExecuteData P V) Nat) : Prop :=
  Takes (fun label => label = .fresh) t e t'

/-- What a request should come to. -/
structure Scheduled : Prop where
  /-- every action has an entry; -/
  entries : ∀ i < request.actions.length,
    ∃ x ∈ stackAfter workflow currentNode request runIndex executionData s, x.1 = .action i
  /-- the entry is for the node of the action and a reserved run of it; -/
  reserved : ∀ x ∈ stackAfter workflow currentNode request runIndex
      executionData s, ∀ i, x.1 = .action i → ∃ action run, request.actions[i]? = some action
      ∧ reservedRun x.2 = some (action.nodeName, run)
      ∧ Reserved s.runData (handleEngineRequest workflow currentNode request
          runIndex executionData s).state.runData action.nodeName run
  /-- no two actions share a run; -/
  distinct : ∀ x ∈ stackAfter workflow currentNode request runIndex
      executionData s, ∀ y ∈ stackAfter workflow currentNode request runIndex
      executionData s, ∀ i j, x.1 = .action i → y.1 = .action j → i ≠ j →
    reservedRun x.2 ≠ reservedRun y.2
  /-- the agent is taken after its tools; -/
  toolsFirst : ∀ path, IsRun Works (.start (stackAfter workflow currentNode
      request runIndex executionData s)) path →
    EveryState (fun t => .resumed ∈ t.takenLabels →
        ∀ i < request.actions.length, .action i ∈ t.takenLabels)
      (.start (stackAfter workflow currentNode request runIndex executionData s)) path
  /-- and no older entry of the agent takes its run before it. -/
  runKept : ∀ path, IsRun Works (.start (stackAfter workflow currentNode
      request runIndex executionData s)) path →
    EveryState (fun t => ∀ z ∈ t.taken, z.1 = .older → runs currentNode.name z.2.1 = true →
        z.2.1.runIndex.getD z.2.2 = runIndex → .resumed ∈ t.takenLabels)
      (.start (stackAfter workflow currentNode request runIndex executionData s)) path

/-- The condition: the request is not ignored, the order is v1, and no
    tool has more than one input. -/
structure ToolsOverAgent : Prop where
  accepted : (resumeParent executionData).isSome = true
  order : workflow.executionOrder = some .v1
  inputs : ∀ action ∈ request.actions, numberOfInputs workflow action.nodeName ≤ 1

end

/-! ## The loop over the actions -/

section

variable {workflow : Workflow P} {currentNode : INode P} {runIndex : Nat}
  {executionData : IExecuteData P V} {before : IRunData V}

theorem Reserved.append {after after' : IRunData V} {nodeName : String}
    {run : Nat} (h : Reserved before after nodeName run)
    {more : List (ITaskData V)}
    (hmore : (after'.get? nodeName).getD [] = (after.get? nodeName).getD [] ++ more) :
    Reserved before after' nodeName run := by
  obtain ⟨hnew, input, hinput⟩ := h
  refine ⟨hnew, input, ?_⟩
  rw [hmore, getElem?_append_left]
  · exact hinput
  · exact (List.getElem?_eq_some_iff.mp hinput).1

/-- What holds when the loop has come through these actions: the tables are
    those of the workflow, and every action has a delivery to its node under
    a reserved run that no other delivery has. -/
structure Prepared (before : IRunData V) (workflow : Workflow P)
    (actions : List (EngineAction V)) (r : Requesting P V) : Prop where
  tables : r.workflow.connectionsByDestinationNode = workflow.connectionsByDestinationNode
  order : r.workflow.executionOrder = workflow.executionOrder
  named : ∀ p ∈ r.workflow.nodes.entries, p.2.name = p.1
  nodes : ∀ name, workflow.nodes.has name = true → r.workflow.nodes.has name = true
  grows : ∀ name, ((before.get? name).getD []).length ≤ ((r.runData.get? name).getD []).length
  deliveries : List.Forall₂ (fun action d =>
      d.connectionData.node = action.nodeName
        ∧ r.workflow.nodes.has action.nodeName = true
        ∧ ∃ run, d.newRunIndex = some run ∧ Reserved before r.runData action.nodeName run)
    actions r.nodesToBeExecuted
  distinct : (r.nodesToBeExecuted.map fun d =>
    (d.connectionData.node, d.newRunIndex)).Nodup

theorem forall₂_getElem? {α β : Type} {R : α → β → Prop} {l : List α}
    {l' : List β} (h : List.Forall₂ R l l') {i : Nat} {b : β}
    (hb : l'[i]? = some b) : ∃ a, l[i]? = some a ∧ R a b := by
  induction h generalizing i with
  | nil => cases hb
  | cons hab _ ih =>
    cases i with
    | zero =>
      cases hb
      exact ⟨_, rfl, hab⟩
    | succ i => exact ih hb

theorem getD_set_append (runData : IRunData V) (name : String) (taskData : ITaskData V)
    (other : String) :
    ∃ more, (((runData.set name ((runData.get? name).getD [] ++ [taskData])).get? other).getD [])
      = (runData.get? other).getD [] ++ more := by
  rw [OrderedMap.get?_set]
  by_cases h : name = other
  · subst h
    exact ⟨[taskData], by rw [if_pos rfl, Option.getD_some]⟩
  · exact ⟨[], by rw [if_neg h, append_nil]⟩

section

variable {actions : List (EngineAction V)} {r : Requesting P V}
  (h : Prepared before workflow actions r)
include h

theorem Prepared.requestAction {r' : Requesting P V} {action : EngineAction V}
    (haction : requestAction currentNode executionData runIndex r action
      = .ok r') : Prepared before workflow (actions ++ [action]) r' := by
  rw [N8nEngineRequest.requestAction] at haction
  rcases hnode : r.workflow.nodes.get? action.nodeName with _ | node
  · rw [hnode] at haction
    cases haction
  · rw [hnode] at haction
    have hname : node.name = action.nodeName := h.named _ (mem_of_findKey hnode)
    obtain ⟨name, type, typeVersion, position, disabled, parameters, rewire⟩ := node
    cases hname
    cases haction
    have hhas : ∀ (node : INode P) name, r.workflow.nodes.has name = true →
        (r.workflow.nodes.set action.nodeName node).has name = true := by
      intro node name hin
      rw [OrderedMap.has, OrderedMap.get?_set]
      split
      · rfl
      · exact hin
    have hgrows := getD_set_append r.runData action.nodeName
      (placeholder (toolInput currentNode executionData runIndex action))
    refine ⟨h.tables, h.order, ?_, fun name hin => hhas _ _ (h.nodes name hin), ?_, ?_, ?_⟩
    · intro p hp
      rcases OrderedMap.mem_entries_set.mp hp with rfl | ⟨hp, -⟩
      · rfl
      · exact h.named p hp
    · intro name
      obtain ⟨more, hmore⟩ := hgrows name
      rw [hmore, List.length_append]
      exact Nat.le_add_right_of_le (h.grows name)
    · refine List.rel_append ?_ (List.Forall₂.cons ?_ .nil)
      · refine h.deliveries.imp ?_
        rintro earlier d ⟨hd, hin, run, hrun, hreserved⟩
        obtain ⟨more, hmore⟩ := hgrows earlier.nodeName
        exact ⟨hd, hhas _ _ hin, run, hrun, hreserved.append hmore⟩
      · refine ⟨rfl, ?_, _, rfl, h.grows _, toolInput currentNode executionData runIndex action, ?_⟩
        · rw [OrderedMap.has, OrderedMap.get?_set, if_pos rfl]
          rfl
        · rw [OrderedMap.get?_set, if_pos rfl, Option.getD_some, List.getElem?_concat_length]
    · rw [List.map_append]
      refine List.nodup_append.mpr ⟨h.distinct, List.nodup_singleton _, ?_⟩
      intro pair hpair other hother heq
      rw [List.map_singleton, List.mem_singleton] at hother
      subst hother
      obtain ⟨d, hd, rfl⟩ := List.mem_map.mp hpair
      -- A run reserved before is not the run reserved now.
      obtain ⟨i, hi⟩ := List.mem_iff_getElem?.mp hd
      obtain ⟨earlier, -, hnodeName, -, run, hrun, hreserved⟩ := forall₂_getElem? h.deliveries hi
      obtain ⟨hsame, hlast⟩ := Prod.mk.inj heq
      have hnames : earlier.nodeName = action.nodeName := hnodeName.symm.trans hsame
      obtain ⟨-, input, hinput⟩ := hreserved
      have hlt := (List.getElem?_eq_some_iff.mp hinput).1
      have hlen := Option.some.inj (hrun.symm.trans hlast)
      rw [hnames, hlen] at hlt
      exact absurd hlt (Nat.lt_irrefl _)

/-- **THE LOOP**: when it comes through, every action is prepared. -/
theorem Prepared.loop {rest : List (EngineAction V)} {r' : Requesting P V}
    (hloop : prepareRequestedNodesForExecution currentNode executionData
      runIndex rest r = (r', none)) :
    Prepared before workflow (actions ++ rest) r' := by
  induction rest generalizing actions r with
  | nil =>
    cases hloop
    rwa [append_nil]
  | cons action rest ih =>
    rw [prepareRequestedNodesForExecution] at hloop
    rcases haction : N8nEngineRequest.requestAction currentNode
        executionData runIndex r action with e | next
    · rw [haction] at hloop
      cases hloop
    · rw [haction] at hloop
      have hrest := ih (h.requestAction haction) hloop
      rwa [append_assoc, singleton_append] at hrest

end

theorem Prepared.start (hw : workflow.Consistent) (runData : IRunData V) :
    Prepared runData workflow []
      { workflow, runData, nodesToBeExecuted := [], actions := [] } :=
  { tables := rfl
    order := rfl
    named := hw.named
    nodes := fun _ h => h
    grows := fun _ => Nat.le_refl _
    deliveries := .nil
    distinct := nodup_nil }

end

/-! ## What becomes of the labelled stack -/

section

variable {workflow : Workflow P}

theorem numberOfInputs_congr {workflow' : Workflow P} (h : workflow'.connectionsByDestinationNode
      = workflow.connectionsByDestinationNode) (nodeName : String) :
    numberOfInputs workflow' nodeName = numberOfInputs workflow nodeName := by
  rw [numberOfInputs, numberOfInputs, mainInputs, mainInputs, h]

/-- The tools, each labelled with the index of its action. -/
def toolLabels (tools : List (Delivery V)) : List (Label × Delivery V) :=
  tools.zipIdx.map fun p => (.action p.2, p.1)

theorem mem_toolLabels {tools : List (Delivery V)} {label : Label}
    {d : Delivery V} : (label, d) ∈ toolLabels tools ↔
      ∃ i, label = .action i ∧ tools[i]? = some d := by
  rw [toolLabels, mem_map]
  constructor
  · rintro ⟨⟨d', i⟩, hmem, heq⟩
    cases heq
    exact ⟨i, rfl, mem_zipIdx_iff_getElem?.mp hmem⟩
  · rintro ⟨i, rfl, hi⟩
    exact ⟨(d, i), mem_zipIdx_iff_getElem?.mpr hi, rfl⟩

theorem labelAll_direct (hv1 : workflow.executionOrder = some .v1)
    {nodesToBeExecuted : List (Label × Delivery V)}
    (hinputs : ∀ p ∈ nodesToBeExecuted, numberOfInputs workflow p.2.connectionData.node ≤ 1)
    (s : IRunExecutionData P V) (stack : List (Label × IExecuteData P V)) :
    labelAll workflow nodesToBeExecuted s stack
      = (nodesToBeExecuted.map fun p =>
          (p.1, directEntry workflow p.2)).reverse ++ stack := by
  induction nodesToBeExecuted generalizing s stack with
  | nil => rfl
  | cons p rest ih =>
    obtain ⟨label, d⟩ := p
    obtain ⟨hd, hrest⟩ := forall_mem_cons.mp hinputs
    have hcall : addNodeToBeExecuted workflow s d
        = { waitingExecution := s.waitingExecution
            enqueued := [directEntry workflow d]
            error := none } := by
      rw [addNodeToBeExecuted, if_neg (Nat.not_lt.mpr hd)]
    have hput : enqueue workflow stack (label, directEntry workflow d)
        = (label, directEntry workflow d) :: stack := if_pos hv1
    rw [labelAll]
    simp [hcall, hput, ih hrest]

theorem labelAll_legacy (hlegacy : workflow.executionOrder ≠ some .v1)
    (nodesToBeExecuted : List (Label × Delivery V))
    (s : IRunExecutionData P V) (stack : List (Label × IExecuteData P V)) :
    ∃ tail, labelAll workflow nodesToBeExecuted s stack = stack ++ tail := by
  have hfold : ∀ (l stack : List (Label × IExecuteData P V)),
      l.foldl (enqueue workflow) stack = stack ++ l := by
    intro l
    induction l with
    | nil => exact fun stack => (append_nil stack).symm
    | cons x rest ih =>
      intro stack
      rw [foldl_cons, ih, enqueue, if_neg hlegacy, append_assoc, singleton_append]
  induction nodesToBeExecuted generalizing s stack with
  | nil => exact ⟨[], (append_nil stack).symm⟩
  | cons p rest ih =>
    obtain ⟨label, d⟩ := p
    rw [labelAll]
    rcases (addNodeToBeExecuted workflow s d).error with _ | e
    · obtain ⟨tail, htail⟩ := ih (s.afterAdding workflow (addNodeToBeExecuted workflow s d))
        (((addNodeToBeExecuted workflow s d).enqueued.map
          fun x => (label, x)).foldl (enqueue workflow) stack)
      rw [hfold, append_assoc] at htail
      exact ⟨_, by simpa only [hfold] using htail⟩
    · exact ⟨_, hfold _ _⟩

/-- Every entry on the labelled stack was there before, or comes from a
    delivery with its label. -/
theorem mem_labelAll {nodesToBeExecuted : List (Label × Delivery V)}
    {s : IRunExecutionData P V} {stack : List (Label × IExecuteData P V)}
    {x : Label × IExecuteData P V}
    (h : x ∈ labelAll workflow nodesToBeExecuted s stack) :
    x ∈ stack ∨ ∃ d s', (x.1, d) ∈ nodesToBeExecuted
      ∧ x.2 ∈ (addNodeToBeExecuted workflow s' d).enqueued := by
  have hfold : ∀ (l stack : List (Label × IExecuteData P V)),
      x ∈ l.foldl (enqueue workflow) stack → x ∈ l ∨ x ∈ stack := by
    intro l
    induction l with
    | nil => exact fun stack h => .inr h
    | cons y rest ih =>
      intro stack h
      rcases ih _ h with h | h
      · exact .inl (mem_cons_of_mem _ h)
      · rw [enqueue] at h
        have hor : x = y ∨ x ∈ stack := by
          split at h
          · exact mem_cons.mp h
          · exact (mem_append.mp h).symm.imp mem_singleton.mp id
        rcases hor with rfl | h
        · exact .inl (mem_cons_self ..)
        · exact .inr h
  induction nodesToBeExecuted generalizing s stack with
  | nil => exact .inl h
  | cons p rest ih =>
    obtain ⟨label, d⟩ := p
    have hcall : x ∈ ((addNodeToBeExecuted workflow s d).enqueued.map
          fun y => (label, y)).foldl (enqueue workflow) stack →
        x ∈ stack ∨ ∃ d' s', (x.1, d') ∈ (label, d) :: rest
          ∧ x.2 ∈ (addNodeToBeExecuted workflow s' d').enqueued := by
      intro h
      rcases hfold _ _ h with h | h
      · obtain ⟨y, hy, rfl⟩ := mem_map.mp h
        exact .inr ⟨d, s, mem_cons_self .., hy⟩
      · exact .inl h
    rw [labelAll] at h
    rcases herror : (addNodeToBeExecuted workflow s d).error with _ | e <;>
      simp only [herror] at h
    · rcases ih h with h | ⟨d', s', hmem, hin⟩
      · exact hcall h
      · exact .inr ⟨d', s', mem_cons_of_mem _ hmem, hin⟩
    · exact hcall h

end

/-! ## When the request is scheduled -/

section

variable {workflow : Workflow P} {currentNode : INode P}
  {request : EngineRequest V} {runIndex : Nat}
  {executionData : IExecuteData P V} {s : IRunExecutionData P V}

theorem addAll_runData (workflow : Workflow P)
    (nodesToBeExecuted : List (Delivery V)) (s : IRunExecutionData P V) :
    (addAll workflow nodesToBeExecuted s).1.runData = s.runData := by
  induction nodesToBeExecuted generalizing s with
  | nil => rfl
  | cons d rest ih =>
    rw [addAll]
    rcases (addNodeToBeExecuted workflow s d).error with _ | e
    · exact ih _
    · rfl

theorem handled_cases (hw : workflow.Consistent)
    (h : (handleEngineRequest workflow currentNode request runIndex executionData s).error = none) :
    ∃ r, Prepared s.runData workflow request.actions r
      ∧ (handleEngineRequest workflow currentNode request runIndex
          executionData s).state.runData = r.runData
      ∧ ((resumeParent executionData).isSome = false
          ∧ stackAfter workflow currentNode request runIndex executionData s
            = s.nodeExecutionStack.map (fun x => (.older, x))
        ∨ (resumeParent executionData).isSome = true
          ∧ ∃ agent : Delivery V, agent.connectionData.node = currentNode.name
            ∧ stackAfter workflow currentNode request runIndex executionData s
              = labelAll r.workflow ((.resumed, agent) :: toolLabels r.nodesToBeExecuted)
                { s with runData := r.runData }
                (s.nodeExecutionStack.map fun x => (.older, x))) := by
  rw [handleEngineRequest, handleRequest] at h ⊢
  rw [stackAfter, handleRequest]
  rcases hloop : prepareRequestedNodesForExecution currentNode executionData
      runIndex request.actions
      { workflow, runData := s.runData, nodesToBeExecuted := [], actions := [] }
    with ⟨r, _ | e⟩
  · have hprepared := (Prepared.start hw s.runData).loop hloop
    rw [hloop] at h
    rcases hparent : resumeParent executionData with _ | parentNode
    · exact ⟨r, hprepared, rfl, .inl ⟨rfl, rfl⟩⟩
    · rcases hmain : executionData.data.get? .main with _ | main
      · rw [hparent, hmain] at h
        cases h
      · exact ⟨r, hprepared, addAll_runData _ _ _, .inr ⟨rfl, _, rfl, rfl⟩⟩
  · rw [hloop] at h
    cases h

/-- The tools of the request on the stack. -/
def toolEntries (workflow : Workflow P) (tools : List (Delivery V)) :
    List (Label × IExecuteData P V) :=
  ((toolLabels tools).map fun p => (p.1, directEntry workflow p.2)).reverse

theorem mem_toolEntries {tools : List (Delivery V)} {x : Label × IExecuteData P V} :
    x ∈ toolEntries workflow tools ↔ ∃ i d, tools[i]? = some d
      ∧ x = (.action i, directEntry workflow d) := by
  rw [toolEntries, mem_reverse, mem_map]
  constructor
  · rintro ⟨⟨label, d⟩, hmem, rfl⟩
    obtain ⟨i, rfl, hi⟩ := mem_toolLabels.mp hmem
    exact ⟨i, d, hi, rfl⟩
  · rintro ⟨i, d, hi, rfl⟩
    exact ⟨(.action i, d), mem_toolLabels.mpr ⟨i, rfl, hi⟩, rfl⟩

theorem not_mem_toolEntries {tools : List (Delivery V)} {label : Label}
    (hlabel : ∀ i, label ≠ .action i) :
    label ∉ (toolEntries workflow tools).map Prod.fst := by
  intro hmem
  obtain ⟨x, hx, rfl⟩ := mem_map.mp hmem
  obtain ⟨i, d, -, rfl⟩ := mem_toolEntries.mp hx
  exact hlabel i rfl

section

variable (hw : workflow.Consistent) (hcurrent : numberOfInputs workflow currentNode.name ≤ 1)
  (h : (handleEngineRequest workflow currentNode request runIndex executionData s).error = none)
  (hover : ToolsOverAgent workflow request executionData)
include hw hcurrent h hover

/-- **THE LAYOUT**: under the condition the tools are over the agent, and
    the agent is over what was there. -/
theorem stackAfter_layout :
    ∃ r, Prepared s.runData workflow request.actions r
      ∧ (handleEngineRequest workflow currentNode request runIndex
          executionData s).state.runData = r.runData
      ∧ ∃ agent, stackAfter workflow currentNode request runIndex executionData s
        = toolEntries r.workflow r.nodesToBeExecuted
          ++ (.resumed, agent) :: s.nodeExecutionStack.map fun x => (.older, x) := by
  obtain ⟨r, hprepared, hrunData, ⟨hignored, -⟩ | ⟨-, agent, hagent, hstack⟩⟩ := handled_cases hw h
  · rw [hover.accepted] at hignored
    cases hignored
  · refine ⟨r, hprepared, hrunData, directEntry r.workflow agent, ?_⟩
    have hinputs : ∀ p ∈ (Label.resumed, agent) :: toolLabels r.nodesToBeExecuted,
        numberOfInputs r.workflow p.2.connectionData.node ≤ 1 := by
      refine forall_mem_cons.mpr ⟨?_, ?_⟩
      · rw [numberOfInputs_congr hprepared.tables, hagent]
        exact hcurrent
      · rintro ⟨label, d⟩ hp
        obtain ⟨i, -, hi⟩ := mem_toolLabels.mp hp
        obtain ⟨action, haction, hnode, -⟩ := forall₂_getElem? hprepared.deliveries hi
        rw [numberOfInputs_congr hprepared.tables, hnode]
        exact hover.inputs action (mem_of_getElem? haction)
    rw [hstack, labelAll_direct (hprepared.order.trans hover.order) hinputs, map_cons,
      reverse_cons, append_assoc, singleton_append, ← toolEntries]

/-- Under the condition the request comes to what it should. -/
theorem scheduled_of_toolsOverAgent :
    Scheduled workflow currentNode request runIndex executionData s := by
  obtain ⟨r, hprepared, hrunData, agent, hstack⟩ := stackAfter_layout hw hcurrent h hover
  have hlength : request.actions.length = r.nodesToBeExecuted.length :=
    hprepared.deliveries.length_eq
  -- Only a tool has the label of an action.
  have htool : ∀ x ∈ stackAfter workflow currentNode request runIndex
      executionData s, ∀ i, x.1 = .action i → ∃ d, r.nodesToBeExecuted[i]? = some d
        ∧ reservedRun x.2 = d.newRunIndex.map fun run => (d.connectionData.node, run) := by
    intro x hx i hlabel
    rw [hstack, mem_append] at hx
    rcases hx with hx | hx
    · obtain ⟨j, d, hd, rfl⟩ := mem_toolEntries.mp hx
      cases hlabel
      refine ⟨d, hd, ?_⟩
      obtain ⟨action, -, hnode, hhas, -⟩ := forall₂_getElem? hprepared.deliveries hd
      obtain ⟨node, hget⟩ := Option.isSome_iff_exists.mp hhas
      have hname : node.name = action.nodeName := hprepared.named _ (mem_of_findKey hget)
      simp [reservedRun, directEntry, hnode, hget, hname]
    · rcases mem_cons.mp hx with rfl | hx
      · cases hlabel
      · obtain ⟨y, -, rfl⟩ := mem_map.mp hx
        cases hlabel
  refine ⟨?_, ?_, ?_, ?_, ?_⟩
  · intro i hi
    rw [hlength] at hi
    rw [hstack]
    exact ⟨_, mem_append_left _ (mem_toolEntries.mpr ⟨i, _, getElem?_eq_getElem hi, rfl⟩), rfl⟩
  · intro x hx i hlabel
    obtain ⟨d, hd, hrun⟩ := htool x hx i hlabel
    obtain ⟨action, haction, hnode, -, run, hnew, hreserved⟩ :=
      forall₂_getElem? hprepared.deliveries hd
    rw [hnew, hnode] at hrun
    exact ⟨action, run, haction, hrun, hrunData ▸ hreserved⟩
  · intro x hx y hy i j hi hj hne heq
    obtain ⟨d, hd, hrun⟩ := htool x hx i hi
    obtain ⟨d', hd', hrun'⟩ := htool y hy j hj
    obtain ⟨-, -, -, -, run, hnew, -⟩ := forall₂_getElem? hprepared.deliveries hd
    obtain ⟨-, -, -, -, run', hnew', -⟩ := forall₂_getElem? hprepared.deliveries hd'
    rw [hrun, hrun', hnew, hnew'] at heq
    have hpair : (d.connectionData.node, d.newRunIndex)
        = (d'.connectionData.node, d'.newRunIndex) := by
      obtain ⟨hnode, hsame⟩ := Prod.mk.inj (Option.some.inj heq)
      rw [hnew, hnew', hnode, hsame]
    have hsame : (r.nodesToBeExecuted.map fun d =>
          (d.connectionData.node, d.newRunIndex))[i]?
        = (r.nodesToBeExecuted.map fun d =>
          (d.connectionData.node, d.newRunIndex))[j]? := by
      rw [getElem?_map, getElem?_map, hd, hd', Option.map_some, Option.map_some, hpair]
    refine hne ((getElem?_inj ?_ hprepared.distinct).mp hsame)
    rw [length_map]
    exact (List.getElem?_eq_some_iff.mp hd).1
  · intro path hrun
    rw [hstack] at hrun ⊢
    have hfirst := front_first (x := (Label.resumed, agent)) (by simp)
      (not_mem_toolEntries (by simp)) hrun
    refine hfirst.mono fun t ht htaken i hi => ?_
    rw [hlength] at hi
    exact ht htaken _ (mem_toolEntries.mpr ⟨i, _, getElem?_eq_getElem hi, rfl⟩)
  · intro path hrun
    rw [hstack] at hrun ⊢
    have hlast := below_last (x := (Label.resumed, agent)) (l := Label.older) (by simp)
      (not_mem_toolEntries (by simp)) hrun
    refine hlast.mono fun t ht z hz holder _ _ => ?_
    refine ht ?_
    rw [← holder]
    exact mem_map_of_mem hz

end

/-- A request that comes to what it should meets the condition. -/
theorem toolsOverAgent_of_scheduled (hw : workflow.Consistent)
    (hcurrent : numberOfInputs workflow currentNode.name ≤ 1) (hne : request.actions ≠ [])
    (h : (handleEngineRequest workflow currentNode request runIndex executionData s).error = none)
    (hscheduled : Scheduled workflow currentNode request runIndex executionData s) :
    ToolsOverAgent workflow request executionData := by
  have hzero : 0 < request.actions.length := length_pos_iff.mpr hne
  obtain ⟨r, hprepared, -, ⟨-, hstack⟩ | ⟨haccepted, agent, hagent, hstack⟩⟩ := handled_cases hw h
  · -- A request that is ignored puts nothing on the stack.
    obtain ⟨x, hx, hlabel⟩ := hscheduled.entries 0 hzero
    rw [hstack] at hx
    obtain ⟨y, -, rfl⟩ := mem_map.mp hx
    cases hlabel
  · have horder : workflow.executionOrder = some .v1 := by
      by_contra hlegacy
      -- The agent is put behind the older entries, and its tools behind it.
      have hr : r.workflow.executionOrder ≠ some .v1 := by
        rw [hprepared.order]
        exact hlegacy
      have hcall : addNodeToBeExecuted r.workflow
            { s with runData := r.runData } agent
          = { waitingExecution := s.waitingExecution
              enqueued := [directEntry r.workflow agent]
              error := none } := by
        rw [addNodeToBeExecuted, if_neg]
        rw [numberOfInputs_congr hprepared.tables, hagent]
        exact Nat.not_lt.mpr hcurrent
      rw [labelAll] at hstack
      simp only [hcall, map_cons, map_nil, foldl_cons, foldl_nil, enqueue, if_neg hr] at hstack
      obtain ⟨tail, htail⟩ := labelAll_legacy hr (toolLabels r.nodesToBeExecuted)
        (IRunExecutionData.afterAdding r.workflow
          { s with runData := r.runData }
          { waitingExecution := s.waitingExecution
            enqueued := [directEntry r.workflow agent]
            error := none })
        (s.nodeExecutionStack.map (fun x => (Label.older, x))
          ++ [(Label.resumed, directEntry r.workflow agent)])
      rw [htail] at hstack
      have hrun := workOff_isRun (fun label => label = Label.fresh) 0
        (s := .start (stackAfter workflow currentNode request runIndex executionData s)) hstack
      have htaken := (hscheduled.toolsFirst _ hrun).last
      rw [WorkStack.takenLabels, lastState_workOff] at htaken
      have hmem := htaken (by simp) 0 hzero
      simp [WorkStack.start] at hmem
    refine ⟨haccepted, horder, ?_⟩
    intro action haction
    by_contra hmany
    -- A tool with several inputs gets no entry under its reserved run.
    obtain ⟨i, hi⟩ := mem_iff_getElem?.mp haction
    obtain ⟨x, hx, hlabel⟩ := hscheduled.entries i (List.getElem?_eq_some_iff.mp hi).1
    obtain ⟨_, run, -, hrun, -⟩ := hscheduled.reserved x hx i hlabel
    rw [hstack] at hx
    rcases mem_labelAll hx with hx | ⟨d, s', hd, hin⟩
    · obtain ⟨y, -, rfl⟩ := mem_map.mp hx
      cases hlabel
    · rw [hlabel] at hd
      rcases mem_cons.mp hd with heq | hd
      · cases heq
      · obtain ⟨j, hj, htool⟩ := mem_toolLabels.mp hd
        cases hj
        obtain ⟨action', haction', hnode, -⟩ := forall₂_getElem? hprepared.deliveries htool
        cases hi.symm.trans haction'
        have hk : 1 < numberOfInputs r.workflow d.connectionData.node := by
          rw [numberOfInputs_congr hprepared.tables, hnode]
          exact Nat.not_le.mp hmany
        rw [addNodeToBeExecuted, if_pos hk] at hin
        simp only [reservedRun, runIndex_of_addToWaiting _ hin,
          Option.map_none, Option.bind_fun_none] at hrun
        cases hrun

/-- **ENGINE REQUESTS**: a request of a node with one input comes to what it
    should exactly when it is not ignored, the order is v1 and no tool has
    more than one input. -/
theorem scheduled_iff (hw : workflow.Consistent)
    (hcurrent : numberOfInputs workflow currentNode.name ≤ 1) (hne : request.actions ≠ [])
    (h : (handleEngineRequest workflow currentNode request runIndex executionData s).error = none) :
    Scheduled workflow currentNode request runIndex executionData s ↔
      ToolsOverAgent workflow request executionData :=
  ⟨toolsOverAgent_of_scheduled hw hcurrent hne h, scheduled_of_toolsOverAgent hw hcurrent h⟩

end

/-! ## Two requests -/

/-- A trigger, an agent and its two tools. -/
def agentWorkflow (executionOrder : Option ExecutionOrder) : Workflow Unit :=
  let node (name : String) : INode Unit :=
    { name, type := name, typeVersion := 1, position := (0, 0)
      disabled := false, parameters := (), rewireOutputLogTo := none }
  let toAgent (type : NodeConnectionType) : INodeConnections :=
    OrderedMap.empty.set type [some [⟨"Agent", type, 0⟩]]
  .new [node "Chat", node "Agent", node "Search", node "Mail"]
    (((OrderedMap.empty.set "Chat" (toAgent .main)).set "Search"
      (toAgent .aiTool)).set "Mail" (toAgent .aiTool)) executionOrder

def agentNode : INode Unit :=
  { name := "Agent", type := "Agent", typeVersion := 1, position := (0, 0)
    disabled := false, parameters := (), rewireOutputLogTo := none }

/-- The agent asks for a search, a mail and another search. -/
def agentRequest : EngineRequest Unit :=
  let action (nodeName id : String) : EngineAction Unit :=
    { nodeName, input := .empty, type := .aiTool, id, itemIndex := none }
  { actions := [action "Search" "1", action "Mail" "2", action "Search" "3"]
    metadata := () }

/-- The agent runs on an item from the trigger. -/
def agentData : IExecuteData Unit Unit :=
  { node := some agentNode
    data := mainOnly [.value [{ json := .empty, pairedItem := none }]]
    source := some (mainOnly [.value
      { previousNode := "Chat"
        previousNodeOutput := none
        previousNodeRun := none }])
    runIndex := none
    metadata := none }

/-- Another entry of the agent is waiting on the stack. -/
def agentState : IRunExecutionData Unit Unit :=
  { runData := .empty
    nodeExecutionStack := [agentData]
    waitingExecution := .empty }

/-- In the v1 order the three tools run before the agent does. -/
theorem scheduled_agentRequest :
    Scheduled (agentWorkflow (some .v1)) agentNode agentRequest 0 agentData agentState :=
  (scheduled_iff (Workflow.new_consistent ..) (by decide) (by decide)
    (by decide)).mpr ⟨by decide, rfl, by decide⟩

/-- In the legacy order the agent is taken before its tools. -/
theorem legacy_agent_first : (agentWorkflow none).Consistent
      ∧ (handleEngineRequest (agentWorkflow none) agentNode agentRequest 0
          agentData agentState).error = none
      ∧ ¬ Scheduled (agentWorkflow none) agentNode agentRequest 0 agentData agentState := by
  have hw : (agentWorkflow none).Consistent := Workflow.new_consistent ..
  refine ⟨hw, by decide, fun h => ?_⟩
  have hover := toolsOverAgent_of_scheduled hw (by decide) (by decide) (by decide) h
  cases hover.order

end N8nEngineRequest
