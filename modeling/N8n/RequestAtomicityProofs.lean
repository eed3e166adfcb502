import N8n.EngineRequestProofs

/-! # Request atomicity — what a failed request leaves behind

    `handleRequest` goes through the actions one by one.  For each it marks
    the tool and pushes a placeholder to its runs; only after that does it
    look at the next action, and only after all of them at the node the
    agent got its data from.

    So the first action that is carried out already changes the run data,
    and nothing undoes it: `atomic_iff` says that a request that fails or is
    ignored leaves things as they were only when not even its first action
    names a node of the workflow. -/

namespace N8nRequestAtomicity

open N8nOrderedMap N8nWorkflow N8nWorkflowExecute N8nEngineRequest

variable {P V : Type}

/-! ## What is asked -/

section

variable (workflow : Workflow P) (currentNode : INode P)
  (request : EngineRequest V) (runIndex : Nat)
  (executionData : IExecuteData P V) (runData : IRunData V)

/-- The request fails: an action names an unknown node. -/
def Fails : Prop :=
  ∃ message, (handleRequest workflow currentNode request runIndex
    executionData runData).2 = some (.unexpectedError message)

/-- The request is ignored: nothing is to be executed for it. -/
def Ignored : Prop :=
  (handleRequest workflow currentNode request runIndex executionData runData).2 = none
    ∧ (handleRequest workflow currentNode request runIndex executionData
        runData).1.nodesToBeExecuted = []

/-- The run data and the nodes are what they were. -/
def Unchanged (requesting : Requesting P V) : Prop :=
  requesting.runData = runData ∧ requesting.workflow.nodes = workflow.nodes

/-- A request that comes to nothing changes nothing. -/
def Atomic : Prop :=
  Fails workflow currentNode request runIndex executionData runData
      ∨ Ignored workflow currentNode request runIndex executionData runData →
    Unchanged workflow runData (handleRequest workflow currentNode request
      runIndex executionData runData).1

/-- Every action names a node of the workflow, and the agent knows where its
    data came from. -/
def Valid : Prop :=
  (∀ action ∈ request.actions, workflow.nodes.has action.nodeName = true)
    ∧ (resumeParent executionData).isSome = true

/-- There is no first action, or it names an unknown node. -/
def StopsAtOnce : Prop :=
  ∀ action, request.actions.head? = some action → workflow.nodes.has action.nodeName = false

end

/-! ## One action -/

section

variable {currentNode : INode P} {runIndex : Nat}
  {executionData : IExecuteData P V}

/-- How many runs a node has. -/
def numberOfRuns (runData : IRunData V) (nodeName : String) : Nat :=
  ((runData.get? nodeName).getD []).length

theorem numberOfRuns_push (runData : IRunData V) (name other : String) (taskData : ITaskData V) :
    numberOfRuns (runData.set name ((runData.get? name).getD [] ++ [taskData])) other
      = numberOfRuns runData other + if name = other then 1 else 0 := by
  rw [numberOfRuns, numberOfRuns, OrderedMap.get?_set]
  by_cases h : name = other
  · subst h
    rw [if_pos rfl, if_pos rfl, Option.getD_some, List.length_append]
    rfl
  · rw [if_neg h, if_neg h, Nat.add_zero]

variable (currentNode runIndex executionData) in
theorem requestAction_unknown {r : Requesting P V} {action : EngineAction V}
    (h : r.workflow.nodes.has action.nodeName = false) :
    ∃ message, requestAction currentNode executionData runIndex r action
      = .error (.unexpectedError message) := by
  rw [OrderedMap.has, Option.isSome_eq_false_iff, Option.isNone_iff_eq_none] at h
  rw [requestAction, h]
  exact ⟨_, rfl⟩

variable (currentNode runIndex executionData) in
theorem requestAction_known {r : Requesting P V} {action : EngineAction V}
    (h : r.workflow.nodes.has action.nodeName = true) :
    ∃ r' name, requestAction currentNode executionData runIndex r action
        = .ok r'
      ∧ (∀ other, r'.workflow.nodes.has other = r.workflow.nodes.has other)
      ∧ (∀ other, numberOfRuns r'.runData other
          = numberOfRuns r.runData other + if name = other then 1 else 0) := by
  obtain ⟨node, hnode⟩ := Option.isSome_iff_exists.mp h
  rw [requestAction, hnode]
  refine ⟨_, node.name, rfl, fun other => ?_, fun other => numberOfRuns_push _ _ _ _⟩
  show ((r.workflow.nodes.set _ _).get? other).isSome = _
  rw [OrderedMap.get?_set]
  by_cases hother : action.nodeName = other
  · subst hother
    rw [if_pos rfl]
    exact h.symm
  · rw [if_neg hother]
    rfl

/-! ## All actions -/

variable (currentNode runIndex executionData) in
theorem loop_error (actions : List (EngineAction V)) (r : Requesting P V) :
    if ∀ action ∈ actions, r.workflow.nodes.has action.nodeName = true then
      (prepareRequestedNodesForExecution currentNode executionData runIndex actions r).2 = none
    else ∃ message, (prepareRequestedNodesForExecution currentNode
      executionData runIndex actions r).2 = some (.unexpectedError message) := by
  induction actions generalizing r with
  | nil =>
    rfl
  | cons action rest ih =>
    rcases hhas : r.workflow.nodes.has action.nodeName with _ | _
    · obtain ⟨message, herror⟩ := requestAction_unknown currentNode runIndex executionData hhas
      rw [if_neg (by simp [hhas]), prepareRequestedNodesForExecution, herror]
      exact ⟨message, rfl⟩
    · obtain ⟨r', -, hok, hnames, -⟩ := requestAction_known currentNode runIndex executionData hhas
      have hrest := ih r'
      simp only [hnames] at hrest
      rw [prepareRequestedNodesForExecution, hok]
      simpa only [List.forall_mem_cons, hhas, true_and] using hrest

variable (currentNode runIndex executionData) in
theorem loop_grows (actions : List (EngineAction V)) (r : Requesting P V) (name : String) :
    numberOfRuns r.runData name
      ≤ numberOfRuns (prepareRequestedNodesForExecution currentNode
          executionData runIndex actions r).1.runData name := by
  induction actions generalizing r with
  | nil => exact Nat.le_refl _
  | cons action rest ih =>
    rw [prepareRequestedNodesForExecution]
    rcases hhas : r.workflow.nodes.has action.nodeName with _ | _
    · obtain ⟨message, herror⟩ := requestAction_unknown currentNode runIndex executionData hhas
      rw [herror]
    · obtain ⟨r', reserved, hok, -, hruns⟩ := requestAction_known currentNode
        runIndex executionData hhas
      rw [hok]
      refine Nat.le_trans ?_ (ih r')
      rw [hruns]
      exact Nat.le_add_right _ _

variable (currentNode runIndex executionData) in
theorem loop_grows_first {actions : List (EngineAction V)}
    {r : Requesting P V} {action : EngineAction V}
    (hfirst : actions.head? = some action)
    (h : r.workflow.nodes.has action.nodeName = true) :
    ∃ name, numberOfRuns r.runData name
      < numberOfRuns (prepareRequestedNodesForExecution currentNode
          executionData runIndex actions r).1.runData name := by
  obtain ⟨rest, rfl⟩ := List.head?_eq_some_iff.mp hfirst
  obtain ⟨r', reserved, hok, -, hruns⟩ := requestAction_known currentNode runIndex executionData h
  refine ⟨reserved, ?_⟩
  have hgrows := loop_grows currentNode runIndex executionData rest r' reserved
  rw [hruns, if_pos rfl] at hgrows
  rw [prepareRequestedNodesForExecution, hok]
  exact hgrows

variable (currentNode runIndex executionData) in
theorem loop_stopsAtOnce {actions : List (EngineAction V)} {r : Requesting P V}
    (h : ∀ action, actions.head? = some action → r.workflow.nodes.has action.nodeName = false) :
    (prepareRequestedNodesForExecution currentNode executionData runIndex actions r).1 = r := by
  cases actions with
  | nil => rfl
  | cons action rest =>
    obtain ⟨message, herror⟩ := requestAction_unknown currentNode
      runIndex executionData (h action rfl)
    rw [prepareRequestedNodesForExecution, herror]

end

/-! ## The request -/

section

variable {workflow : Workflow P} {currentNode : INode P}
  {request : EngineRequest V} {runIndex : Nat}
  {executionData : IExecuteData P V} {runData : IRunData V}

/-- The loop over the actions of the request. -/
def loop (workflow : Workflow P) (currentNode : INode P) (request : EngineRequest V)
    (runIndex : Nat) (executionData : IExecuteData P V) (runData : IRunData V) :
    Requesting P V × Option EngineError :=
  prepareRequestedNodesForExecution currentNode executionData runIndex request.actions
    { workflow, runData, nodesToBeExecuted := [], actions := [] }

theorem handleRequest_tables :
    (handleRequest workflow currentNode request runIndex executionData runData).1.runData
      = (loop workflow currentNode request runIndex executionData runData).1.runData
    ∧ (handleRequest workflow currentNode request runIndex executionData runData).1.workflow
      = (loop workflow currentNode request runIndex executionData runData).1.workflow := by
  rw [handleRequest, ← loop]
  rcases loop workflow currentNode request runIndex executionData runData with ⟨requesting, _ | e⟩
  · rcases resumeParent executionData with _ | parentNode
    · exact ⟨rfl, rfl⟩
    · rcases executionData.data.get? .main with _ | main <;>
        exact ⟨rfl, rfl⟩
  · exact ⟨rfl, rfl⟩

theorem fails_or_ignored_iff :
    Fails workflow currentNode request runIndex executionData runData
        ∨ Ignored workflow currentNode request runIndex executionData runData
      ↔ ¬ Valid workflow request executionData := by
  have hloop := loop_error currentNode runIndex executionData request.actions
    { workflow, runData, nodesToBeExecuted := [], actions := [] }
  rw [Fails, Ignored, Valid, handleRequest]
  by_cases hnames : ∀ action ∈ request.actions, workflow.nodes.has action.nodeName = true
  · rw [if_pos hnames] at hloop
    rcases h : prepareRequestedNodesForExecution currentNode executionData runIndex request.actions
        { workflow, runData, nodesToBeExecuted := [], actions := [] }
      with ⟨requesting, error⟩
    rw [h] at hloop
    cases hloop
    rcases resumeParent executionData with _ | parentNode
    · simp
    · rcases executionData.data.get? .main with _ | main <;>
        simpa using hnames
  · rw [if_neg hnames] at hloop
    obtain ⟨message, herror⟩ := hloop
    rcases h : prepareRequestedNodesForExecution currentNode executionData runIndex request.actions
        { workflow, runData, nodesToBeExecuted := [], actions := [] }
      with ⟨requesting, error⟩
    rw [h] at herror
    cases herror
    refine iff_of_true (.inl ⟨message, rfl⟩) ?_
    rintro ⟨hall, -⟩
    exact hnames hall

/-- **ATOMICITY**: a request that fails or is ignored leaves the run data and
    the nodes as they were exactly when its first action is not carried out;
    and a request does neither exactly when it is valid. -/
theorem atomic_iff :
    Atomic workflow currentNode request runIndex executionData runData
      ↔ Valid workflow request executionData ∨ StopsAtOnce workflow request := by
  rw [Atomic, fails_or_ignored_iff, Unchanged, handleRequest_tables.1, handleRequest_tables.2]
  constructor
  · intro hatomic
    by_cases hvalid : Valid workflow request executionData
    · exact .inl hvalid
    · refine .inr fun action hfirst => ?_
      by_contra hknown
      rw [Bool.not_eq_false] at hknown
      -- The placeholder of the first action is still there.
      obtain ⟨name, hmore⟩ := loop_grows_first currentNode runIndex executionData
        (r := { workflow, runData, nodesToBeExecuted := [], actions := [] }) hfirst hknown
      have hsame := (hatomic hvalid).1
      rw [loop] at hsame
      rw [hsame] at hmore
      exact Nat.lt_irrefl _ hmore
  · rintro (hvalid | hstops) hnot
    · exact absurd hvalid hnot
    · have hstart := loop_stopsAtOnce currentNode runIndex executionData
        (r := { workflow, runData, nodesToBeExecuted := [], actions := [] }) hstops
      rw [loop, hstart]
      exact ⟨rfl, rfl⟩

end

/-- A search is reserved before the unknown tool is found. -/
theorem unknown_tool_leaves_placeholder :
    ¬ Atomic (agentWorkflow (some .v1)) agentNode
      { agentRequest with
        actions := agentRequest.actions.take 1 ++
          [{ nodeName := "Unknown", input := .empty, type := .aiTool
             id := "2", itemIndex := none }] }
      0 agentData .empty := by
  intro hatomic
  have hfails : Fails (agentWorkflow (some .v1)) agentNode
      { agentRequest with
        actions := agentRequest.actions.take 1 ++
          [{ nodeName := "Unknown", input := .empty, type := .aiTool
             id := "2", itemIndex := none }] }
      0 agentData .empty := ⟨_, rfl⟩
  exact absurd (hatomic (.inl hfails)).1 (by decide)

end N8nRequestAtomicity
