import N8n.FirstOfEachProofs
import N8n.CrashRecoveryProofs

/-! # Execution recovery — what the log says about a crash

    `amend` goes through the nodes in the order of the workflow and looks for
    the first message that a node has started and the first that it has
    finished.  What it writes is a fact about these two messages of each node
    and about the last node in the workflow (`amendNodes_spec`).  A node that
    crashed in a later run, and nodes that are not listed in the order they
    ran in, are reported wrongly, and nothing else is
    (`reportsCrash_iff`). -/

namespace N8nExecutionRecovery

open N8nOrderedMap N8nEventLog N8nCrashRecovery N8nFirstOfEach List
open N8nDirectedGraph (objectPrototype)

abbrev RunData := OrderedMap String (List TaskData)

/-- `execution.data ?? { resultData: { runData: {} } }` -/
def resultData (execution : Execution) : RunExecutionData := execution.data.getD .empty

def isStarted (nodeName : String) (m : EventMessage) : Bool :=
  m.nodeName = some nodeName && m.eventName = "n8n.node.started"

def isFinished (nodeName : String) (m : EventMessage) : Bool :=
  m.nodeName = some nodeName && m.eventName = "n8n.node.finished"

/-! ## What the loop writes -/

section

/-- The log starts the node, and it has no run data. -/
def isAmended (nodeMessages : List EventMessage) (runData : RunData) (nodeName : String) : Bool :=
  nodeMessages.any (isStarted nodeName) && !hasRunData runData nodeName

/-- The nodes that get run data, in the order of the workflow. -/
def amendedNodes (nodeMessages : List EventMessage) (runData : RunData)
    (nodes : List String) : List String :=
  (nodes.filter (isAmended nodeMessages runData)).eraseDups

/-- The message that is taken for the end of a node. -/
def lastUsed (nodeMessages : List EventMessage) (nodeName : String) : Option EventMessage :=
  nodeMessages.find? (isFinished nodeName) <|> nodeMessages.find? (isStarted nodeName)

def hasFinished (nodeMessages : List EventMessage) (nodeName : String) : Bool :=
  (nodeMessages.find? (isFinished nodeName)).isSome

/-- The data after `names` were amended. -/
structure Amended (nodeMessages : List EventMessage) (r : RunExecutionData)
    (a : RunExecutionData × Option Int) (names : List String) : Prop where
  amended : ∀ name ∈ names, ∃ taskData : TaskData, a.1.runData.get? name = some [taskData]
      ∧ taskData.executionStatus = some
        (if hasFinished nodeMessages name then .success else .crashed)
  others : ∀ name, name ∉ names → a.1.runData.get? name = r.runData.get? name
  error : a.1.error
    = if names.any (fun name => !hasFinished nodeMessages name) then
        some workflowCrashed
      else r.error
  lastNodeExecuted : a.1.lastNodeExecuted = (names.getLast? <|> r.lastNodeExecuted)
  lastNodeRunTimestamp : a.2 = (names.getLast?.bind (lastUsed nodeMessages)).map EventMessage.ts

section

variable (nodeMessages : List EventMessage) (node : String)

theorem findNodeMessage_started :
    findNodeMessage nodeMessages node "n8n.node.started"
      = nodeMessages.find? (isStarted node) := rfl

theorem findNodeMessage_finished :
    findNodeMessage nodeMessages node "n8n.node.finished"
      = nodeMessages.find? (isFinished node) := rfl

end

section

variable {nodeMessages : List EventMessage} {r : RunExecutionData}
  {a : RunExecutionData × Option Int} {names : List String}

variable {nodeName : String}

section

variable (h : Amended nodeMessages r a names)
include h

theorem Amended.not_mem (hdata : hasRunData a.1.runData nodeName = false) : nodeName ∉ names := by
  intro hname
  obtain ⟨taskData, hget, -⟩ := h.amended _ hname
  rw [hasRunData, OrderedMap.has, hget] at hdata
  cases hdata

theorem Amended.amended_set (hnew : nodeName ∉ names) {taskData : TaskData}
    (hstatus : taskData.executionStatus = some
      (if hasFinished nodeMessages nodeName then .success else .crashed)) :
    ∀ name ∈ names ++ [nodeName], ∃ taskData' : TaskData,
      (a.1.runData.set nodeName [taskData]).get? name
          = some [taskData']
        ∧ taskData'.executionStatus = some
          (if hasFinished nodeMessages name then .success
            else .crashed) := by
  intro name hname
  rcases mem_append.mp hname with hname | hname
  · have hne : nodeName ≠ name := fun heq => hnew (heq ▸ hname)
    rw [OrderedMap.get?_set, if_neg hne]
    exact h.amended name hname
  · rw [mem_singleton.mp hname, OrderedMap.get?_set, if_pos rfl]
    exact ⟨taskData, rfl, hstatus⟩

theorem Amended.others_set (nodeName : String) (taskData : TaskData) :
    ∀ name, name ∉ names ++ [nodeName] → (a.1.runData.set nodeName [taskData]).get? name
        = r.runData.get? name := by
  intro name hname
  rw [mem_append, mem_singleton, not_or] at hname
  rw [OrderedMap.get?_set, if_neg (Ne.symm hname.2)]
  exact h.others name hname.1

end

variable {node : String}

theorem Amended.amendNode (h : Amended nodeMessages r a names) {started : EventMessage}
    (hstarted : nodeMessages.find? (isStarted node) = some started)
    (hdata : hasRunData a.1.runData node = false) :
    Amended nodeMessages r (amendNode nodeMessages a node) (names ++ [node]) := by
  have hnew := h.not_mem hdata
  rw [N8nCrashRecovery.amendNode, findNodeMessage_started, hstarted]
  dsimp only
  rw [hdata, if_neg Bool.false_ne_true, findNodeMessage_finished]
  rcases hfinished : nodeMessages.find? (isFinished node) with _ | finished
  · have hno : hasFinished nodeMessages node = false := by
      rw [hasFinished, hfinished]
      rfl
    exact
      { amended := h.amended_set hnew (by rw [hno]; rfl)
        others := h.others_set _ _
        error := by simp [hno]
        lastNodeExecuted := by simp
        lastNodeRunTimestamp := by simp [lastUsed, hfinished, hstarted] }
  · have hyes : hasFinished nodeMessages node = true := by
      rw [hasFinished, hfinished]
      rfl
    exact
      { amended := h.amended_set hnew (by rw [hyes]; rfl)
        others := h.others_set _ _
        error := by simpa [hyes] using h.error
        lastNodeExecuted := by simp
        lastNodeRunTimestamp := by simp [lastUsed, hfinished] }

theorem amendNode_of_not_started (hstarted : nodeMessages.any (isStarted node) = false) :
    amendNode nodeMessages a node = a := by
  have hnone : nodeMessages.find? (isStarted node) = none := by
    refine find?_eq_none.mpr fun m hm hstart => ?_
    exact absurd (any_eq_false.mp hstarted m hm) (not_not.mpr hstart)
  rw [amendNode, findNodeMessage_started, hnone]

theorem amendNode_of_hasRunData (hdata : hasRunData a.1.runData node = true) :
    amendNode nodeMessages a node = a := by
  rw [amendNode, findNodeMessage_started]
  rcases nodeMessages.find? (isStarted node) with _ | started
  · rfl
  · exact if_pos hdata

theorem Amended.hasRunData_eq (h : Amended nodeMessages r a names) (hname : nodeName ∉ names) :
    hasRunData a.1.runData nodeName = hasRunData r.runData nodeName := by
  rw [hasRunData, hasRunData, OrderedMap.has, OrderedMap.has, h.others nodeName hname]

end

theorem mem_amendedNodes {nodeMessages : List EventMessage}
    {runData : RunData} {nodes : List String} {name : String} :
    name ∈ amendedNodes nodeMessages runData nodes
      ↔ name ∈ nodes ∧ isAmended nodeMessages runData name = true := by
  rw [amendedNodes, mem_eraseDups, mem_filter]

/-- **THE LOOP**: it amends the nodes that the log starts and that have no
    run data, each once. -/
theorem amendNodes_spec (nodeMessages : List EventMessage) (r : RunExecutionData)
    (nodes : List String) :
    Amended nodeMessages r (nodes.foldl (amendNode nodeMessages) (r, none))
      (amendedNodes nodeMessages r.runData nodes) := by
  induction nodes using List.reverseRecOn with
  | nil =>
    exact
      { amended := fun name hname => absurd hname not_mem_nil
        others := fun _ _ => rfl
        error := rfl
        lastNodeExecuted := rfl
        lastNodeRunTimestamp := rfl }
  | append_singleton nodes node ih =>
    rw [foldl_append, foldl_cons, foldl_nil]
    generalize nodes.foldl (amendNode nodeMessages) (r, none) = a at ih
    by_cases hamended : isAmended nodeMessages r.runData node
    · have hconcat : amendedNodes nodeMessages r.runData (nodes ++ [node])
          = if node ∈ amendedNodes nodeMessages r.runData nodes then
              amendedNodes nodeMessages r.runData nodes
            else amendedNodes nodeMessages r.runData nodes ++ [node] := by
        rw [amendedNodes, filter_append, filter_cons_of_pos hamended,
          filter_nil, eraseDups_concat, amendedNodes]
        simp
      obtain ⟨hstarted, hdata⟩ := Bool.and_eq_true_iff.mp hamended
      by_cases hname : node ∈ amendedNodes nodeMessages r.runData nodes
      · obtain ⟨taskData, hget, -⟩ := ih.amended _ hname
        have hnow : hasRunData a.1.runData node = true := by
          rw [hasRunData, OrderedMap.has, hget]
          rfl
        rw [hconcat, if_pos hname, amendNode_of_hasRunData hnow]
        exact ih
      · obtain ⟨m, hm, hstart⟩ := any_eq_true.mp hstarted
        obtain ⟨started, hfind⟩ := Option.isSome_iff_exists.mp (find?_isSome.mpr ⟨m, hm, hstart⟩)
        rw [hconcat, if_neg hname]
        refine ih.amendNode hfind ?_
        rw [ih.hasRunData_eq hname]
        simpa using hdata
    · have hconcat : amendedNodes nodeMessages r.runData (nodes ++ [node])
          = amendedNodes nodeMessages r.runData nodes := by
        rw [amendedNodes, filter_append, filter_cons_of_neg hamended,
          filter_nil, append_nil, amendedNodes]
      have hname : node ∉ amendedNodes nodeMessages r.runData nodes :=
        fun hmem => hamended (mem_amendedNodes.mp hmem).2
      have hsame : amendNode nodeMessages a node = a := by
        rcases hstarted : nodeMessages.any (isStarted node) with _ | _
        · exact amendNode_of_not_started hstarted
        · refine amendNode_of_hasRunData ?_
          rw [ih.hasRunData_eq hname]
          simpa [isAmended, hstarted] using hamended
      rw [hconcat, hsame]
      exact ih

end

/-! ## The messages of the nodes -/

theorem isNodeMessage_of_isStarted {nodeName : String} {m : EventMessage}
    (h : isStarted nodeName m = true) : isNodeMessage m = true := by
  have hname := of_decide_eq_true (Bool.and_eq_true_iff.mp h).2
  rw [isNodeMessage, hname]
  decide

theorem isNodeMessage_of_isFinished {nodeName : String} {m : EventMessage}
    (h : isFinished nodeName m = true) : isNodeMessage m = true := by
  have hname := of_decide_eq_true (Bool.and_eq_true_iff.mp h).2
  rw [isNodeMessage, hname]
  decide

theorem find?_nodeMessages {p : EventMessage → Bool}
    (h : ∀ m, p m = true → isNodeMessage m = true) (messages : List EventMessage) :
    (messages.filter isNodeMessage).find? p = messages.find? p := by
  rw [find?_filter]
  congr 1
  funext m
  rcases hp : p m with _ | _
  · simp
  · simp [h m hp]

section

variable (messages : List EventMessage)

theorem hasFinished_nodeMessages (nodeName : String) :
    hasFinished (messages.filter isNodeMessage) nodeName = hasFinished messages nodeName := by
  rw [hasFinished, hasFinished, find?_nodeMessages fun _ => isNodeMessage_of_isFinished]

theorem lastUsed_nodeMessages (nodeName : String) :
    lastUsed (messages.filter isNodeMessage) nodeName = lastUsed messages nodeName := by
  rw [lastUsed, lastUsed, find?_nodeMessages fun _ => isNodeMessage_of_isFinished,
    find?_nodeMessages fun _ => isNodeMessage_of_isStarted]

theorem amendedNodes_nodeMessages (runData : RunData) (nodes : List String) :
    amendedNodes (messages.filter isNodeMessage) runData nodes
      = amendedNodes messages runData nodes := by
  have hany : ∀ name, (messages.filter isNodeMessage).any (isStarted name)
      = messages.any (isStarted name) := by
    intro name
    rw [← isSome_find?, ← isSome_find?, find?_nodeMessages fun _ => isNodeMessage_of_isStarted]
  have hsame : isAmended (messages.filter isNodeMessage) runData = isAmended messages runData := by
    funext name
    rw [isAmended, isAmended, hany]
  rw [amendedNodes, amendedNodes, hsame]

end

section

variable {now : Int} {executions : Executions} {executionId : ExecutionId}
  {messages : List EventMessage} {execution amended : Execution}

theorem amendWithoutLogs_resultData (hfind : executions.find executionId = some execution)
    (h : (amendWithoutLogs now executions executionId).2 = some amended) :
    resultData amended = resultData execution := by
  rw [amendWithoutLogs, hfind] at h
  have hget := (Option.filter_eq_some_iff.mp hfind).1
  dsimp only at h
  rw [Executions.find, markAsCrashed_get?, hget, Option.map_some,
    if_pos (mem_singleton.mpr rfl)] at h
  cases (Option.filter_eq_some_iff.mp h).1
  rfl

/-- **AMENDING**: what is in the amended execution, whatever was stored. -/
theorem amend_spec (hfind : executions.find executionId = some execution)
    (h : (amend now executions executionId messages).2 = some amended) :
    ∃ a, Amended messages (resultData execution) a
        (amendedNodes messages (resultData execution).runData execution.nodes)
      ∧ resultData amended = a.1
      ∧ ∀ ts, a.2 = some ts → amended.stoppedAt = some ts := by
  rw [amend] at h
  by_cases hempty : messages.length = 0
  · rw [if_pos hempty] at h
    rw [eq_nil_of_length_eq_zero hempty]
    refine ⟨(resultData execution, none), ?_,
      amendWithoutLogs_resultData hfind h, fun ts hts => by cases hts⟩
    have hnone : amendedNodes [] (resultData execution).runData execution.nodes = [] := by
      refine eq_nil_iff_forall_not_mem.mpr fun name hname => ?_
      have hstarted := (mem_amendedNodes.mp hname).2
      cases hstarted
    rw [hnone]
    exact
      { amended := fun name hname => absurd hname not_mem_nil
        others := fun _ _ => rfl
        error := rfl
        lastNodeExecuted := rfl
        lastNodeRunTimestamp := rfl }
  · rw [if_neg hempty] at h
    dsimp only at h
    split at h
    · cases h
    · rw [hfind] at h
      dsimp only at h
      split at h
      · cases h
      · cases h
        have hspec := amendNodes_spec (messages.filter isNodeMessage)
          (resultData execution) execution.nodes
        rw [amendedNodes_nodeMessages] at hspec
        refine ⟨_, ?_, rfl, fun ts hts => ?_⟩
        · exact
            { amended := fun name hname => by
                rw [← hasFinished_nodeMessages]
                exact hspec.amended name hname
              others := hspec.others
              error := by
                simp only [← hasFinished_nodeMessages messages]
                exact hspec.error
              lastNodeExecuted := hspec.lastNodeExecuted
              lastNodeRunTimestamp := by
                refine hspec.lastNodeRunTimestamp.trans ?_
                congr 2
                funext name
                exact lastUsed_nodeMessages messages name }
        · rw [hts]
          rfl

end

/-! ## Reporting the crash where it happened -/

section

/-- The last started message of the node has no finished message after it. -/
def LeftRunning (messages : List EventMessage) (nodeName : String) : Prop :=
  ∃ before m after, messages = before ++ m :: after
    ∧ isStarted nodeName m = true
    ∧ ∀ m' ∈ after, isStarted nodeName m' = false ∧ isFinished nodeName m' = false

def IsCrashed (r : RunExecutionData) (nodeName : String) : Prop :=
  ∃ taskData, r.runData.get? nodeName = some [taskData] ∧ taskData.executionStatus = some .crashed

/-- A node of the workflow that had no run data and now has. -/
def IsAmended (execution amended : Execution) (nodeName : String) : Prop :=
  nodeName ∈ execution.nodes
    ∧ (resultData execution).runData.get? nodeName = none
    ∧ (resultData amended).runData.get? nodeName ≠ none

/-- A message that one of the nodes has started or finished. -/
def IsEventOf (nodes : String → Prop) (m : EventMessage) : Prop :=
  ∃ nodeName, nodes nodeName ∧ (isStarted nodeName m = true ∨ isFinished nodeName m = true)

def IsLatestEvent (nodes : String → Prop) (messages : List EventMessage)
    (m : EventMessage) : Prop :=
  ∃ before after, messages = before ++ m :: after ∧ IsEventOf nodes m
    ∧ ∀ m' ∈ after, ¬ IsEventOf nodes m'

/-- The first started and the first finished message of each of the nodes. -/
def IsUsed (nodes : String → Prop) (messages : List EventMessage) (m : EventMessage) : Prop :=
  ∃ nodeName, nodes nodeName
    ∧ (messages.find? (isStarted nodeName) = some m ∨ messages.find? (isFinished nodeName) = some m)

structure ReportsCrash (messages : List EventMessage)
    (execution amended : Execution) : Prop where
  crashed : ∀ node ∈ execution.nodes, (resultData execution).runData.get? node = none →
      (IsCrashed (resultData amended) node ↔ LeftRunning messages node)
  error : (∃ nodeName, IsAmended execution amended nodeName
      ∧ IsCrashed (resultData amended) nodeName) → (resultData amended).error = some workflowCrashed
  noError : (¬ ∃ nodeName, IsAmended execution amended nodeName
      ∧ IsCrashed (resultData amended) nodeName) →
    (resultData amended).error = (resultData execution).error
  lastNodeExecuted : ∀ m, IsLatestEvent (IsAmended execution amended) messages m →
      (resultData amended).lastNodeExecuted = m.nodeName
  stoppedAt : ∀ m, IsUsed (IsAmended execution amended) messages m →
    ∃ ts, amended.stoppedAt = some ts ∧ m.ts ≤ ts

/-- The condition.  A node without run data that the log leaves running has
    never finished, and is not named like something every object has.  Of
    the nodes that the log starts and that have no run data, the one that
    comes last in the workflow has the latest event, and its first finished
    message, or else its first started message, is not earlier than such
    messages of the others. -/
structure ListedInOrder (messages : List EventMessage)
    (execution : Execution) : Prop where
  crashed : ∀ node ∈ execution.nodes, (resultData execution).runData.get? node = none →
      LeftRunning messages node → node ∉ objectPrototype ∧ hasFinished messages node = false
  latest : ∀ m, IsLatestEvent (fun nodeName => nodeName ∈ amendedNodes
        messages (resultData execution).runData execution.nodes) messages m →
      (amendedNodes messages (resultData execution).runData execution.nodes).getLast? = m.nodeName
  stopped : ∀ m, IsUsed (fun nodeName => nodeName ∈ amendedNodes
        messages (resultData execution).runData execution.nodes) messages m →
      ∃ last, (amendedNodes messages (resultData execution).runData
          execution.nodes).getLast?.bind (lastUsed messages) = some last
        ∧ m.ts ≤ last.ts

variable {nodeName : String}

theorem LeftRunning.started {messages : List EventMessage} (h : LeftRunning messages nodeName) :
    messages.any (isStarted nodeName) = true := by
  obtain ⟨before, m, after, hmessages, hstarted, -⟩ := h
  rw [hmessages]
  exact any_eq_true.mpr ⟨m, mem_append_right _ (mem_cons_self ..), hstarted⟩

theorem LeftRunning.of_never_finished {messages : List EventMessage}
    (hstarted : messages.any (isStarted nodeName) = true)
    (hno : hasFinished messages nodeName = false) :
    LeftRunning messages nodeName := by
  have hunfinished : ∀ m ∈ messages, isFinished nodeName m = false := by
    intro m hm
    rcases hf : isFinished nodeName m with _ | _
    · rfl
    · have hsome : hasFinished messages nodeName = true :=
        find?_isSome.mpr ⟨m, hm, hf⟩
      rw [hno] at hsome
      cases hsome
  -- the last started message, from the end of the log
  induction messages using List.reverseRecOn with
  | nil => cases hstarted
  | append_singleton messages m ih =>
    rcases hm : isStarted nodeName m with _ | _
    · have hearlier : messages.any (isStarted nodeName) = true := by
        simpa [hm] using hstarted
      have hnone : hasFinished messages nodeName = false := by
        rw [hasFinished, Option.isSome_eq_false_iff, Option.isNone_iff_eq_none]
        refine find?_eq_none.mpr fun m' hm' hf => ?_
        rw [hunfinished m' (mem_append_left _ hm')] at hf
        cases hf
      obtain ⟨before, m', after, hmessages, hstart, hafter⟩ :=
        ih hearlier hnone fun m' hm' =>
          hunfinished m' (mem_append_left _ hm')
      refine ⟨before, m', after ++ [m], ?_, hstart, ?_⟩
      · rw [hmessages, append_assoc, cons_append]
      · intro x hx
        rcases mem_append.mp hx with hx | hx
        · exact hafter x hx
        · rw [mem_singleton.mp hx]
          exact ⟨hm, hunfinished m (mem_append_right _ (mem_singleton.mpr rfl))⟩
    · exact ⟨messages, m, [], rfl, hm, fun x hx =>
        absurd hx not_mem_nil⟩

variable {messages : List EventMessage} {execution amended : Execution}
  {a : RunExecutionData × Option Int} {nodes : List String}
  {r : RunExecutionData}

theorem Amended.isCrashed_iff {names : List String} (h : Amended messages r a names)
    (hnew : r.runData.get? nodeName = none) :
    IsCrashed a.1 nodeName ↔ nodeName ∈ names ∧ hasFinished messages nodeName = false := by
  by_cases hname : nodeName ∈ names
  · obtain ⟨taskData, hget, hstatus⟩ := h.amended nodeName hname
    constructor
    · rintro ⟨taskData', hget', hcrashed⟩
      rw [hget] at hget'
      cases hget'
      rw [hstatus] at hcrashed
      refine ⟨hname, ?_⟩
      rcases hf : hasFinished messages nodeName with _ | _
      · rfl
      · rw [hf] at hcrashed
        cases hcrashed
    · rintro ⟨-, hf⟩
      rw [hf] at hstatus
      exact ⟨taskData, hget, hstatus⟩
  · constructor
    · rintro ⟨taskData, hget, -⟩
      rw [h.others nodeName hname, hnew] at hget
      cases hget
    · exact fun hmem => absurd hmem.1 hname

theorem get?_of_isAmended {runData : RunData} (h : isAmended messages runData nodeName = true) :
    runData.get? nodeName = none ∧ nodeName ∉ objectPrototype := by
  have hdata := (Bool.and_eq_true_iff.mp h).2
  rw [Bool.not_eq_true', hasRunData, Bool.or_eq_false_iff, OrderedMap.has,
    Option.isSome_eq_false_iff, Option.isNone_iff_eq_none] at hdata
  exact ⟨hdata.1, by simpa using hdata.2⟩

section

variable (h : Amended messages (resultData execution) a
  (amendedNodes messages (resultData execution).runData execution.nodes))
  (hdata : resultData amended = a.1)
include h hdata

theorem Amended.isAmended_iff :
    IsAmended execution amended nodeName ↔ nodeName ∈ amendedNodes messages
      (resultData execution).runData execution.nodes := by
  rw [IsAmended, hdata]
  constructor
  · rintro ⟨-, hnone, hsome⟩
    by_contra hname
    rw [h.others nodeName hname] at hsome
    exact hsome hnone
  · intro hname
    obtain ⟨hnode, hamended⟩ := mem_amendedNodes.mp hname
    obtain ⟨taskData, hget, -⟩ := h.amended nodeName hname
    refine ⟨hnode, (get?_of_isAmended hamended).1, ?_⟩
    rw [hget]
    exact Option.some_ne_none _

theorem Amended.error_eq : ((∃ nodeName, IsAmended execution amended nodeName
        ∧ IsCrashed (resultData amended) nodeName) →
      (resultData amended).error = some workflowCrashed)
    ∧ ((¬ ∃ nodeName, IsAmended execution amended nodeName
        ∧ IsCrashed (resultData amended) nodeName) →
      (resultData amended).error = (resultData execution).error) := by
  have hany : (∃ nodeName, IsAmended execution amended nodeName
        ∧ IsCrashed (resultData amended) nodeName)
      ↔ (amendedNodes messages (resultData execution).runData
        execution.nodes).any (fun name => !hasFinished messages name)
          = true := by
    rw [any_eq_true]
    refine exists_congr fun nodeName => ?_
    rw [h.isAmended_iff hdata, hdata, Bool.not_eq_true']
    refine and_congr_right fun hname => ?_
    have hnew := (get?_of_isAmended (mem_amendedNodes.mp hname).2).1
    rw [h.isCrashed_iff hnew]
    exact and_iff_right hname
  rw [hany, hdata, h.error]
  exact ⟨fun hsome => if_pos hsome, fun hnone => if_neg hnone⟩

end

theorem IsLatestEvent.getLast? {names : List String} {m : EventMessage}
    (h : IsLatestEvent (fun nodeName => nodeName ∈ names) messages m) :
    ∃ last, names.getLast? = some last := by
  obtain ⟨before, after, -, ⟨nodeName, hname, -⟩, -⟩ := h
  exact ⟨_, getLast?_eq_some_getLast (ne_nil_of_mem hname)⟩

theorem lastUsed_of_isAmended {runData : RunData} (h : isAmended messages runData nodeName = true) :
    ∃ last, lastUsed messages nodeName = some last := by
  rw [lastUsed]
  rcases messages.find? (isFinished nodeName) with _ | finished
  · have hstarted := (Bool.and_eq_true_iff.mp h).1
    rw [← isSome_find?] at hstarted
    exact Option.isSome_iff_exists.mp hstarted
  · exact ⟨finished, rfl⟩

theorem Amended.last (h : Amended messages r a (amendedNodes messages r.runData nodes))
    (hname : nodeName ∈ amendedNodes messages r.runData nodes) :
    ∃ last, (amendedNodes messages r.runData nodes).getLast?.bind (lastUsed messages) = some last
      ∧ a.2 = some last.ts := by
  have hlast := getLast?_eq_some_getLast (ne_nil_of_mem hname)
  have hmem := getLast_mem (ne_nil_of_mem hname)
  obtain ⟨last, hused⟩ := lastUsed_of_isAmended (mem_amendedNodes.mp hmem).2
  have hbind : (amendedNodes messages r.runData nodes).getLast?.bind
      (lastUsed messages) = some last := by
    rw [hlast]
    exact hused
  refine ⟨last, hbind, ?_⟩
  rw [h.lastNodeRunTimestamp, hbind]
  rfl

/-- **REPORTED WHERE IT HAPPENED**: exactly when the nodes are listed in the
    order of their events and no node crashed after it had finished once. -/
theorem reportsCrash_iff {now : Int} {executions : Executions} {executionId : ExecutionId}
    (hfind : executions.find executionId = some execution)
    (h : (amend now executions executionId messages).2 = some amended) :
    ReportsCrash messages execution amended ↔ ListedInOrder messages execution := by
  obtain ⟨a, hspec, hdata, hstopped⟩ := amend_spec hfind h
  have hamended : IsAmended execution amended
      = fun nodeName => nodeName ∈ amendedNodes messages
        (resultData execution).runData execution.nodes :=
    funext fun _ => propext (hspec.isAmended_iff hdata)
  constructor
  · intro hreports
    constructor
    · intro node hnode hnew hrunning
      have hcrashed := (hreports.crashed node hnode hnew).mpr hrunning
      rw [hdata, hspec.isCrashed_iff hnew] at hcrashed
      exact ⟨(get?_of_isAmended (mem_amendedNodes.mp hcrashed.1).2).2, hcrashed.2⟩
    · intro m hm
      obtain ⟨last, hlast⟩ := hm.getLast?
      have hnamed := hreports.lastNodeExecuted m (hamended ▸ hm)
      rw [hdata, hspec.lastNodeExecuted, hlast] at hnamed
      rw [hlast]
      exact hnamed
    · intro m hm
      obtain ⟨nodeName, hname, -⟩ := id hm
      obtain ⟨last, hlast, htime⟩ := hspec.last hname
      obtain ⟨ts, hts, hle⟩ := hreports.stoppedAt m (hamended ▸ hm)
      rw [hstopped _ htime] at hts
      cases hts
      exact ⟨last, hlast, hle⟩
  · intro hlisted
    obtain ⟨herror, hnoError⟩ := hspec.error_eq hdata
    refine ⟨fun node hnode hnew => ?_, herror, hnoError, fun m hm => ?_, fun m hm => ?_⟩
    · rw [hdata, hspec.isCrashed_iff hnew]
      constructor
      · rintro ⟨hname, hno⟩
        have hstarted := (Bool.and_eq_true_iff.mp (mem_amendedNodes.mp hname).2).1
        exact .of_never_finished hstarted hno
      · intro hrunning
        obtain ⟨hown, hno⟩ := hlisted.crashed node hnode hnew hrunning
        refine ⟨mem_amendedNodes.mpr ⟨hnode, ?_⟩, hno⟩
        rw [isAmended, hrunning.started, hasRunData, OrderedMap.has, hnew]
        simpa using hown
    · rw [hamended] at hm
      obtain ⟨last, hlast⟩ := hm.getLast?
      have hnamed := hlisted.latest m hm
      rw [hlast] at hnamed
      rw [hdata, hspec.lastNodeExecuted, hlast]
      exact hnamed
    · rw [hamended] at hm
      obtain ⟨last, hlast, hle⟩ := hlisted.stopped m hm
      refine ⟨last.ts, hstopped _ ?_, hle⟩
      rw [hspec.lastNodeRunTimestamp, hlast]
      rfl

end

/-! ## A node that runs twice -/

def started (nodeName : String) (ts : Int) : EventMessage :=
  message .node "n8n.node.started" ts (some nodeName)

def finished (nodeName : String) (ts : Int) : EventMessage :=
  message .node "n8n.node.finished" ts (some nodeName)

/-- The execution with id `"1"`, of a workflow with the node Webhook. -/
def running : Execution :=
  { workflowId := "A"
    status := .running
    startedAt := 0
    stoppedAt := some 2
    deletedAt := none
    waitTill := none
    isManualMode := false
    nodes := ["Webhook"]
    saveSettings := { error := true, success := true, manual := true }
    data := none }

def amendedOf (messages : List EventMessage) : Execution :=
  ((amend 10 (stored .running none) "1" messages).2).getD running

def firstRun : List EventMessage := [started "Webhook" 1]

/-- A node that crashes in its first run. -/
theorem reportsCrash_first_run : (stored .running none).find "1" = some running
      ∧ (amend 10 (stored .running none) "1" firstRun).2 = some (amendedOf firstRun)
      ∧ ReportsCrash firstRun running (amendedOf firstRun) := by
  have hamend : (amend 10 (stored .running none) "1" firstRun).2
      = some (amendedOf firstRun) := by decide +kernel
  refine ⟨rfl, hamend, (reportsCrash_iff rfl hamend).mpr ⟨?_, ?_, ?_⟩⟩
  · intro node hnode _ _
    rw [mem_singleton.mp hnode]
    decide
  · rintro m ⟨before, after, hmessages, -, -⟩
    have hm : m ∈ firstRun := by
      rw [hmessages]
      exact mem_append_right _ (mem_cons_self ..)
    rw [mem_singleton.mp hm]
    decide
  · rintro m ⟨nodeName, -, hfirst | hfirst⟩
    all_goals
      have hm := mem_of_find?_eq_some hfirst
      rw [mem_singleton.mp hm]
      exact ⟨started "Webhook" 1, by decide, Int.le_refl _⟩

def secondRun : List EventMessage :=
  [started "Webhook" 1, finished "Webhook" 2, started "Webhook" 3]

/-- A node that crashes in its second run is marked as a success. -/
theorem not_reportsCrash_second_run : (secondRun.Pairwise fun m m' => m.ts ≤ m'.ts)
      ∧ (stored .running none).find "1" = some running
      ∧ (amend 10 (stored .running none) "1" secondRun).2 = some (amendedOf secondRun)
      ∧ ¬ ReportsCrash secondRun running (amendedOf secondRun) := by
  refine ⟨by decide, rfl, by decide +kernel, fun h => ?_⟩
  have hrunning : LeftRunning secondRun "Webhook" :=
    ⟨[started "Webhook" 1, finished "Webhook" 2], started "Webhook" 3, [],
      rfl, by decide, fun m hm => absurd hm not_mem_nil⟩
  obtain ⟨taskData, hget, hcrashed⟩ :=
    (h.crashed "Webhook" (mem_singleton.mpr rfl) rfl).mpr hrunning
  have hsuccess : ((resultData (amendedOf secondRun)).runData.get?
        "Webhook").map (fun l => l.map TaskData.executionStatus)
      = some [some .success] := by
    decide +kernel
  rw [hget] at hsuccess
  cases hcrashed.symm.trans (by simpa using hsuccess)

end N8nExecutionRecovery
