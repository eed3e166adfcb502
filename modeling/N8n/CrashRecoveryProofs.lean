import Mathlib.Data.List.Sort
import N8n.DirectedGraphProofs
import N8n.EventLogProofs

/-! # Crash recovery — what a start does to executions that have ended

    When an instance starts, the event bus takes the executions that the log
    leaves unfinished, and those stored as running, and marks them as crashed
    or recovers their data from the log.  An execution may well have ended
    although the log lists it.  `amend` looks for that, the simple mode and
    the run after an interrupted recovery do not.

    `recovery_leaves_ended_iff` gives the executions for which this matters,
    together with the condition under which the log lists none that has
    ended. -/

namespace N8nCrashRecovery

open N8nOrderedMap N8nEventLog List OrderedMap
open N8nDirectedGraph (objectPrototype)

abbrev WorkflowId := String

/-! ## Stored executions -/

inductive ExecutionStatus where
  | canceled | crashed | error | new | running | success | unknown | waiting
deriving DecidableEq

/-- The executions that have ended and are not to be touched. -/
def Ended (status : ExecutionStatus) : Prop := status ∈ [.success, .error, .canceled]

instance (status : ExecutionStatus) : Decidable (Ended status) :=
  inferInstanceAs (Decidable (_ ∈ _))

/-- `artificial` says that the output stands in for one that is lost. -/
structure TaskData where
  startTime : Int
  executionIndex : Nat
  executionTime : Int
  executionStatus : Option ExecutionStatus
  artificial : Bool
  error : Option String
deriving DecidableEq

structure RunExecutionData where
  runData : OrderedMap String (List TaskData)
  lastNodeExecuted : Option String
  error : Option String
deriving DecidableEq

def RunExecutionData.empty : RunExecutionData :=
  { runData := .empty, lastNodeExecuted := none, error := none }

structure SaveSettings where
  error : Bool
  success : Bool
  manual : Bool
deriving DecidableEq

/-- A row of the execution table with its data; `data` is what the stored
    text parses to.  `nodes` and `saveSettings` are those of the workflow it
    ran. -/
structure Execution where
  workflowId : WorkflowId
  status : ExecutionStatus
  startedAt : Int
  stoppedAt : Option Int
  deletedAt : Option Int
  waitTill : Option Int
  isManualMode : Bool
  nodes : List String
  saveSettings : SaveSettings
  data : Option RunExecutionData
deriving DecidableEq

abbrev Executions := OrderedMap ExecutionId Execution

/-- A workflow: whether it has an active version. -/
abbrev Workflows := OrderedMap WorkflowId Bool

namespace Executions

def update (executions : Executions) (executionId : ExecutionId)
    (f : Execution → Execution) : Executions :=
  match executions.get? executionId with
  | none => executions
  | some execution => executions.set executionId (f execution)

/-- What a query finds: a soft-deleted row is none. -/
def find (executions : Executions) (executionId : ExecutionId) : Option Execution :=
  (executions.get? executionId).filter fun execution =>
    execution.deletedAt.isNone

def MAX_UPDATE_BATCH_SIZE : Nat := 900

/-- The batches of `markAsCrashed`; each has at least one id, so there are
    not more of them than ids. -/
def batches : Nat → List ExecutionId → List (List ExecutionId)
  | 0, _ => []
  | n + 1, ids =>
    if ids = [] then []
    else ids.take MAX_UPDATE_BATCH_SIZE :: batches n (ids.drop MAX_UPDATE_BATCH_SIZE)

/-- `update({ id: In(batch) }, …)`. -/
def markBatch (now : Int) (executions : Executions) (batch : List ExecutionId) : Executions :=
  executions.map fun executionId execution =>
    if executionId ∈ batch then
      { execution with status := .crashed, stoppedAt := some now }
    else execution

def markAsCrashed (now : Int) (executions : Executions)
    (executionIds : List ExecutionId) : Executions :=
  (batches executionIds.length executionIds).foldl (markBatch now) executions

end Executions

/-! ## Recovering one execution -/

/-- `toStoppedAt`. -/
def toStoppedAt (timestamp : Option Int) (messages : List EventMessage) : Option Int :=
  match timestamp with
  | some timestamp => some timestamp
  | none =>
    ((messages.find? fun m => m.eventName ∈ ["n8n.workflow.success",
        "n8n.workflow.crashed", "n8n.workflow.failed"]).or
      (messages.find? fun m => m.eventName = "n8n.workflow.started")).map EventMessage.ts

def isWorkflowMessage (msg : EventMessage) : Bool :=
  "n8n.workflow.".toList.isPrefixOf msg.eventName.toList

def findNodeMessage (nodeMessages : List EventMessage) (node : String)
    (eventName : String) : Option EventMessage :=
  nodeMessages.find? fun m =>
    m.nodeName = some node && m.eventName = eventName

/-- The message of a `WorkflowCrashedError`. -/
def workflowCrashed : String := "Workflow did not finish, possible out-of-memory issue"

/-- `runData[node.name] !== undefined`: an inherited name is there, too. -/
def hasRunData (runData : OrderedMap String (List TaskData)) (node : String) : Bool :=
  runData.has node || objectPrototype.contains node

/-- The loop of `amend` over the nodes of the workflow, for one of them. -/
def amendNode (nodeMessages : List EventMessage)
    (acc : RunExecutionData × Option Int) (node : String) :
    RunExecutionData × Option Int :=
  match findNodeMessage nodeMessages node "n8n.node.started" with
  | none => acc
  | some started =>
    -- Progress that was saved is kept.
    if hasRunData acc.1.runData node then acc
    else
      let taskData : TaskData :=
        { startTime := started.ts / 1000
          executionIndex := 0
          executionTime := -1
          executionStatus := none
          artificial := false
          error := none }
      match findNodeMessage nodeMessages node "n8n.node.finished" with
      | some finished =>
        ({ acc.1 with
            lastNodeExecuted := some node
            runData := acc.1.runData.set node
              [{ taskData with
                  executionStatus := some .success
                  artificial := true
                  executionTime := finished.ts - started.ts }] },
          some finished.ts)
      | none =>
        ({ acc.1 with
            error := some workflowCrashed
            lastNodeExecuted := some node
            runData := acc.1.runData.set node
              [{ taskData with
                  executionStatus := some .crashed
                  executionTime := 0
                  error := some "Execution stopped at this node" }] },
          some started.ts)

def amendWithoutLogs (now : Int) (executions : Executions)
    (executionId : ExecutionId) : Executions × Option Execution :=
  match executions.find executionId with
  | none => (executions, none)
  | some _ =>
    let executions := executions.markAsCrashed now [executionId]
    (executions, executions.find executionId)

def amend (now : Int) (executions : Executions) (executionId : ExecutionId)
    (messages : List EventMessage) : Executions × Option Execution :=
  if messages.length = 0 then amendWithoutLogs now executions executionId
  else
    let nodeMessages := messages.filter isNodeMessage
    let workflowMessages := messages.filter fun m =>
      !isNodeMessage m && isWorkflowMessage m
    if nodeMessages.length = 0 then (executions, none)
    else
      match executions.find executionId with
      | none => (executions, none)
      | some execution =>
        if Ended execution.status ∧ execution.data.isSome = true then
          (executions, none)
        else
          let (data, timestamp) := execution.nodes.foldl
            (amendNode nodeMessages) (execution.data.getD .empty, none)
          (executions, some
            { execution with
              status := if execution.status = .error then .error
                else .crashed
              stoppedAt := toStoppedAt timestamp workflowMessages
              data := some data })

/-- The columns of the amended execution are written, and its data if it has
    any. -/
def updateExistingExecution (executions : Executions)
    (executionId : ExecutionId) (amended : Execution) : Executions :=
  executions.update executionId fun execution =>
    { amended with
      startedAt := execution.startedAt
      workflowId := execution.workflowId
      data := amended.data.or execution.data }

def determineFinalExecutionStatus (run : Execution) : ExecutionStatus :=
  if run.waitTill.isSome then .waiting
  else
    match run.status with
    | .canceled => .canceled
    | .crashed => .crashed
    | .error => .error
    | _ => if (run.data.bind (·.error)).isNone then .success else .error

/-- What the hooks of a finished execution do to its row: it is saved, or
    deleted where the workflow says so. -/
def runHooks (now : Int) (executions : Executions)
    (executionId : ExecutionId) (amended : Execution) : Executions :=
  let run := { amended with data := some (amended.data.getD .empty) }
  let status := determineFinalExecutionStatus run
  if run.isManualMode && !run.saveSettings.manual && run.waitTill.isNone then
    executions.update executionId fun execution =>
      { execution with deletedAt := some now }
  else
    let shouldNotSave :=
      (status = .success && !run.saveSettings.success)
        || (status ≠ .success && !run.saveSettings.error)
    if shouldNotSave && run.waitTill.isNone && !run.isManualMode then
      executions.delete executionId
    else
      executions.update executionId fun execution =>
        { execution with status, data := run.data }

def recoverFromLogs (now : Int) (isFollower : Bool) (executions : Executions)
    (executionId : ExecutionId) (messages : List EventMessage) : Executions × Option Execution :=
  if isFollower then (executions, none)
  else
    match amend now executions executionId messages with
    | (executions, none) => (executions, none)
    | (executions, some amended) =>
      (runHooks now (updateExistingExecution executions executionId amended)
          executionId amended, some amended)

/-! ## The start -/

inductive CrashRecoveryMode where
  | simple | advanced
deriving DecidableEq

structure Config where
  skipRecoveryPass : Bool
  isQueueMode : Bool
  crashRecoveryMode : CrashRecoveryMode
  isFollower : Bool
  workflowDeactivationEnabled : Bool
  maxLastExecutions : Nat

/-- What a start finds: the log files that are read, the oldest first, the
    flag file of a recovery, and the tables. -/
structure Instance where
  isInitialized : Bool
  files : List (List Line)
  recoveryInProgress : Bool
  executions : Executions
  workflows : Workflows

def lastExecutions (executions : Executions) (workflowId : WorkflowId)
    (count : Nat) : List Execution :=
  (((executions.entries.map Prod.snd).filter fun execution =>
      execution.workflowId = workflowId && execution.deletedAt.isNone).insertionSort
    fun a b => b.startedAt ≤ a.startedAt).take count

/-- One turn of the loop: a workflow whose last executions all crashed. -/
def autoDeactivate (now : Int) (maxLastExecutions : Nat)
    (s : Executions × Workflows) (workflowId : WorkflowId) :
    Executions × Workflows :=
  let last := lastExecutions s.1 workflowId maxLastExecutions
  if maxLastExecutions ≤ last.length
      ∧ last.all (fun e => e.status = .crashed) = true then
    match s.2.get? workflowId with
    | none => s
    | some _ =>
      (s.1.map fun _ execution =>
          if execution.workflowId = workflowId
              ∧ (execution.status = .running ∨ execution.status = .new) then
            { execution with status := .crashed, stoppedAt := some now }
          else execution,
        s.2.set workflowId false)
  else s

/-- The ids that the log or, outside of queue mode, the table gives. -/
def unfinishedExecutionIds (config : Config) (s : Instance) : List ExecutionId :=
  let logged := (getMessages .unsent s.files).unfinishedExecutions.keys
  if config.isQueueMode then logged
  else
    let stored := (s.executions.entries.filter fun p =>
      (p.2.status = .running || p.2.status = .unknown) && p.2.deletedAt.isNone).map Prod.fst
    logged ++ stored.filter fun executionId => executionId ∉ logged

/-- The loop of the recovery, with the workflows of crashed executions. -/
def recoverAll (now : Int) (isFollower : Bool) (unfinished : Unfinished)
    (s : Executions × List WorkflowId) (executionId : ExecutionId) :
    Executions × List WorkflowId :=
  match recoverFromLogs now isFollower s.1 executionId ((unfinished.get? executionId).getD []) with
  | (executions, some recovered) =>
    (executions, if recovered.status = .crashed then
      s.2 ++ [recovered.workflowId] else s.2)
  | (executions, none) => (executions, s.2)

def initializeEventBus (now : Int) (config : Config) (s : Instance) : Instance :=
  if s.isInitialized then s
  else if config.skipRecoveryPass then { s with isInitialized := true }
  else
    let ids := unfinishedExecutionIds config s
    if ids.length = 0 then { s with isInitialized := true }
    else if s.recoveryInProgress ∨ config.crashRecoveryMode = .simple then
      { s with
        isInitialized := true
        recoveryInProgress := false
        executions := s.executions.markAsCrashed now ids }
    else
      let unfinished := (getMessages .unsent s.files).unfinishedExecutions
      let (executions, crashedWorkflowIds) := ids.foldl
        (recoverAll now config.isFollower unfinished) (s.executions, [])
      let (executions, workflows) :=
        if config.workflowDeactivationEnabled then
          crashedWorkflowIds.dedup.foldl (autoDeactivate now config.maxLastExecutions)
            (executions, s.workflows)
        else (executions, s.workflows)
      { s with
        isInitialized := true
        recoveryInProgress := false
        executions
        workflows }

/-! ## The property and the condition -/

/-- Every execution that has ended has its status and data afterwards. -/
def LeavesEnded (now : Int) (config : Config) (s : Instance) : Prop :=
  ∀ executionId execution, s.executions.get? executionId = some execution →
    Ended execution.status → ∃ execution',
      (initializeEventBus now config s).executions.get? executionId = some execution'
      ∧ execution'.status = execution.status
      ∧ execution'.data = execution.data

/-- The condition on the executions that have ended.  Where all are marked
    as crashed, the log must not leave one open.  Where they are recovered,
    it must have no node event for one without data. -/
def EndedNotRecovered (config : Config) (s : Instance) : Prop :=
  s.isInitialized = false → config.skipRecoveryPass = false → ∀ executionId execution,
      s.executions.get? executionId = some execution → Ended execution.status →
      if s.recoveryInProgress ∨ config.crashRecoveryMode = .simple then
        ¬ StaysSet Opens Closes (eventsOf executionId s.files.flatten)
      else
        config.isFollower = true ∨ execution.deletedAt.isSome = true
          ∨ execution.data.isSome = true
          ∨ ¬ StaysSet NodeEvent (fun e => Restarts e ∨ Closes e)
            (eventsOf executionId s.files.flatten)

/-! ## Marking as crashed -/

section

variable {now : Int} {executions : Executions}

theorem batches_flatten (n : Nat) (ids : List ExecutionId)
    (h : ids.length ≤ n) : (Executions.batches n ids).flatten = ids := by
  induction n generalizing ids with
  | zero =>
    obtain rfl := length_eq_zero_iff.mp (Nat.le_zero.mp h)
    rfl
  | succ n ih =>
    rw [Executions.batches]
    split
    · rename_i hnil
      rw [hnil]
      rfl
    · rename_i hne
      have hshorter :
          (ids.drop Executions.MAX_UPDATE_BATCH_SIZE).length ≤ n := by
        rw [length_drop, Executions.MAX_UPDATE_BATCH_SIZE]
        omega
      rw [flatten_cons, ih _ hshorter, take_append_drop]

/-- What marking does to a row. -/
def crash (now : Int) (execution : Execution) : Execution :=
  { execution with status := .crashed, stoppedAt := some now }

theorem markBatches_get? (bs : List (List ExecutionId)) (executionId : ExecutionId) :
    (bs.foldl (Executions.markBatch now) executions).get? executionId
      = (executions.get? executionId).map fun execution =>
          if executionId ∈ bs.flatten then crash now execution
          else execution := by
  induction bs generalizing executions with
  | nil => simp
  | cons b rest ih =>
    rw [foldl_cons, ih, Executions.markBatch, get?_map, Option.map_map]
    refine congrArg (Option.map · _) (funext fun execution => ?_)
    by_cases hb : executionId ∈ b <;>
      by_cases hrest : executionId ∈ rest.flatten <;>
      simp [hb, hrest, crash]

/-- **MARKING** is by id, whatever the status. -/
theorem markAsCrashed_get? (ids : List ExecutionId) (executionId : ExecutionId) :
    (executions.markAsCrashed now ids).get? executionId
      = (executions.get? executionId).map fun execution =>
          if executionId ∈ ids then crash now execution else execution := by
  rw [Executions.markAsCrashed, markBatches_get?, batches_flatten _ _ (Nat.le_refl _)]

theorem update_get? (f : Execution → Execution) (executionId other : ExecutionId) :
    (executions.update executionId f).get? other
      = if executionId = other then (executions.get? other).map f
        else executions.get? other := by
  rw [Executions.update]
  by_cases heq : executionId = other
  · subst heq
    rw [if_pos rfl]
    rcases h : executions.get? executionId with _ | execution
    · exact h
    · exact (get?_set ..).trans (if_pos rfl)
  · rw [if_neg heq]
    rcases h : executions.get? executionId with _ | execution
    · rfl
    · exact (get?_set ..).trans (if_neg heq)

end

/-! ## Recovering leaves other executions alone -/

section

variable {now : Int} {isFollower : Bool} {executions : Executions}
  {executionId : ExecutionId}

variable {other : ExecutionId}

theorem runHooks_other (hne : executionId ≠ other) (amended : Execution) :
    (runHooks now executions executionId amended).get? other = executions.get? other := by
  rw [runHooks]
  dsimp only
  split
  · exact (update_get? ..).trans (if_neg hne)
  · split
    · exact (get?_delete ..).trans (if_neg (Ne.symm hne))
    · exact (update_get? ..).trans (if_neg hne)

variable (now executions) in
theorem amend_other (hne : executionId ≠ other) (messages : List EventMessage) :
    (amend now executions executionId messages).1.get? other = executions.get? other := by
  rw [amend]
  split
  · rw [amendWithoutLogs]
    split
    · rfl
    · rw [markAsCrashed_get?]
      simp [Ne.symm hne]
  · dsimp only
    split
    · rfl
    · split
      · rfl
      · split <;> rfl

theorem recoverFromLogs_other (hne : executionId ≠ other) (messages : List EventMessage) :
    (recoverFromLogs now isFollower executions executionId
        messages).1.get? other = executions.get? other := by
  have hamend := amend_other now executions hne messages
  rw [recoverFromLogs]
  split
  · rfl
  · split
    · rename_i heq
      rw [heq] at hamend
      exact hamend
    · rename_i heq
      rw [heq] at hamend
      rw [runHooks_other hne, updateExistingExecution, update_get?, if_neg hne]
      exact hamend

/-! ## Recovering an execution that has ended -/

variable {execution : Execution} {messages : List EventMessage}

section

variable (hget : executions.get? executionId = some execution)
  (hended : Ended execution.status) (hne : messages ≠ [])
include hget hended hne

theorem amend_ended (hcond : execution.deletedAt.isSome = true
      ∨ execution.data.isSome = true
      ∨ ¬ messages.any isNodeMessage = true) :
    amend now executions executionId messages = (executions, none) := by
  have hlength : messages.length ≠ 0 := fun h =>
    hne (length_eq_zero_iff.mp h)
  rw [amend, if_neg hlength]
  dsimp only
  split
  · rfl
  · rename_i hnodes
    rw [Executions.find, hget, Option.filter_some]
    split
    · rfl
    · rename_i found hfound
      split at hfound
      · rename_i hkept
        cases hfound
        rw [if_pos]
        refine ⟨hended, ?_⟩
        rcases hcond with hdeleted | hdata | hnone
        · rw [Option.isNone_iff_eq_none] at hkept
          rw [hkept] at hdeleted
          cases hdeleted
        · exact hdata
        · refine absurd (length_eq_zero_iff.mpr ?_) hnodes
          rw [filter_eq_nil_iff]
          intro msg hmem hmsg
          exact hnone (any_eq_true.mpr ⟨msg, hmem, hmsg⟩)
      · cases hfound

theorem recoverFromLogs_ended (hcond : isFollower = true ∨ execution.deletedAt.isSome = true
      ∨ execution.data.isSome = true
      ∨ ¬ messages.any isNodeMessage = true) :
    (recoverFromLogs now isFollower executions executionId messages).1 = executions := by
  rw [recoverFromLogs]
  split
  · rfl
  · rename_i hleader
    rw [amend_ended hget hended hne (hcond.resolve_left hleader)]

end

/-- Whatever is stored of the execution has data. -/
def HasData (executionId : ExecutionId) (executions : Executions) : Prop :=
  ∀ execution, executions.get? executionId = some execution → execution.data.isSome = true

theorem HasData.update {f : Execution → Execution} (h : HasData executionId executions)
    (hf : ∀ execution, execution.data.isSome = true → (f execution).data.isSome = true) :
    HasData executionId (executions.update other f) := by
  intro execution hget
  rw [update_get?] at hget
  split at hget
  · obtain ⟨old, hold, rfl⟩ := Option.map_eq_some_iff.mp hget
    exact hf old (h old hold)
  · exact h execution hget

theorem HasData.runHooks (h : HasData executionId executions) (amended : Execution) :
    HasData executionId (runHooks now executions other amended) := by
  rw [N8nCrashRecovery.runHooks]
  dsimp only
  split
  · exact h.update fun execution hdata => hdata
  · split
    · intro execution hget
      rw [show (executions.delete other).get? executionId = _ from
        get?_delete ..] at hget
      split at hget
      · cases hget
      · exact h execution hget
    · exact h.update fun execution hdata => rfl

theorem HasData.recoverFromLogs (h : HasData executionId executions)
    (messages : List EventMessage) :
    HasData executionId (recoverFromLogs now isFollower executions other messages).1 := by
  by_cases hne : other = executionId
  · subst hne
    have hamend : HasData other (amend now executions other messages).1 := by
      rw [amend]
      split
      · rw [amendWithoutLogs]
        split
        · exact h
        · intro execution hget
          rw [markAsCrashed_get?] at hget
          obtain ⟨old, hold, rfl⟩ := Option.map_eq_some_iff.mp hget
          split
          · exact h old hold
          · exact h old hold
      · dsimp only
        split
        · exact h
        · split
          · exact h
          · split <;> exact h
    rw [N8nCrashRecovery.recoverFromLogs]
    split
    · exact h
    · split
      · rename_i heq
        rw [heq] at hamend
        exact hamend
      · rename_i heq
        rw [heq] at hamend
        refine HasData.runHooks (hamend.update fun execution hdata => ?_) _
        simp [hdata]
  · intro execution hget
    rw [recoverFromLogs_other hne] at hget
    exact h execution hget

/-- **RECOVERED ALL THE SAME**: an execution that has ended but has no data
    gets some from its node events. -/
theorem recoverFromLogs_hasData (hget : executions.get? executionId = some execution)
    (hleader : isFollower = false) (hkept : execution.deletedAt = none)
    (hdata : execution.data = none) (hnode : messages.any isNodeMessage = true) :
    HasData executionId (recoverFromLogs now isFollower executions executionId messages).1 := by
  obtain ⟨msg, hmem, hmsg⟩ := any_eq_true.mp hnode
  have hlength : messages.length ≠ 0 := by
    intro h
    rw [length_eq_zero_iff.mp h] at hmem
    cases hmem
  have hnodes : (messages.filter isNodeMessage).length ≠ 0 := by
    intro h
    have hin := mem_filter.mpr ⟨hmem, hmsg⟩
    rw [length_eq_zero_iff.mp h] at hin
    cases hin
  have hfind : executions.find executionId = some execution := by
    rw [Executions.find, hget, Option.filter_some, hkept]
    rfl
  rw [recoverFromLogs, hleader, if_neg Bool.false_ne_true, amend, if_neg hlength]
  rw [if_neg hnodes, hfind]
  dsimp only
  rw [if_neg fun h => by
    rw [hdata] at h
    exact Bool.false_ne_true h.2]
  refine HasData.runHooks ?_ _
  intro execution' hget'
  rw [updateExistingExecution, update_get?, if_pos rfl, hget] at hget'
  cases hget'
  rfl

end

/-! ## The loops -/

section

variable {now : Int} {isFollower : Bool} {unfinished : Unfinished}
  {executionId : ExecutionId}

theorem recoverAll_fst (s : Executions × List WorkflowId) (other : ExecutionId) :
    (recoverAll now isFollower unfinished s other).1
      = (recoverFromLogs now isFollower s.1 other ((unfinished.get? other).getD [])).1 := by
  rw [recoverAll]
  split <;> rename_i heq <;> rw [heq]

variable {execution : Execution} {s : Executions × List WorkflowId}

theorem recoverAll_kept (ids : List ExecutionId) (hkeeps : ∀ executions : Executions,
      executions.get? executionId = some execution → executionId ∈ ids →
      (recoverFromLogs now isFollower executions executionId
        ((unfinished.get? executionId).getD [])).1 = executions)
    (hget : s.1.get? executionId = some execution) :
    (ids.foldl (recoverAll now isFollower unfinished) s).1.get? executionId = some execution := by
  refine List.foldlRecOn
    (motive := fun s : Executions × List WorkflowId =>
      s.1.get? executionId = some execution) ids _ hget
    fun s hget other hmem => ?_
  rw [recoverAll_fst]
  by_cases hne : other = executionId
  · subst hne
    rw [hkeeps s.1 hget hmem]
    exact hget
  · rw [recoverFromLogs_other hne]
    exact hget

theorem recoverAll_hasData (ids : List ExecutionId) (h : HasData executionId s.1) :
    HasData executionId (ids.foldl (recoverAll now isFollower unfinished) s).1 := by
  refine List.foldlRecOn
    (motive := fun s : Executions × List WorkflowId =>
      HasData executionId s.1) ids _ h fun s h other _ => ?_
  rw [recoverAll_fst]
  exact h.recoverFromLogs _

theorem recoverAll_reaches {ids : List ExecutionId} (hmem : executionId ∈ ids)
    (hget : s.1.get? executionId = some execution)
    (hreach : ∀ executions : Executions, executions.get? executionId = some execution →
      HasData executionId (recoverFromLogs now isFollower executions
        executionId ((unfinished.get? executionId).getD [])).1) :
    HasData executionId (ids.foldl (recoverAll now isFollower unfinished) s).1 := by
  induction ids generalizing s with
  | nil => cases hmem
  | cons other rest ih =>
    by_cases hne : other = executionId
    · subst hne
      refine recoverAll_hasData rest ?_
      rw [recoverAll_fst]
      exact hreach s.1 hget
    · refine ih ((mem_cons.mp hmem).resolve_left (Ne.symm hne)) ?_
      rw [recoverAll_fst, recoverFromLogs_other hne]
      exact hget

variable (now executionId) in
theorem autoDeactivate_get? (max : Nat) (s : Executions × Workflows) (workflowId : WorkflowId) :
    (autoDeactivate now max s workflowId).1.get? executionId
        = s.1.get? executionId
      ∨ ∃ execution, s.1.get? executionId = some execution
        ∧ ¬ Ended execution.status
        ∧ (autoDeactivate now max s workflowId).1.get? executionId
          = some (crash now execution) := by
  rw [autoDeactivate]
  split
  · split
    · exact .inl rfl
    · rw [get?_map]
      rcases h : s.1.get? executionId with _ | execution
      · exact .inl rfl
      · simp only [Option.map_some]
        split
        · rename_i hstatus
          refine .inr ⟨execution, rfl, ?_, rfl⟩
          rcases hstatus.2 with hstatus | hstatus <;>
          · rw [hstatus]
            decide
        · exact .inl rfl
  · exact .inl rfl

theorem autoDeactivate_kept {max : Nat}
    (hended : Ended execution.status) (workflowIds : List WorkflowId)
    {s : Executions × Workflows}
    (hget : s.1.get? executionId = some execution) :
    (workflowIds.foldl (autoDeactivate now max) s).1.get? executionId = some execution := by
  refine List.foldlRecOn
    (motive := fun s : Executions × Workflows =>
      s.1.get? executionId = some execution) workflowIds _ hget
    fun s hget workflowId _ => ?_
  rcases autoDeactivate_get? now executionId max s workflowId with heq | ⟨old, hold, hstatus, -⟩
  · rw [heq]
    exact hget
  · rw [hget] at hold
    cases hold
    exact absurd hended hstatus

theorem autoDeactivate_hasData {max : Nat} (workflowIds : List WorkflowId)
    {s : Executions × Workflows} (h : HasData executionId s.1) :
    HasData executionId (workflowIds.foldl (autoDeactivate now max) s).1 := by
  refine List.foldlRecOn (motive := fun s : Executions × Workflows => HasData executionId s.1)
    workflowIds _ h fun s h workflowId _ execution hget => ?_
  rcases autoDeactivate_get? now executionId max s workflowId with heq | ⟨old, hold, -, hnew⟩
  · rw [heq] at hget
    exact h execution hget
  · rw [hnew] at hget
    cases hget
    exact h old hold

end

/-! ## What the log says of an execution that has ended -/

section

variable {config : Config} {s : Instance} {executionId : ExecutionId}
  {execution : Execution}

variable (config) in
theorem mem_unfinishedExecutionIds (hget : s.executions.get? executionId = some execution)
    (hended : Ended execution.status) :
    executionId ∈ unfinishedExecutionIds config s
      ↔ StaysSet Opens Closes (eventsOf executionId s.files.flatten) := by
  rw [← listed_iff .unsent, ← OrderedMap.has, has_iff, unfinishedExecutionIds]
  split
  · exact Iff.rfl
  · rw [mem_append]
    refine or_iff_left fun hmem => ?_
    obtain ⟨hmem, -⟩ := mem_filter.mp hmem
    obtain ⟨⟨other, row⟩, hin, rfl⟩ := mem_map.mp hmem
    obtain ⟨hentry, hstatus⟩ := mem_filter.mp hin
    have hrow := get?_eq_some.mpr hentry
    rw [hget] at hrow
    cases hrow
    rw [Bool.and_eq_true, Bool.or_eq_true, decide_eq_true_eq, decide_eq_true_eq] at hstatus
    rcases hstatus.1 with hstatus | hstatus <;>
    · rw [hstatus] at hended
      exact absurd hended (by decide)

theorem recorded_ne_nil {es : List EventMessage} {messages : List EventMessage}
    (h : es.foldl follow none = some messages) : messages ≠ [] := by
  rintro rfl
  induction es using List.reverseRecOn with
  | nil => cases h
  | append_singleton es e ih =>
    rw [foldl_append, foldl_cons, foldl_nil, follow] at h
    split at h
    · cases h
    · split at h
      · cases h
      · split at h
        · simp at h
        · exact ih h

theorem recorded_of_listed (h : StaysSet Opens Closes (eventsOf executionId s.files.flatten)) :
    ∃ messages, ((getMessages .unsent s.files).unfinishedExecutions.get?
          executionId).getD [] = messages
      ∧ messages ≠ []
      ∧ (messages.any isNodeMessage = true ↔ StaysSet NodeEvent (fun e => Restarts e ∨ Closes e)
          (eventsOf executionId s.files.flatten)) := by
  rw [← listed_iff .unsent] at h
  obtain ⟨messages, hmessages⟩ := Option.isSome_iff_exists.mp h
  have hfollow := hmessages
  rw [getMessages_get?] at hfollow
  refine ⟨messages, by rw [hmessages]; rfl, recorded_ne_nil hfollow, ?_⟩
  rw [← recorded_node_iff]
  constructor
  · intro hany
    exact ⟨messages, hfollow, hany⟩
  · rintro ⟨messages', hfollow', hany⟩
    rw [hfollow] at hfollow'
    cases hfollow'
    exact hany

theorem listed_of_node {es : List EventMessage}
    (h : StaysSet NodeEvent (fun e => Restarts e ∨ Closes e) es) :
    StaysSet Opens Closes es := by
  obtain ⟨pre, e, post, heq, hnode, hpost⟩ := h
  exact ⟨pre, e, post, heq, .inr hnode, fun b hb hcloses =>
    hpost b hb (.inr hcloses)⟩

theorem not_ended_crash (now : Int) (execution : Execution) :
    ¬ Ended (crash now execution).status := by
  show ¬ Ended .crashed
  decide

/-! ## Every start -/

variable (config) in
theorem leavesEnded_simple_iff (now : Int) :
    (∀ executionId execution, s.executions.get? executionId = some execution →
      Ended execution.status → ∃ execution',
        (s.executions.markAsCrashed now (unfinishedExecutionIds config s)).get? executionId
          = some execution'
        ∧ execution'.status = execution.status
        ∧ execution'.data = execution.data)
      ↔ ∀ executionId execution, s.executions.get? executionId = some execution →
        Ended execution.status →
        ¬ StaysSet Opens Closes (eventsOf executionId s.files.flatten) := by
  refine forall_congr' fun executionId => forall_congr' fun execution =>
    forall_congr' fun hget => forall_congr' fun hended => ?_
  rw [← mem_unfinishedExecutionIds config hget hended, markAsCrashed_get?, hget, Option.map_some]
  by_cases hmem : executionId ∈ unfinishedExecutionIds config s
  · refine iff_of_false ?_ (not_not_intro hmem)
    rintro ⟨execution', heq, hstatus, -⟩
    rw [if_pos hmem] at heq
    cases heq
    rw [← hstatus] at hended
    exact not_ended_crash now execution hended
  · refine iff_of_true ⟨execution, ?_, rfl, rfl⟩ hmem
    rw [if_neg hmem]

/-- The tables after the recovery. -/
def recovered (now : Int) (config : Config) (s : Instance) : Executions × Workflows :=
  let unfinished := (getMessages .unsent s.files).unfinishedExecutions
  let (executions, crashedWorkflowIds) :=
    (unfinishedExecutionIds config s).foldl
      (recoverAll now config.isFollower unfinished) (s.executions, [])
  if config.workflowDeactivationEnabled then
    crashedWorkflowIds.dedup.foldl
      (autoDeactivate now config.maxLastExecutions) (executions, s.workflows)
  else (executions, s.workflows)

variable (config) in
/-- Recovering leaves what has ended exactly when the log has no node event
    for an execution that was found without data. -/
theorem leavesEnded_full_iff (now : Int) :
    (∀ executionId execution, s.executions.get? executionId = some execution →
      Ended execution.status → ∃ execution',
        (recovered now config s).1.get? executionId = some execution'
        ∧ execution'.status = execution.status
        ∧ execution'.data = execution.data)
      ↔ ∀ executionId execution, s.executions.get? executionId = some execution →
        Ended execution.status → config.isFollower = true ∨ execution.deletedAt.isSome = true
          ∨ execution.data.isSome = true
          ∨ ¬ StaysSet NodeEvent (fun e => Restarts e ∨ Closes e)
            (eventsOf executionId s.files.flatten) := by
  refine forall_congr' fun executionId => forall_congr' fun execution =>
    forall_congr' fun hget => forall_congr' fun hended => ?_
  constructor
  · rintro ⟨execution', heq, -, hsame⟩
    by_contra hcond
    simp only [not_or, not_not] at hcond
    obtain ⟨hleader, hkept, hdata, hnode⟩ := hcond
    rw [Bool.not_eq_true] at hleader
    rw [Option.not_isSome_iff_eq_none] at hkept hdata
    have hlisted := listed_of_node hnode
    obtain ⟨messages, hmessages, -, hany⟩ := recorded_of_listed hlisted
    have hmem := (mem_unfinishedExecutionIds config hget hended).mpr hlisted
    have hreached : HasData executionId
        ((unfinishedExecutionIds config s).foldl
          (recoverAll now config.isFollower
            (getMessages .unsent s.files).unfinishedExecutions) (s.executions, [])).1 := by
      refine recoverAll_reaches hmem hget fun executions h => ?_
      rw [hmessages]
      exact recoverFromLogs_hasData h hleader hkept hdata (hany.mpr hnode)
    have hlast : HasData executionId (recovered now config s).1 := by
      rw [recovered]
      dsimp only
      split
      · exact autoDeactivate_hasData _ hreached
      · exact hreached
    have hsome := hlast execution' heq
    rw [hsame, hdata] at hsome
    cases hsome
  · intro hcond
    have hkept : ((unfinishedExecutionIds config s).foldl
          (recoverAll now config.isFollower (getMessages .unsent s.files).unfinishedExecutions)
          (s.executions, [])).1.get? executionId = some execution := by
      refine recoverAll_kept _ (fun executions h hmem => ?_) hget
      have hlisted := (mem_unfinishedExecutionIds config hget hended).mp hmem
      obtain ⟨messages, hmessages, hne, hany⟩ := recorded_of_listed hlisted
      rw [hmessages]
      refine recoverFromLogs_ended h hended hne ?_
      rw [hany]
      exact hcond
    refine ⟨execution, ?_, rfl, rfl⟩
    rw [recovered]
    dsimp only
    split
    · exact autoDeactivate_kept hended _ hkept
    · exact hkept

theorem not_listed_of_no_ids (hids : (unfinishedExecutionIds config s).length = 0)
    (hget : s.executions.get? executionId = some execution) (hended : Ended execution.status) :
    ¬ StaysSet Opens Closes (eventsOf executionId s.files.flatten) := by
  rw [← mem_unfinishedExecutionIds config hget hended, length_eq_zero_iff.mp hids]
  exact not_mem_nil

/-- **THE START** leaves what has ended exactly under the condition. -/
theorem leavesEnded_iff (now : Int) (config : Config) (s : Instance) :
    LeavesEnded now config s ↔ EndedNotRecovered config s := by
  have hsame : (initializeEventBus now config s).executions = s.executions →
      LeavesEnded now config s := by
    intro heq executionId execution hget _
    exact ⟨execution, by rw [heq]; exact hget, rfl, rfl⟩
  by_cases hinit : s.isInitialized = true
  · refine iff_of_true (hsame ?_) fun hnot => ?_
    · rw [initializeEventBus, if_pos hinit]
    · rw [hinit] at hnot
      cases hnot
  · by_cases hskip : config.skipRecoveryPass = true
    · refine iff_of_true (hsame ?_) fun _ hnot => ?_
      · rw [initializeEventBus, if_neg hinit, if_pos hskip]
      · rw [hskip] at hnot
        cases hnot
    · have hrun : EndedNotRecovered config s ↔ ∀ executionId execution,
            s.executions.get? executionId = some execution → Ended execution.status →
            if s.recoveryInProgress ∨ config.crashRecoveryMode = .simple then
              ¬ StaysSet Opens Closes (eventsOf executionId s.files.flatten)
            else
              config.isFollower = true ∨ execution.deletedAt.isSome = true
                ∨ execution.data.isSome = true
                ∨ ¬ StaysSet NodeEvent (fun e => Restarts e ∨ Closes e)
                  (eventsOf executionId s.files.flatten) :=
        ⟨fun h => h (Bool.eq_false_iff.mpr hinit) (Bool.eq_false_iff.mpr hskip), fun h _ _ => h⟩
      rw [hrun]
      by_cases hids : (unfinishedExecutionIds config s).length = 0
      · refine iff_of_true (hsame ?_) fun executionId execution hget hended =>
          ?_
        · rw [initializeEventBus, if_neg hinit, if_neg hskip]
          rw [if_pos hids]
        · have hnot := not_listed_of_no_ids hids hget hended
          split
          · exact hnot
          · exact .inr (.inr (.inr (mt listed_of_node hnot)))
      · by_cases hsimple :
            s.recoveryInProgress ∨ config.crashRecoveryMode = .simple
        · simp only [if_pos hsimple]
          rw [← leavesEnded_simple_iff config now, LeavesEnded,
            initializeEventBus, if_neg hinit, if_neg hskip]
          rw [if_neg hids, if_pos hsimple]
        · simp only [if_neg hsimple]
          have hrecovered : (initializeEventBus now config s).executions
              = (recovered now config s).1 := by
            rw [initializeEventBus, if_neg hinit, if_neg hskip]
            rw [if_neg hids, if_neg hsimple, recovered]
          rw [← leavesEnded_full_iff config now, LeavesEnded, hrecovered]

end

/-- **CRASH RECOVERY**: the log lists as unfinished only what has a started
    or node event without a later success, failure or cancellation, and the
    start leaves what has ended, exactly when a cancelled event always comes
    with a closing event and no execution that has ended is taken up. -/
theorem recovery_leaves_ended_iff (now : Int) (config : Config) (s : Instance) : ((∀ executionId,
        ((getMessages .unsent s.files).unfinishedExecutions.get? executionId).isSome = true →
        StaysSet Opens Terminal (eventsOf executionId s.files.flatten))
      ∧ LeavesEnded now config s)
      ↔ (∀ executionId, CancelledCloses (eventsOf executionId s.files.flatten))
        ∧ EndedNotRecovered config s := by
  refine and_congr (forall_congr' fun executionId => ?_) (leavesEnded_iff now config s)
  rw [listed_iff, listed_only_unended_iff]

/-! ## Starts after one execution -/

/-- An event of the execution with id `"1"`, as its hooks log it. -/
def message (type : EventMessageTypeName) (eventName : String) (ts : Int)
    (nodeName : Option String) : EventMessage :=
  { id := eventName, type, eventName, ts, executionId := some "1", nodeName }

def cancelledMessage : EventMessage := message .workflow "n8n.workflow.cancelled" 2 none

/-- The execution was started, ran its node and was cancelled. -/
def cancelledLog : List Line :=
  [message .workflow "n8n.workflow.started" 0 none,
   message .node "n8n.node.started" 1 (some "Webhook"),
   cancelledMessage].map fun message => ⟨some message, none⟩

/-- The execution with id `"1"` and its status and data. -/
def stored (status : ExecutionStatus) (data : Option RunExecutionData) : Executions :=
  OrderedMap.empty.set "1"
    { workflowId := "A"
      status
      startedAt := 0
      stoppedAt := some 2
      deletedAt := none
      waitTill := none
      isManualMode := false
      nodes := ["Webhook"]
      saveSettings := { error := true, success := true, manual := true }
      data }

def startAfter (lines : List Line) (status : ExecutionStatus)
    (data : Option RunExecutionData) : Instance :=
  { isInitialized := false
    files := [[], lines]
    recoveryInProgress := false
    executions := stored status data
    workflows := .empty }

def defaultConfig (crashRecoveryMode : CrashRecoveryMode) : Config :=
  { skipRecoveryPass := false
    isQueueMode := false
    crashRecoveryMode
    isFollower := false
    workflowDeactivationEnabled := false
    maxLastExecutions := 3 }

/-- A cancelled execution is listed as unfinished.  In simple mode it is
    stored as crashed after the start; so it is in full mode when its data
    is gone. -/
theorem cancelled_execution_crashes :
    let s := startAfter cancelledLog .canceled (some .empty)
    let lost := startAfter cancelledLog .canceled none
    ((getMessages .unsent s.files).unfinishedExecutions.get? "1").isSome = true
      ∧ ¬ StaysSet Opens Terminal (eventsOf "1" s.files.flatten)
      ∧ ((initializeEventBus 10 (defaultConfig .simple)
          s).executions.get? "1").map Execution.status = some .crashed
      ∧ ¬ LeavesEnded 10 (defaultConfig .simple) s
      ∧ ((initializeEventBus 10 (defaultConfig .advanced)
          lost).executions.get? "1").map Execution.status = some .crashed
      ∧ ¬ LeavesEnded 10 (defaultConfig .advanced) lost := by
  have hcrashed : ∀ config data,
      ((initializeEventBus 10 config (startAfter cancelledLog .canceled
        data)).executions.get? "1").map Execution.status = some .crashed →
      ¬ LeavesEnded 10 config (startAfter cancelledLog .canceled data) := by
    intro config data h hleaves
    obtain ⟨execution', heq, hstatus, -⟩ := hleaves "1" _ rfl (by show Ended .canceled; decide)
    rw [heq, Option.map_some, hstatus] at h
    cases h
  have hsimple : ((initializeEventBus 10 (defaultConfig .simple)
      (startAfter cancelledLog .canceled (some .empty))).executions.get?
        "1").map Execution.status = some .crashed := by decide +kernel
  have hfull : ((initializeEventBus 10 (defaultConfig .advanced)
      (startAfter cancelledLog .canceled none)).executions.get?
        "1").map Execution.status = some .crashed := by decide +kernel
  refine ⟨by decide +kernel, ?_, hsimple, hcrashed _ _ hsimple, hfull, hcrashed _ _ hfull⟩
  -- The cancelled event comes last.
  have hevents : eventsOf "1" [[], cancelledLog].flatten
      = (cancelledLog.take 2).filterMap Line.message ++ [cancelledMessage] := by decide +kernel
  intro h
  rcases staysSet_concat.mp (hevents ▸ h) with hopens | ⟨-, hterminal⟩
  · exact absurd hopens (by decide)
  · exact hterminal (.inr rfl)

end N8nCrashRecovery
