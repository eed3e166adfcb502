import N8n.CrashRecoveryProofs

/-! # The execution repository — rows and conditional updates

    An execution is stored as a row of columns and a row of data.  An update
    names the columns it changes and may require a status.  The requirement
    is part of the condition under which the columns are written, so two
    updates that require the same status and change it cannot both succeed.

    The requirement is only looked at when there is a column to write:
    `updateExistingExecution_onlyData`. -/

namespace N8nExecutionRepository

open N8nOrderedMap N8nEventLog N8nCrashRecovery

/-- An execution as stored: the columns that are read and changed here, and
    the data, which has a table of its own. -/
structure Execution (D : Type) where
  status : ExecutionStatus
  finished : Bool
  waitTill : Option Int
  data : D

/-- `Partial<IExecutionResponse>`: what is not given is not changed.
    `waitTill` can be set to null. -/
structure ExecutionUpdate (D : Type) where
  status : Option ExecutionStatus := none
  finished : Option Bool := none
  waitTill : Option (Option Int) := none
  data : Option D := none

abbrev Executions (D : Type) := OrderedMap ExecutionId (Execution D)

variable {D : Type}

/-- Whether `executionInformation` has a column to write. -/
def ExecutionUpdate.hasInformation (update : ExecutionUpdate D) : Bool :=
  update.status.isSome || update.finished.isSome || update.waitTill.isSome

def Execution.change (execution : Execution D) (update : ExecutionUpdate D) : Execution D :=
  { status := update.status.getD execution.status
    finished := update.finished.getD execution.finished
    waitTill := update.waitTill.getD execution.waitTill
    data := update.data.getD execution.data }

/-- The executions after the update, and whether it succeeded. -/
def updateExistingExecution (executions : Executions D) (executionId : ExecutionId)
    (update : ExecutionUpdate D) (requireStatus : Option ExecutionStatus) : Executions D × Bool :=
  match executions.get? executionId with
  -- No row of data is changed either, but this goes unnoticed.
  | none => (executions, !update.hasInformation)
  | some execution =>
    if update.hasInformation && requireStatus.any (· ≠ execution.status)
    then (executions, false)
    else (executions.set executionId (execution.change update), true)

/-! ## What an update does -/

section

variable {executions : Executions D} {executionId : ExecutionId}
  {update : ExecutionUpdate D} {requireStatus : Option ExecutionStatus}
  {execution : Execution D}

theorem updateExistingExecution_missing (hget : executions.get? executionId = none) :
    updateExistingExecution executions executionId update requireStatus
      = (executions, !update.hasInformation) := by
  rw [updateExistingExecution, hget]

theorem updateExistingExecution_unconditional
    (hget : executions.get? executionId = some execution) :
    updateExistingExecution executions executionId update none
      = (executions.set executionId (execution.change update), true) := by
  rw [updateExistingExecution, hget]
  simp

/-- **THE REQUIREMENT**: an update of a column succeeds exactly on an
    execution with the required status. -/
theorem updateExistingExecution_required {status : ExecutionStatus}
    (hinformation : update.hasInformation = true)
    (hget : executions.get? executionId = some execution) :
    updateExistingExecution executions executionId update (some status)
      = if execution.status = status
        then (executions.set executionId (execution.change update), true)
        else (executions, false) := by
  rw [updateExistingExecution, hget]
  by_cases hstatus : execution.status = status
  · simp [hstatus]
  · simp [hinformation, hstatus, Ne.symm hstatus]

theorem get?_updateExistingExecution_ne {other : ExecutionId} (hne : executionId ≠ other) :
    (updateExistingExecution executions executionId update
      requireStatus).1.get? other = executions.get? other := by
  rw [updateExistingExecution]
  rcases executions.get? executionId with _ | execution
  · rfl
  · dsimp only
    split
    · rfl
    · exact (OrderedMap.get?_set ..).trans (if_neg hne)

end

end N8nExecutionRepository
