import N8n.TextSearchProofs
import N8n.ConcurrencyQueueProofs
import N8n.CrashRecoveryProofs

/-! # Saving executions — in one process and in two

    When an execution ends, hooks decide whether it is kept, and store it.
    In regular mode one hook does both.  In queue mode the worker always
    stores the execution, and the main process, which reads it back, deletes
    it if it is not to be kept.

    The main process leaves everything alone that is not `finished`, and only
    a successful execution is.  `sameResult_iff_agrees` gives the runs for
    which the two modes come to the same result. -/

namespace N8nExecutionSaving

open N8nOrderedMap
open N8nTextSearch (includes replaceFirst)
open N8nConcurrencyQueue (ExecutionMode)
open N8nCrashRecovery (ExecutionStatus SaveSettings)

variable {R J : Type}

/-! ## Runs -/

/-- `mode:fileId`. -/
structure BinaryDataId where
  mode : String
  fileId : List Char

/-- The data of a run.  `binaryDataIds` has the nodes whose first item holds
    binary data, with its id; `metadata` is empty where there is none. -/
structure RunExecutionData (R : Type) where
  error : Option String
  metadata : OrderedMap String String
  binaryDataIds : OrderedMap String BinaryDataId
  pushRef : Option String
  rest : R

structure IRun (R : Type) where
  data : RunExecutionData R
  mode : ExecutionMode
  finished : Bool
  stoppedAt : Int
  waitTill : Option Int
  status : ExecutionStatus

def determineFinalExecutionStatus (runData : IRun R) : ExecutionStatus :=
  let workflowHasCrashed := runData.status = .crashed
  let workflowWasCanceled := runData.status = .canceled
  let workflowHasFailed := runData.status = .error
  let workflowDidSucceed := runData.data.error.isNone
    ∧ ¬ workflowHasCrashed ∧ ¬ workflowWasCanceled ∧ ¬ workflowHasFailed
  if runData.waitTill.isSome then .waiting
  else if workflowWasCanceled then .canceled
  else if workflowHasCrashed then .crashed
  else if workflowDidSucceed then .success
  else .error

/-- `hookFunctionsFinalizeExecutionStatus`, which runs before the others. -/
def finalizeExecutionStatus (fullRunData : IRun R) : IRun R :=
  { fullRunData with status := determineFinalExecutionStatus fullRunData }

/-! ## The hooks -/

/-- What the hooks are set up with, and whether binary data is kept in
    memory (the default mode). -/
structure Hooks (J : Type) where
  executionId : String
  mode : ExecutionMode
  workflowData : OrderedMap String J
  pushRef : Option String
  retryOf : Option String
  saveSettings : SaveSettings
  defaultBinaryDataMode : Bool

structure UpdateExecutionPayload (R J : Type) where
  data : RunExecutionData R
  mode : ExecutionMode
  finished : Bool
  stoppedAt : Int
  workflowData : OrderedMap String J
  waitTill : Option Int
  status : ExecutionStatus
  retryOf : Option String

/-- The stored result: the execution with the metadata saved for it, or its
    deletion. -/
inductive Stored (R J : Type) where
  | kept (execution : UpdateExecutionPayload R J) (metadata : OrderedMap String String)
  | softDeleted
  | hardDeleted

def pristineKeys : List String :=
  ["id", "name", "active", "activeVersionId", "isArchived", "createdAt",
   "updatedAt", "nodes", "connections", "settings", "staticData", "pinData"]

namespace Hooks

def isManualMode (h : Hooks J) : Bool := h.mode = .manual

/-- A file that was written before the execution had an id gets its name. -/
def restoreFileId (h : Hooks J) (id : BinaryDataId) : BinaryDataId :=
  if includes "/temp/".toList id.fileId then
    { id with
      fileId := replaceFirst "temp".toList h.executionId.toList id.fileId }
  else id

def restoreBinaryDataId (h : Hooks J) (run : IRun R) : IRun R :=
  if h.mode ≠ .webhook || h.defaultBinaryDataMode then run
  else
    { run with
      data := { run.data with
        binaryDataIds := run.data.binaryDataIds.map fun _ id =>
          h.restoreFileId id } }

def prepareExecutionDataForDbUpdate (h : Hooks J) (runData : IRun R)
    (workflowStatusFinal : ExecutionStatus) : UpdateExecutionPayload R J :=
  { data := runData.data
    mode := runData.mode
    finished := runData.finished
    stoppedAt := runData.stoppedAt
    workflowData := h.workflowData.filter fun p => p.1 ∈ pristineKeys
    waitTill := runData.waitTill
    status := workflowStatusFinal
    retryOf := h.retryOf }

/-- The payload, with the push ref when a manual execution begins to wait. -/
def fullExecutionData (h : Hooks J) (fullRunData : IRun R) : UpdateExecutionPayload R J :=
  let payload := h.prepareExecutionDataForDbUpdate fullRunData fullRunData.status
  if fullRunData.waitTill.isSome && h.isManualMode then
    { payload with data := { payload.data with pushRef := h.pushRef } }
  else payload

def shouldNotSave (h : Hooks J) (status : ExecutionStatus) : Bool :=
  (status = .success && !h.saveSettings.success)
    || (status ≠ .success && !h.saveSettings.error)

/-- `hookFunctionsSave`, the hook of the regular mode. -/
def hookFunctionsSave (h : Hooks J) (fullRunData : IRun R) : Stored R J :=
  let fullRunData := h.restoreBinaryDataId fullRunData
  if h.isManualMode && !h.saveSettings.manual && fullRunData.waitTill.isNone then .softDeleted
  else if h.shouldNotSave fullRunData.status && fullRunData.waitTill.isNone
      && !h.isManualMode then .hardDeleted
  else .kept (h.fullExecutionData fullRunData) fullRunData.data.metadata

/-- `hookFunctionsSaveWorker`: the metadata is left to the main process. -/
def hookFunctionsSaveWorker (h : Hooks J) (fullRunData : IRun R) : UpdateExecutionPayload R J :=
  h.fullExecutionData fullRunData

/-- The run as `enqueueExecution` puts it together from the stored
    execution. -/
def readRun (execution : UpdateExecutionPayload R J) : IRun R :=
  { data := execution.data
    mode := execution.mode
    finished := execution.finished
    stoppedAt := execution.stoppedAt
    waitTill := none
    status := execution.status }

/-- The `workflowExecuteAfter` hook of the main process in queue mode. -/
def scalingMain (h : Hooks J) (execution : UpdateExecutionPayload R J)
    (fullRunData : IRun R) : Stored R J :=
  -- Executions are not deleted before they are finished.
  if !fullRunData.finished then .kept execution .empty
  else if h.isManualMode && !h.saveSettings.manual && fullRunData.waitTill.isNone then .softDeleted
  else if !h.isManualMode && h.shouldNotSave fullRunData.status
      && fullRunData.waitTill.isNone then .hardDeleted
  else .kept execution fullRunData.data.metadata

/-! ## The two modes -/

def regularMode (h : Hooks J) (run : IRun R) : Stored R J :=
  h.hookFunctionsSave (finalizeExecutionStatus run)

def queueMode (h : Hooks J) (run : IRun R) : Stored R J :=
  let execution := h.hookFunctionsSaveWorker (finalizeExecutionStatus run)
  h.scalingMain execution (finalizeExecutionStatus (readRun execution))

/-- Both modes store the same. -/
def SameResult (h : Hooks J) (run : IRun R) : Prop := h.queueMode run = h.regularMode run

/-- Whether an execution with this status is to be kept, one that does not
    wait. -/
def keeps (h : Hooks J) (status : ExecutionStatus) : Bool :=
  if h.isManualMode then h.saveSettings.manual
  else !h.shouldNotSave status

/-- The condition.  A run that is not finished must be one that is kept and
    has no metadata; a finished run that waits must be one that would be kept
    if it did not; and the ids of binary data in an execution that is kept
    must be complete. -/
structure Agrees (h : Hooks J) (run : IRun R) : Prop where
  unfinished : run.finished = false →
    (run.waitTill.isSome = true
        ∨ h.keeps (determineFinalExecutionStatus run) = true)
      ∧ run.data.metadata = .empty
  waits : run.finished = true → run.waitTill.isSome = true →
    h.keeps (if run.data.error.isNone then .success else .error) = true
  binaryData : run.waitTill.isSome = true
      ∨ h.keeps (determineFinalExecutionStatus run) = true → h.restoreBinaryDataId run = run

/-! ## What the hooks do -/

section

variable {h : Hooks J} {run : IRun R}

theorem restoreBinaryDataId_finalize :
    h.restoreBinaryDataId (finalizeExecutionStatus run)
      = finalizeExecutionStatus (h.restoreBinaryDataId run) := by
  rw [restoreBinaryDataId, restoreBinaryDataId]
  split <;> rfl

theorem restoreBinaryDataId_eq (h : Hooks J) (run : IRun R) :
    ∃ ids, h.restoreBinaryDataId run
    = { run with data := { run.data with binaryDataIds := ids } } := by
  rw [restoreBinaryDataId]
  split
  · exact ⟨run.data.binaryDataIds, rfl⟩
  · exact ⟨_, rfl⟩

theorem fullExecutionData_eq (h : Hooks J) (run : IRun R) :
    ∃ pushRef, h.fullExecutionData run
    = { h.prepareExecutionDataForDbUpdate run run.status with
        data := { run.data with pushRef := pushRef } } := by
  rw [fullExecutionData]
  split
  · exact ⟨h.pushRef, rfl⟩
  · exact ⟨run.data.pushRef, rfl⟩

/-- **THE DATA** that the two modes store is the same exactly when no id is
    to be restored. -/
theorem fullExecutionData_restore (h : Hooks J) (run : IRun R) :
    h.fullExecutionData (finalizeExecutionStatus run)
        = h.fullExecutionData (h.restoreBinaryDataId (finalizeExecutionStatus run))
      ↔ h.restoreBinaryDataId run = run := by
  rw [restoreBinaryDataId_finalize]
  constructor
  · intro heq
    obtain ⟨ids, hids⟩ := restoreBinaryDataId_eq h run
    obtain ⟨ref, href⟩ := fullExecutionData_eq h (finalizeExecutionStatus run)
    obtain ⟨ref', href'⟩ := fullExecutionData_eq h
      (finalizeExecutionStatus (h.restoreBinaryDataId run))
    rw [href, href', hids] at heq
    have hsame : run.data.binaryDataIds = ids := congrArg (fun p => p.data.binaryDataIds) heq
    rw [hids, ← hsame]
  · intro hself
    rw [hself]

theorem decision_eq {A : Type} (manual saved waits should : Bool) (kept soft hard : A) :
    (if manual && !saved && !waits then soft
      else if should && !waits && !manual then hard else kept)
      = if waits || (if manual then saved else !should) then kept
        else if manual then soft else hard := by
  cases manual <;> cases saved <;> cases waits <;> cases should <;> rfl

theorem regularMode_eq :
    h.regularMode run
      = if run.waitTill.isSome
            || h.keeps (determineFinalExecutionStatus run) then
          .kept (h.fullExecutionData
              (h.restoreBinaryDataId (finalizeExecutionStatus run))) run.data.metadata
        else if h.isManualMode then .softDeleted
        else .hardDeleted := by
  obtain ⟨ids, hids⟩ := restoreBinaryDataId_eq h (finalizeExecutionStatus run)
  rw [keeps, ← decision_eq, Option.not_isSome, regularMode, hookFunctionsSave, hids]
  rfl

theorem determine_readRun (h : Hooks J) (run : IRun R) :
    determineFinalExecutionStatus (readRun (h.fullExecutionData (finalizeExecutionStatus run)))
      = if run.waitTill.isSome then
          if run.data.error.isNone then .success else .error
        else determineFinalExecutionStatus run := by
  obtain ⟨ref, href⟩ := fullExecutionData_eq h (finalizeExecutionStatus run)
  rw [href]
  obtain ⟨data, mode, finished, stoppedAt, waitTill, status⟩ := run
  obtain ⟨error, metadata, ids, pushRef, rest⟩ := data
  simp only [readRun, prepareExecutionDataForDbUpdate,
    finalizeExecutionStatus, determineFinalExecutionStatus]
  cases waitTill with
  | none => cases status <;> cases error <;> rfl
  | some waitTill => cases error <;> rfl

theorem scalingMain_eq {execution : UpdateExecutionPayload R J} (hwait : run.waitTill = none) :
    h.scalingMain execution run
      = if run.finished = false then .kept execution .empty
        else if h.keeps run.status then .kept execution run.data.metadata
        else if h.isManualMode then .softDeleted
        else .hardDeleted := by
  obtain ⟨data, mode, finished, stoppedAt, waitTill, status⟩ := run
  subst hwait
  rw [scalingMain, keeps]
  generalize h.isManualMode = manual
  generalize h.saveSettings.manual = saved
  generalize h.shouldNotSave status = should
  cases finished
  · rfl
  · cases manual <;> cases saved <;> cases should <;> rfl

theorem queueMode_eq :
    h.queueMode run
      = if run.finished = false then
          .kept (h.fullExecutionData (finalizeExecutionStatus run)) .empty
        else if h.keeps (if run.waitTill.isSome then
            if run.data.error.isNone then .success else .error
          else determineFinalExecutionStatus run) then
          .kept (h.fullExecutionData (finalizeExecutionStatus run)) run.data.metadata
        else if h.isManualMode then .softDeleted
        else .hardDeleted := by
  have hstatus := determine_readRun h run
  obtain ⟨ref, href⟩ := fullExecutionData_eq h (finalizeExecutionStatus run)
  have hfinished : (readRun (h.fullExecutionData
      (finalizeExecutionStatus run))).finished = run.finished := by
    rw [href]
    rfl
  have hmetadata : (readRun (h.fullExecutionData
      (finalizeExecutionStatus run))).data.metadata = run.data.metadata := by
    rw [href]
    rfl
  rw [← hstatus, ← hfinished, ← hmetadata, queueMode, hookFunctionsSaveWorker]
  exact scalingMain_eq rfl

theorem deleted_ne_kept {manual : Bool} {execution : UpdateExecutionPayload R J}
    {metadata : OrderedMap String String} :
    (if manual then Stored.softDeleted else Stored.hardDeleted) ≠ .kept execution metadata := by
  cases manual <;> intro heq <;> cases heq

/-- **EVERY RUN** is stored alike in both modes exactly when the condition
    holds. -/
theorem sameResult_iff_agrees (h : Hooks J) (run : IRun R) : h.SameResult run ↔ h.Agrees run := by
  have hdata := fullExecutionData_restore h run
  rw [SameResult, queueMode_eq, regularMode_eq]
  cases hfinished : run.finished with
  | false =>
    rw [if_pos rfl]
    -- The queue mode keeps the execution, without its metadata.
    constructor
    · intro heq
      split at heq
      · next hkeeps =>
          rw [Bool.or_eq_true] at hkeeps
          obtain ⟨hsame, hmetadata⟩ := Stored.kept.inj heq
          exact ⟨fun _ => ⟨hkeeps, hmetadata.symm⟩,
            fun htrue => absurd (hfinished.symm.trans htrue) Bool.false_ne_true,
            fun _ => hdata.mp hsame⟩
      · exact absurd heq.symm deleted_ne_kept
    · intro hagrees
      obtain ⟨hkeeps, hmetadata⟩ := hagrees.unfinished hfinished
      rw [if_pos (by rwa [Bool.or_eq_true]), hmetadata, hdata.mpr (hagrees.binaryData hkeeps)]
  | true =>
    rw [if_neg Bool.true_eq_false_eq_False]
    have hfalse : run.finished ≠ false := by
      rw [hfinished]
      exact Bool.true_eq_false_eq_False
    cases hwait : run.waitTill.isSome with
    | true =>
      -- The main process does not see that the execution waits.
      simp only [if_true, Bool.true_or]
      constructor
      · intro heq
        by_cases hkeeps : h.keeps (if run.data.error.isNone then .success else .error) = true
        · rw [if_pos hkeeps] at heq
          exact ⟨fun h => absurd h hfalse, fun _ _ => hkeeps,
            fun _ => hdata.mp (Stored.kept.inj heq).1⟩
        · rw [if_neg hkeeps] at heq
          exact absurd heq deleted_ne_kept
      · intro hagrees
        rw [if_pos (hagrees.waits hfinished hwait), hdata.mpr (hagrees.binaryData (.inl hwait))]
    | false =>
      simp only [Bool.false_or]
      rw [if_neg Bool.false_ne_true]
      constructor
      · intro heq
        refine ⟨fun h => absurd h hfalse, fun _ hsome => ?_, fun hkeeps => ?_⟩
        · exact absurd (hwait.symm.trans hsome) Bool.false_ne_true
        · rcases hkeeps with hsome | hkeeps
          · exact absurd (hwait.symm.trans hsome) Bool.false_ne_true
          · rw [if_pos hkeeps, if_pos hkeeps] at heq
            exact hdata.mp (Stored.kept.inj heq).1
      · intro hagrees
        split
        · next hkeeps => rw [hdata.mpr (hagrees.binaryData (.inr hkeeps))]
        · rfl

end

end Hooks

/-! ## A failed execution -/

/-- Failed executions are not to be saved. -/
def errorNone : Hooks Unit :=
  { executionId := "1"
    mode := .webhook
    workflowData := .empty
    pushRef := none
    retryOf := none
    saveSettings := { error := false, success := true, manual := true }
    defaultBinaryDataMode := true }

def failedRun : IRun Unit :=
  { data := { error := some "Boom", metadata := .empty,
              binaryDataIds := .empty, pushRef := none, rest := () }
    mode := .webhook
    finished := false
    stoppedAt := 0
    waitTill := none
    status := .error }

/-- The regular mode deletes a failed execution, and the queue mode keeps
    it. -/
theorem queue_mode_keeps_failed : ¬ ∀ (h : Hooks Unit) (run : IRun Unit), h.SameResult run := by
  intro hall
  have hregular : errorNone.regularMode failedRun = .hardDeleted := rfl
  have hsame := (hall errorNone failedRun).trans hregular
  cases hsame

end N8nExecutionSaving
