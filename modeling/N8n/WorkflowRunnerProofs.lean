import N8n.ConcurrencyQueueProofs
import N8n.TextSearchProofs

/-! # Starting an execution — what a start that fails leaves behind

    `WorkflowRunner.run` registers an execution and then awaits one thing
    after the other.  The execution is released through its post-execution
    promise: when that settles, its slot is given back and it is taken out of
    the active executions.  So a start that fails must settle the promise.

    `processError` does it, but only for the steps inside the two `try`
    blocks, and not for an error that looks like a cancellation.
    `leavesNothing_iff_covered` says exactly which failures leave nothing
    behind. -/

namespace N8nWorkflowRunner

open N8nConcurrencyQueue (ExecutionMode)
open N8nTextSearch (includes)

/-! ## Errors and active executions -/

inductive ErrorType where
  | executionNotFoundError | executionCancelledError | other
deriving DecidableEq

/-- An error; its message need not be a string. -/
structure RunError where
  type : ErrorType
  message : Option String

def executionNotFoundError : RunError :=
  { type := .executionNotFoundError
    message := some "No active execution found" }

/-- What `processError` takes for a cancelled execution that has been cleaned
    up already. -/
def isCancellation (error : RunError) : Bool :=
  error.type = .executionNotFoundError
    || error.type = .executionCancelledError
    || error.message.any fun message => includes "cancelled".toList message.toList

/-- The execution that has been added: whether its post-execution promise is
    settled, whether it is in `activeExecutions`, and whether its concurrency
    slot has been released.  Its status is running, as nothing else sets it
    before the nodes run. -/
structure ActiveExecution where
  settled : Bool
  active : Bool
  released : Bool

namespace ActiveExecution

/-- After `ActiveExecutions.add`. -/
def added : ActiveExecution :=
  { settled := false, active := true, released := false }

/-- The promise settles.  Its handlers release the slot and take the
    execution out, before anything that waits for a later promise goes on. -/
def settle (_ : ActiveExecution) : ActiveExecution :=
  { settled := true, active := false, released := true }

def stopExecution (e : ActiveExecution) : ActiveExecution :=
  if e.active then e.settle else e

def finalizeExecution (e : ActiveExecution) : ActiveExecution :=
  if e.active then e.settle else e

/-- Nothing of the execution is left. -/
def Gone (e : ActiveExecution) : Prop := e.settled = true ∧ e.active = false ∧ e.released = true

instance (e : ActiveExecution) : Decidable e.Gone := inferInstanceAs (Decidable (_ ∧ _))

end ActiveExecution

/-! ## Programs that may reject -/

/-- A part of a start: it goes on with a value or rejects with an error. -/
def Start (α : Type) := ActiveExecution → Except RunError α × ActiveExecution

instance : Monad Start where
  pure a := fun e => (.ok a, e)
  bind m k := fun e =>
    match m e with
    | (.ok a, e) => k a e
    | (.error error, e) => (.error error, e)

instance : MonadExcept RunError Start where
  throw error := fun e => (.error error, e)
  tryCatch m handler := fun e =>
    match m e with
    | (.ok a, e) => (.ok a, e)
    | (.error error, e) => handler error e

/-- A call that changes the active execution and cannot fail. -/
def Start.change (f : ActiveExecution → ActiveExecution) : Start Unit := fun e => (.ok (), f e)

/-! ## The runner -/

/-- The steps that may fail.  All but `newWorkflow` and `startRun` are
    awaits; `startRun` is what is done in the `try` block before the run is
    attached. -/
inductive RunStep where
  | checkPermissions | failedBeforeHook | failedAfterHook
  | loadStaticData | newWorkflow | getAdditionalData | setRunning | startRun
  | setupQueue | addJob | executeBeforeHook
  | findExecution | executeAfterHook
deriving DecidableEq

inductive ExecutionsMode where
  | regular | queue
deriving DecidableEq

/-- The runner's configuration and the execution to be started.  `elapsed` is
    the time in milliseconds since it was first started, if that is known. -/
structure Config where
  mode : ExecutionsMode
  offloadManualExecutions : Bool
  hasScalingService : Bool
  timeout : Int
  maxTimeout : Int
  executionMode : ExecutionMode
  hasWorkflowId : Bool
  loadStaticData : Bool
  hasResponsePromise : Bool
  executionTimeout : Option Int
  elapsed : Option Int

/-- How the steps end, during which of them the execution is stopped by
    somebody else, and whether it is stored as finished with success when
    `processError` asks. -/
structure Environment where
  outcome : RunStep → Except RunError Unit
  stopped : RunStep → Bool
  wasSuccessful : Bool

namespace Config

def shouldEnqueue (c : Config) : Bool :=
  if c.offloadManualExecutions then c.mode = .queue
  else c.mode = .queue && c.executionMode ≠ .manual

def workflowTimeout (c : Config) : Int :=
  let workflowTimeout := c.executionTimeout.getD c.timeout
  if workflowTimeout > 0 then min workflowTimeout c.maxTimeout
  else workflowTimeout

/-- There is a timeout and it has passed already. -/
def isTimedOut (c : Config) : Bool :=
  if c.workflowTimeout > 0 then
    let timeout := min c.workflowTimeout c.maxTimeout * 1000
    match c.elapsed with
    | none => timeout = 0
    | some elapsed => max (timeout - elapsed) 0 = 0
  else false

end Config

section

variable (c : Config) (env : Environment)

/-- A step is taken; the execution may be stopped meanwhile. -/
def step (s : RunStep) : Start Unit := fun e =>
  (env.outcome s, if env.stopped s then e.stopExecution else e)

/-- `getExecutionOrFail`, for what is attached to the execution. -/
def getExecutionOrFail : Start Unit := fun e =>
  if e.active then (.ok (), e) else (.error executionNotFoundError, e)

/-- A successful execution that was taken for a stalled one is left alone. -/
def processError (error : RunError) : Start Unit :=
  if isCancellation error then pure ()
  else if c.mode = .queue then do
    step env .findExecution
    if env.wasSuccessful then pure ()
    else do
      Start.change .finalizeExecution
      step env .executeAfterHook
  else do
    Start.change .finalizeExecution
    step env .executeAfterHook

/-- The catch block of the permission check. -/
def failExecution : Start Unit := do
  step env .failedBeforeHook
  step env .failedAfterHook
  Start.change .finalizeExecution

def loadStaticData : Start Unit :=
  if c.loadStaticData && c.hasWorkflowId then step env .loadStaticData
  else pure ()

/-- The `try` block of `runMainProcess`. -/
def startRun : Start Unit := do
  step env .startRun
  getExecutionOrFail
  if c.isTimedOut then Start.change .stopExecution else pure ()

def runMainProcess : Start Unit := do
  loadStaticData c env
  step env .newWorkflow
  step env .getAdditionalData
  step env .setRunning
  tryCatch (startRun c env) fun error => do
    processError c env error
    throw error

def setupQueue : Start Unit :=
  if c.hasScalingService then pure () else step env .setupQueue

/-- The `try` block of `enqueueExecution`. -/
def addJob : Start Unit := do
  step env .addJob
  step env .executeBeforeHook

def enqueueExecution : Start Unit := do
  setupQueue c env
  tryCatch (addJob env) fun error => do
    processError c env error
    throw error
  getExecutionOrFail

def attachResponsePromise : Start Unit :=
  if c.hasResponsePromise then getExecutionOrFail else pure ()

/-- `WorkflowRunner.run` from the return of `ActiveExecutions.add` on. -/
def run : Start Unit := fun e =>
  match step env .checkPermissions e with
  | (.error _, e) => failExecution env e
  | (.ok _, e) =>
    (do
      attachResponsePromise c
      if c.shouldEnqueue then enqueueExecution c env
      else runMainProcess c env : Start Unit) e

/-- A start that rejects leaves nothing of the execution behind. -/
def LeavesNothing : Prop := ∀ error, (run c env .added).1 = .error error → (run c env .added).2.Gone

end

/-! ## The condition -/

section

variable (c : Config) (env : Environment)

/-- `processError` settles the promise: the error does not look like a
    cancellation, and in queue mode the execution is found, or stopped
    meanwhile, and was not successful after all. -/
def Handled (error : RunError) : Prop :=
  isCancellation error = false
    ∧ (c.mode = .queue → env.stopped .findExecution = true
        ∨ env.outcome .findExecution = .ok () ∧ env.wasSuccessful = false)

/-- The steps that are taken inside a `try` block. -/
def RunStep.isTried : RunStep → Bool
  | .startRun | .addJob | .executeBeforeHook => true
  | _ => false

/-- If one of the steps fails, then the execution has been stopped by then,
    or the failure is that of a tried step and is handled. -/
def Covers : Bool → List RunStep → Prop
  | _, [] => True
  | stopped, s :: rest =>
    match env.outcome s with
    | .ok _ => Covers (stopped || env.stopped s) rest
    | .error error => (stopped || env.stopped s) = true ∨ s.isTried = true ∧ Handled c env error

/-- The steps after the permission check. -/
def runSteps : List RunStep :=
  if c.shouldEnqueue then
    (if c.hasScalingService then [] else [.setupQueue]) ++ [.addJob, .executeBeforeHook]
  else
    (if c.loadStaticData && c.hasWorkflowId then [.loadStaticData] else [])
      ++ [.newWorkflow, .getAdditionalData, .setRunning, .startRun]

/-- The condition: the step that fails is covered.  When the permission check
    fails, the steps are the hooks that save the failed execution. -/
def Covered : Prop :=
  Covers c env (env.stopped .checkPermissions)
    (match env.outcome .checkPermissions with
      | .ok _ => runSteps c
      | .error _ => [.failedBeforeHook, .failedAfterHook])

end

/-! ## Where a program rejects -/

/-- The execution as it has been added, or as it is when it has been
    stopped. -/
def started (stopped : Bool) : ActiveExecution :=
  if stopped then ActiveExecution.added.settle else .added

theorem gone_started {stopped : Bool} : (started stopped).Gone ↔ stopped = true := by
  cases stopped <;> decide

theorem stopExecution_started (stopped : Bool) :
    (started stopped).stopExecution = started true := by
  cases stopped <;> rfl

theorem finalizeExecution_started (stopped : Bool) :
    (started stopped).finalizeExecution = started true := by
  cases stopped <;> rfl

/-- If the program rejects from `e`, nothing of the execution is left. -/
def Clean {α : Type} (m : Start α) (e : ActiveExecution) : Prop :=
  ∀ error, (m e).1 = .error error → (m e).2.Gone

section

variable {α β : Type} {c : Config} {env : Environment} {stopped : Bool}
  {e : ActiveExecution}

@[simp] theorem pure_apply (a : α) : (pure a : Start α) e = (.ok a, e) := rfl

theorem clean_pure (a : α) : Clean (pure a : Start α) e := by
  rintro error ⟨⟩

theorem clean_change (f : ActiveExecution → ActiveExecution) : Clean (Start.change f) e := by
  rintro error ⟨⟩

theorem step_started (env : Environment) (stopped : Bool) (s : RunStep) :
    step env s (started stopped) = (env.outcome s, started (stopped || env.stopped s)) := by
  rw [step]
  cases hs : env.stopped s
  · simp
  · simp [stopExecution_started]

variable {e' : ActiveExecution} {m : Start α}

theorem bind_of_ok {k : α → Start β} {a : α} (hm : m e = (.ok a, e')) : (m >>= k) e = k a e' := by
  simp [bind, hm]

variable {error : RunError}

theorem bind_of_error {k : α → Start β} (hm : m e = (.error error, e')) :
    (m >>= k) e = (.error error, e') := by
  simp [bind, hm]

theorem tryCatch_of_ok {handler : RunError → Start α} {a : α} (hm : m e = (.ok a, e')) :
    tryCatch m handler e = (.ok a, e') := by
  simp [tryCatch, hm]

theorem tryCatch_of_error {f : RunError → Start α} (hm : m e = (.error error, e')) :
    tryCatch m f e = f error e' := by
  simp [tryCatch, hm]

/-- **A STEP** that fails ends the program, and one that succeeds hands the
    execution on. -/
theorem clean_step_bind {s : RunStep} {k : Unit → Start α} :
    Clean (step env s >>= k) (started stopped)
      ↔ match env.outcome s with
        | .ok _ => Clean (k ()) (started (stopped || env.stopped s))
        | .error _ => (stopped || env.stopped s) = true := by
  have hstep := step_started env stopped s
  rcases houtcome : env.outcome s with error | a <;> rw [houtcome] at hstep
  · rw [Clean, bind_of_error hstep]
    exact ⟨fun h => gone_started.mp (h error rfl), fun h _ _ => gone_started.mpr h⟩
  · rw [Clean, bind_of_ok hstep]
    exact Iff.rfl

theorem clean_getExecutionOrFail : Clean getExecutionOrFail (started stopped) := by
  cases stopped
  · rintro error ⟨⟩
  · exact fun _ _ => gone_started.mpr rfl

theorem bind_throw (m : Start α) (error : RunError) (e : ActiveExecution) :
    ∃ rejected, (m >>= fun _ => (throw error : Start β)) e
      = (.error rejected, (m e).2) := by
  rcases hm : m e with ⟨rejected | a, e'⟩
  · exact ⟨rejected, bind_of_error hm⟩
  · exact ⟨error, bind_of_ok hm⟩

theorem finalize_gone : ((Start.change .finalizeExecution >>= fun _ => step env .executeAfterHook)
      (started stopped)).2.Gone := by
  have hfinalize : Start.change .finalizeExecution (started stopped) = (.ok (), started true) := by
    rw [Start.change, finalizeExecution_started]
  rw [bind_of_ok hfinalize, step_started]
  exact gone_started.mpr (Bool.true_or _)

/-- **THE ERROR HANDLER** leaves nothing behind exactly when the execution
    has been stopped or the failure is handled. -/
theorem gone_processError : (processError c env error (started stopped)).2.Gone
      ↔ stopped = true ∨ Handled c env error := by
  rw [processError, Handled]
  cases hcancelled : isCancellation error with
  | true => simp [gone_started]
  | false =>
    rcases hmode : c.mode with _ | _
    · simpa using finalize_gone
    · have hfind := step_started env stopped .findExecution
      rcases hfound : env.outcome .findExecution with rejected | _ <;>
        rw [hfound] at hfind
      · simp [bind_of_error hfind, gone_started]
      · cases hsuccess : env.wasSuccessful with
        | true => simp [bind_of_ok hfind, gone_started]
        | false => simpa [bind_of_ok hfind, hsuccess] using finalize_gone

/-- **A TRIED PROGRAM** whose error handler rejects again. -/
theorem clean_tried_bind (c : Config) (env : Environment) {m : Start Unit} {k : Unit → Start β}
    {result : Except RunError Unit} {before after : Bool}
    (hm : m (started before) = (result, started after)) :
    Clean (tryCatch m (fun error => do
        processError c env error
        throw error) >>= k) (started before)
      ↔ match result with
        | .ok _ => Clean (k ()) (started after)
        | .error error => after = true ∨ Handled c env error := by
  rcases result with error | a
  · obtain ⟨rejected, hrejected⟩ := bind_throw (β := Unit)
      (processError c env error) error (started after)
    have hcaught := (tryCatch_of_error (f := fun error => do
      processError c env error
      throw error) hm).trans hrejected
    rw [Clean, bind_of_error hcaught]
    refine Iff.trans ⟨fun h => h rejected rfl, fun h _ _ => h⟩ ?_
    exact gone_processError
  · rw [Clean, bind_of_ok (tryCatch_of_ok hm)]
    exact Iff.rfl

theorem bind_pure_unit (m : Start Unit) : (m >>= fun _ => pure ()) = m := by
  funext e
  rcases hm : m e with ⟨rejected | a, e'⟩
  · exact bind_of_error hm
  · exact bind_of_ok hm

theorem clean_tried {m : Start Unit} {result : Except RunError Unit}
    {before after : Bool} (hm : m (started before) = (result, started after)) :
    Clean (tryCatch m (fun error => do
        processError c env error
        throw error)) (started before)
      ↔ match result with
        | .ok _ => True
        | .error error => after = true ∨ Handled c env error := by
  have hbind := clean_tried_bind c env (k := fun _ => (pure () : Start Unit)) hm
  rw [bind_pure_unit] at hbind
  refine hbind.trans ?_
  rcases result with error | a
  · exact Iff.rfl
  · exact iff_true_intro (clean_pure ())

end

/-! ## The two ways to run -/

section

variable {c : Config} {env : Environment}

theorem covers_stopped : ∀ steps, Covers c env true steps
  | [] => trivial
  | s :: rest => by
      rw [Covers, Bool.true_or]
      rcases env.outcome s with error | a
      · exact .inl rfl
      · exact covers_stopped rest

theorem startRun_started (c : Config) (env : Environment) (stopped : Bool) :
    startRun c env (started stopped)
      = match env.outcome .startRun with
        | .error error => (.error error, started (stopped || env.stopped .startRun))
        | .ok _ =>
          if stopped || env.stopped .startRun then
            (.error executionNotFoundError, started true)
          else (.ok (), started c.isTimedOut) := by
  have hstep := step_started env stopped .startRun
  rw [startRun]
  rcases houtcome : env.outcome .startRun with error | a <;>
    rw [houtcome] at hstep
  · exact bind_of_error hstep
  · rw [bind_of_ok hstep]
    cases stopped || env.stopped .startRun with
    | true => rfl
    | false =>
      cases htimeout : c.isTimedOut with
      | true => rfl
      | false => rfl

theorem addJob_started (env : Environment) (stopped : Bool) :
    addJob env (started stopped)
      = match env.outcome .addJob with
        | .error error => (.error error, started (stopped || env.stopped .addJob))
        | .ok _ =>
          (env.outcome .executeBeforeHook,
            started (stopped || env.stopped .addJob
              || env.stopped .executeBeforeHook)) := by
  have hstep := step_started env stopped .addJob
  rw [addJob]
  rcases houtcome : env.outcome .addJob with error | a <;>
    rw [houtcome] at hstep
  · exact bind_of_error hstep
  · rw [bind_of_ok hstep]
    exact step_started ..

theorem clean_startRun {stopped : Bool} :
    Clean (tryCatch (startRun c env) (fun error => do
        processError c env error
        throw error)) (started stopped)
      ↔ Covers c env stopped [.startRun] := by
  have hrun := startRun_started c env stopped
  rw [Covers, Covers]
  rcases houtcome : env.outcome .startRun with error | a <;>
    rw [houtcome] at hrun
  · simpa [RunStep.isTried] using clean_tried hrun
  · cases hstopped : stopped || env.stopped .startRun with
    | true =>
      rw [hstopped] at hrun
      refine (clean_tried hrun).trans ?_
      simp
    | false =>
      rw [hstopped] at hrun
      exact clean_tried hrun

section

variable {k : Unit → Start Unit} {rest : List RunStep} {s : RunStep} (htried : s.isTried = false)
  (hrest : ∀ stopped, Clean (k ()) (started stopped) ↔ Covers c env stopped rest) (stopped : Bool)
include htried hrest

theorem clean_step_covers :
    Clean (step env s >>= k) (started stopped) ↔ Covers c env stopped (s :: rest) := by
  rw [clean_step_bind, Covers]
  rcases env.outcome s with error | a
  · simp [htried]
  · exact hrest _

theorem clean_ite_step_covers {taken : Bool} :
    Clean ((if taken then step env s else pure ()) >>= k) (started stopped)
      ↔ Covers c env stopped ((if taken then [s] else []) ++ rest) := by
  cases taken with
  | true => exact clean_step_covers htried hrest stopped
  | false => exact hrest stopped

end

section

variable (stopped : Bool)

theorem clean_runMainProcess :
    Clean (runMainProcess c env) (started stopped)
      ↔ Covers c env stopped
          ((if c.loadStaticData && c.hasWorkflowId then [.loadStaticData]
            else [])
            ++ [.newWorkflow, .getAdditionalData, .setRunning, .startRun]) :=
  clean_ite_step_covers rfl
    (clean_step_covers rfl
      (clean_step_covers rfl (clean_step_covers rfl fun _ => clean_startRun))) stopped

theorem clean_addJob :
    Clean (tryCatch (addJob env) (fun error => do
        processError c env error
        throw error) >>= fun _ => getExecutionOrFail) (started stopped)
      ↔ Covers c env stopped [.addJob, .executeBeforeHook] := by
  have hadd := addJob_started env stopped
  rw [Covers, Covers, Covers]
  rcases hjob : env.outcome .addJob with error | a <;> rw [hjob] at hadd
  · exact (clean_tried_bind c env hadd).trans (by simp [RunStep.isTried])
  · rcases hhook : env.outcome .executeBeforeHook with error | a <;>
      rw [hhook] at hadd
    · exact (clean_tried_bind c env hadd).trans (by simp [RunStep.isTried])
    · exact (clean_tried_bind c env hadd).trans (iff_true_intro clean_getExecutionOrFail)

theorem clean_enqueueExecution :
    Clean (enqueueExecution c env) (started stopped)
      ↔ Covers c env stopped
          ((if c.hasScalingService then [] else [.setupQueue])
            ++ [.addJob, .executeBeforeHook]) := by
  rw [enqueueExecution, setupQueue]
  cases c.hasScalingService with
  | true => exact clean_addJob stopped
  | false => exact clean_step_covers rfl clean_addJob stopped

theorem clean_failExecution :
    Clean (failExecution env) (started stopped)
      ↔ Covers c env stopped [.failedBeforeHook, .failedAfterHook] :=
  clean_step_covers rfl (clean_step_covers rfl fun _ => iff_true_intro (clean_change _)) stopped

theorem clean_runSteps :
    Clean (do
        attachResponsePromise c
        if c.shouldEnqueue then enqueueExecution c env
        else runMainProcess c env) (started stopped)
      ↔ Covers c env stopped (runSteps c) := by
  have hsteps : ∀ stopped, Clean (if c.shouldEnqueue then
      enqueueExecution c env else runMainProcess c env) (started stopped)
      ↔ Covers c env stopped (runSteps c) := by
    intro stopped
    rw [runSteps]
    split
    · exact clean_enqueueExecution stopped
    · exact clean_runMainProcess stopped
  rw [attachResponsePromise]
  cases c.hasResponsePromise with
  | false => exact hsteps stopped
  | true =>
    cases stopped with
    | false => exact hsteps false
    | true =>
      refine iff_of_true ?_ (covers_stopped _)
      exact fun _ _ => gone_started.mpr rfl

end

/-- **EVERY START** leaves nothing behind exactly when the step that fails is
    covered. -/
theorem leavesNothing_iff_covered (c : Config) (env : Environment) :
    LeavesNothing c env ↔ Covered c env := by
  have hcheck := step_started env false .checkPermissions
  have hrun : Clean (run c env) (started false) ↔ Covered c env := by
    rw [Covered, Clean, run, hcheck]
    rcases env.outcome .checkPermissions with error | a
    · exact clean_failExecution _
    · exact clean_runSteps _
  exact hrun

end

/-! ## A start that fails -/

/-- A production execution in regular mode. -/
def oneConfig : Config :=
  { mode := .regular
    offloadManualExecutions := false
    hasScalingService := false
    timeout := -1
    maxTimeout := 3600
    executionMode := .webhook
    hasWorkflowId := true
    loadStaticData := true
    hasResponsePromise := false
    executionTimeout := none
    elapsed := none }

/-- The database is locked when the static data is loaded. -/
def locked : Environment :=
  { outcome := fun s =>
      if s = .loadStaticData then
        .error { type := .other, message := some "database is locked" }
      else .ok ()
    stopped := fun _ => false
    wasSuccessful := false }

/-- The start rejects, and the execution stays active with its slot. -/
theorem static_data_leaves_execution : ¬ ∀ c env, LeavesNothing c env := by
  intro hall
  have hgone := hall oneConfig locked
    { type := .other, message := some "database is locked" } rfl
  revert hgone
  decide

end N8nWorkflowRunner
