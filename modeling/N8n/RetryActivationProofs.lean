import Mathlib.Data.List.Basic
import N8n.RunProofs

/-! # Activation retries — a queue entry, a timer and a pending `add`

    A workflow that could not be activated is put in `queuedActivations`, and
    a timer calls the retry function.  The retry awaits `add`, and when that
    throws it goes back to the entry: it doubles the delay and sets the next
    timer.  `remove` runs at any point of this.

    A removal takes back what it finds: the entry and the timer of the entry,
    and only in single-main mode.  A retry that has already fired is neither
    in the queue nor a timer, so it goes on after the deactivation, and an
    entry is left on the leader in multi-main mode.
    `deactivationWins_iff_settled` says at which steps this shows.

    The maps of the manager are only read and written at the id of the
    workflow at hand, so the state is kept workflow by workflow. -/

namespace N8nRetryActivation

open N8nRun

abbrev WorkflowId := String

/-! ## State -/

/-- An entry of `queuedActivations`: the delay and the timer of the last
    attempt that was scheduled. -/
structure QueuedActivation where
  lastTimeout : Nat
  timeout : Nat

/-- How far a retry got.  In multi-main mode the retry ends with the command
    it publishes, and the leader that handles the command goes on. -/
inductive RetryStage where
  /-- `add` was called; -/
  | adding
  /-- the command is published, `add` has returned; -/
  | published
  /-- the triggers and pollers are in memory; -/
  | added
  /-- nothing is left in the queue. -/
  | dequeued
deriving DecidableEq

/-- How far a removal got: up to the queue, or to the close functions. -/
inductive RemovalStage where
  | clearing | closing
deriving DecidableEq

/-- What the manager holds of one workflow, with the retry timers that are
    armed and the calls that have not returned.  `active` says that it is in
    `activeWorkflows`, `emittedErrors` counts the removals that a failing
    trigger has started.  `deactivated` says that a removal has completed and
    no activation was tried since, `retryFailed` that a retry function threw
    on a missing entry. -/
structure Activation where
  queuedActivation : Option QueuedActivation
  timers : List Nat
  nextTimer : Nat
  retries : List RetryStage
  active : Bool
  emittedErrors : Nat
  removals : List RemovalStage
  deactivated : Bool
  retryFailed : Bool

namespace Activation

def new : Activation :=
  { queuedActivation := none
    timers := []
    nextTimer := 0
    retries := []
    active := false
    emittedErrors := 0
    removals := []
    deactivated := false
    retryFailed := false }

/-! ## The functions of the manager -/

def WORKFLOW_REACTIVATE_INITIAL_TIMEOUT : Nat := 1000

def WORKFLOW_REACTIVATE_MAX_TIMEOUT : Nat := 86400000

/-- The entry goes, and the timer of the entry with it. -/
def removeQueuedWorkflowActivation (w : Activation) : Activation :=
  match w.queuedActivation with
  | none => w
  | some queued =>
    { w with
      queuedActivation := none
      timers := w.timers.filter fun timer => timer ≠ queued.timeout }

/-- `setTimeout(retryFunction, lastTimeout)`, noted in the entry. -/
def schedule (w : Activation) (lastTimeout : Nat) : Activation :=
  { w with
    queuedActivation := some { lastTimeout, timeout := w.nextTimer }
    timers := w.timers ++ [w.nextTimer]
    nextTimer := w.nextTimer + 1 }

def addQueuedWorkflowActivation (w : Activation) : Activation :=
  w.removeQueuedWorkflowActivation.schedule WORKFLOW_REACTIVATE_INITIAL_TIMEOUT

/-- The delay after one more failure. -/
def nextTimeout (lastTimeout : Nat) : Nat :=
  if lastTimeout < WORKFLOW_REACTIVATE_MAX_TIMEOUT then
    min (lastTimeout * 2) WORKFLOW_REACTIVATE_MAX_TIMEOUT
  else lastTimeout

/-- The `catch` of the retry function.  The timer of the entry is replaced,
    whether it has fired or not; without an entry reading `lastTimeout`
    throws. -/
def retryCatch (w : Activation) : Activation :=
  match w.queuedActivation with
  | none => { w with retryFailed := true }
  | some queued => w.schedule (nextTimeout queued.lastTimeout)

/-- What a removal does in one go once the webhooks and the activation error
    are gone.  `handleRemoveTriggersAndPollers` leaves the queue alone. -/
def clearQueue (isMultiMain : Bool) (w : Activation) : Activation :=
  if isMultiMain then w else w.removeQueuedWorkflowActivation

/-- The removal is over. -/
def deactivate (w : Activation) (removal : Nat) : Activation :=
  { w with
    active := false
    removals := w.removals.eraseIdx removal
    deactivated := true }

end Activation

/-! ## Steps -/

/-- What can happen to a workflow.  Retries and removals are given by their
    place among those in flight. -/
inductive Event where
  /-- `activateWorkflow` failed and queues a retry; -/
  | activationFailed
  /-- `add` is called otherwise than by a retry, and succeeds; -/
  | activated
  /-- a trigger fails: the workflow is taken out of memory, and queued; -/
  | emitError
  /-- the close functions called on that have returned; -/
  | triggersClosed
  | removeAllQueuedWorkflowActivations
  | timerFired (timer : Nat)
  | retryPublished (retry : Nat)
  | retryAdded (retry : Nat)
  /-- the first poll fails, and the mark of the workflow is taken back; -/
  | retryUnmarked (retry : Nat)
  | retryDequeued (retry : Nat)
  | retrySucceeded (retry : Nat)
  /-- any of the steps of `add` throws; -/
  | retryThrew (retry : Nat)
  | removeStarted
  | removeCleared (removal : Nat)
  | removeClosed (removal : Nat)
  | removeThrew (removal : Nat)

/-- The stage a retry is in while its `add` activates the workflow. -/
def activating (isMultiMain : Bool) : RetryStage :=
  if isMultiMain then .published else .adding

/-- Whether the retry function awaits what goes on.  What the handler of the
    published command throws does not come back to it. -/
def awaited (isMultiMain : Bool) (stage : RetryStage) : Bool := !isMultiMain || stage = .adding

def Enabled (isMultiMain : Bool) (w : Activation) : Event → Prop
  | .triggersClosed => 0 < w.emittedErrors
  | .timerFired timer => timer ∈ w.timers
  | .retryPublished retry => isMultiMain = true ∧ w.retries[retry]? = some .adding
  | .retryAdded retry => w.retries[retry]? = some (activating isMultiMain)
  | .retryUnmarked retry => w.retries[retry]? = some .added
  | .retryDequeued retry =>
    -- A workflow that has only webhooks is never put in memory.
    w.retries[retry]? = some .added ∨ w.retries[retry]? = some (activating isMultiMain)
  | .retrySucceeded retry => w.retries[retry]? = some .dequeued
  | .retryThrew retry => retry < w.retries.length
  | .removeCleared removal => w.removals[removal]? = some .clearing
  | .removeClosed removal => w.removals[removal]? = some .closing
  | .removeThrew removal => removal < w.removals.length
  | _ => True

instance (isMultiMain : Bool) (w : Activation) (e : Event) :
    Decidable (Enabled isMultiMain w e) := by
  cases e <;> unfold Enabled <;> infer_instance

def next (isMultiMain : Bool) (w : Activation) : Event → Activation
  | .activationFailed => { w.addQueuedWorkflowActivation with deactivated := false }
  | .activated =>
    { w.removeQueuedWorkflowActivation with
      active := true
      deactivated := false }
  | .emitError =>
    { w.addQueuedWorkflowActivation with
      emittedErrors :=
        if w.active then w.emittedErrors + 1 else w.emittedErrors }
  | .triggersClosed => { w with active := false, emittedErrors := w.emittedErrors - 1 }
  | .removeAllQueuedWorkflowActivations => w.removeQueuedWorkflowActivation
  | .timerFired timer =>
    { w with
      timers := w.timers.filter fun t => t ≠ timer
      retries := w.retries ++ [.adding] }
  | .retryPublished retry => { w with retries := w.retries.set retry .published }
  | .retryAdded retry => { w with active := true, retries := w.retries.set retry .added }
  | .retryUnmarked _ => { w with active := false }
  | .retryDequeued retry =>
    { w.removeQueuedWorkflowActivation with
      retries := w.retries.set retry .dequeued }
  | .retrySucceeded retry => { w with retries := w.retries.eraseIdx retry }
  | .retryThrew retry =>
    let w' := { w with retries := w.retries.eraseIdx retry }
    if w.retries[retry]?.any (awaited isMultiMain) then w'.retryCatch
    else w'
  | .removeStarted => { w with removals := w.removals ++ [.clearing] }
  | .removeCleared removal =>
    let w' := w.clearQueue isMultiMain
    if w.active then
      { w' with removals := w.removals.set removal .closing }
    else w'.deactivate removal
  | .removeClosed removal => w.deactivate removal
  | .removeThrew removal => { w with removals := w.removals.eraseIdx removal }

/-- The manager of an instance: the mode, and every workflow's part. -/
structure Manager where
  isMultiMain : Bool
  workflows : WorkflowId → Activation

def Manager.new (isMultiMain : Bool) : Manager :=
  { isMultiMain, workflows := fun _ => .new }

/-- An event happens to one workflow. -/
def Manager.next (m : Manager) (e : WorkflowId × Event) : Manager :=
  { m with workflows := fun workflowId =>
      if workflowId = e.1 then
        N8nRetryActivation.next m.isMultiMain (m.workflows e.1) e.2
      else m.workflows workflowId }

def Step (m : Manager) (e : WorkflowId × Event) (m' : Manager) : Prop :=
  Enabled m.isMultiMain (m.workflows e.1) e.2 ∧ m' = m.next e

/-! ## The property and the condition -/

/-- After a deactivation nothing is left of the retries, and no retry
    function ever fails on its missing entry. -/
structure DeactivationWins (w : Activation) : Prop where
  noQueued : w.deactivated = true → w.queuedActivation = none
  noTimer : w.deactivated = true → w.timers = []
  inactive : w.deactivated = true → w.active = false
  noFailure : w.retryFailed = false

instance (w : Activation) : Decidable (DeactivationWins w) :=
  decidable_of_iff
    ((w.deactivated = true → w.queuedActivation = none)
      ∧ (w.deactivated = true → w.timers = [])
      ∧ (w.deactivated = true → w.active = false) ∧ w.retryFailed = false)
    ⟨fun h => ⟨h.1, h.2.1, h.2.2.1, h.2.2.2⟩, fun h => ⟨h.1, h.2, h.3, h.4⟩⟩

/-- The condition, on the state a step is taken from. -/
def Settled (isMultiMain : Bool) (w : Activation) : Event → Prop
  | .removeCleared _ =>
    -- A removal that ends here clears the timer of the entry at most.
    w.active = false →
      if isMultiMain then w.queuedActivation = none ∧ w.timers = []
      else ∀ timer ∈ w.timers, ∃ queued, w.queuedActivation = some queued ∧ timer = queued.timeout
  | .removeClosed _ => w.queuedActivation = none ∧ w.timers = []
  | .emitError => w.deactivated = false
  | .retryAdded _ => w.deactivated = false
  | .retryThrew retry =>
    w.retries[retry]?.any (awaited isMultiMain) = true → w.queuedActivation.isSome = true
  | _ => True

/-! ## What the functions do -/

section

variable {w : Activation}

@[simp] theorem removeQueued_queuedActivation :
    w.removeQueuedWorkflowActivation.queuedActivation = none := by
  rcases h : w.queuedActivation with _ | queued <;>
    simp [Activation.removeQueuedWorkflowActivation, h]

@[simp] theorem removeQueued_active : w.removeQueuedWorkflowActivation.active = w.active := by
  rcases h : w.queuedActivation with _ | queued <;>
    simp [Activation.removeQueuedWorkflowActivation, h]

@[simp] theorem removeQueued_deactivated :
    w.removeQueuedWorkflowActivation.deactivated = w.deactivated := by
  rcases h : w.queuedActivation with _ | queued <;>
    simp [Activation.removeQueuedWorkflowActivation, h]

@[simp] theorem removeQueued_retryFailed :
    w.removeQueuedWorkflowActivation.retryFailed = w.retryFailed := by
  rcases h : w.queuedActivation with _ | queued <;>
    simp [Activation.removeQueuedWorkflowActivation, h]

theorem removeQueued_timers_eq_nil :
    w.removeQueuedWorkflowActivation.timers = [] ↔ ∀ timer ∈ w.timers,
      ∃ queued, w.queuedActivation = some queued ∧ timer = queued.timeout := by
  rcases h : w.queuedActivation with _ | queued
  · simp [Activation.removeQueuedWorkflowActivation, h, List.eq_nil_iff_forall_not_mem]
  · simp [Activation.removeQueuedWorkflowActivation, h, List.filter_eq_nil_iff]

end

theorem deactivationWins_of_activated {w : Activation}
    (hactivated : w.deactivated = false) (hfailed : w.retryFailed = false) :
    DeactivationWins w := by
  constructor
  · intro h
    exact absurd (hactivated.symm.trans h) Bool.false_ne_true
  · intro h
    exact absurd (hactivated.symm.trans h) Bool.false_ne_true
  · intro h
    exact absurd (hactivated.symm.trans h) Bool.false_ne_true
  · exact hfailed

theorem deactivationWins_of_deactivated {w : Activation} (hdeactivated : w.deactivated = true) :
    DeactivationWins w ↔ w.queuedActivation = none ∧ w.timers = []
      ∧ w.active = false ∧ w.retryFailed = false :=
  ⟨fun h => ⟨h.noQueued hdeactivated, h.noTimer hdeactivated, h.inactive hdeactivated, h.noFailure⟩,
    fun h => ⟨fun _ => h.1, fun _ => h.2.1, fun _ => h.2.2.1, h.2.2.2⟩⟩

/-! ## One step -/

section

variable {isMultiMain : Bool} {w : Activation}

theorem DeactivationWins.fewer {w' : Activation} (h : DeactivationWins w)
    (hdeactivated : w'.deactivated = w.deactivated)
    (hqueued : w.queuedActivation = none → w'.queuedActivation = none)
    (htimers : w.timers = [] → w'.timers = []) (hactive : w.active = false → w'.active = false)
    (hfailed : w'.retryFailed = w.retryFailed) : DeactivationWins w' := by
  constructor
  · intro hd
    exact hqueued (h.noQueued (hdeactivated ▸ hd))
  · intro hd
    exact htimers (h.noTimer (hdeactivated ▸ hd))
  · intro hd
    exact hactive (h.inactive (hdeactivated ▸ hd))
  · exact hfailed.trans h.noFailure

theorem removeQueued_timers_of_nil (h : w.timers = []) :
    w.removeQueuedWorkflowActivation.timers = [] :=
  removeQueued_timers_eq_nil.mpr (by simp [h])

/-- **A RETRY FAILS**: the `catch` needs the entry. -/
theorem deactivationWins_retryCatch (h : DeactivationWins w) :
    DeactivationWins w.retryCatch ↔ w.queuedActivation.isSome = true := by
  rcases hqueued : w.queuedActivation with _ | queued
  · simp only [Activation.retryCatch, hqueued, Option.isSome_none]
    constructor
    · intro hwins
      exact absurd hwins.noFailure Bool.true_eq_false.mp
    · intro hfalse
      exact absurd hfalse Bool.false_ne_true
  · simp only [Activation.retryCatch, hqueued, Option.isSome_some, iff_true]
    -- The entry says that no deactivation has completed.
    have hactivated : w.deactivated = false := by
      cases hd : w.deactivated with
      | false => rfl
      | true =>
        rw [h.noQueued hd] at hqueued
        cases hqueued
    exact deactivationWins_of_activated hactivated h.noFailure

/-- **A REMOVAL ENDS** in a state that has nothing left of the retries. -/
theorem deactivationWins_deactivate (h : w.retryFailed = false)
    (removal : Nat) : DeactivationWins (w.deactivate removal)
      ↔ w.queuedActivation = none ∧ w.timers = [] := by
  rw [deactivationWins_of_deactivated rfl]
  constructor
  · rintro ⟨hqueued, htimers, -⟩
    exact ⟨hqueued, htimers⟩
  · rintro ⟨hqueued, htimers⟩
    exact ⟨hqueued, htimers, rfl, h⟩

theorem clearQueue_eq_nil : (w.clearQueue isMultiMain).queuedActivation = none
        ∧ (w.clearQueue isMultiMain).timers = []
      ↔ if isMultiMain then w.queuedActivation = none ∧ w.timers = []
        else ∀ timer ∈ w.timers, ∃ queued,
          w.queuedActivation = some queued ∧ timer = queued.timeout := by
  cases isMultiMain with
  | true => exact Iff.rfl
  | false => simp [Activation.clearQueue, removeQueued_timers_eq_nil]

theorem clearQueue_retryFailed : (w.clearQueue isMultiMain).retryFailed = w.retryFailed := by
  cases isMultiMain with
  | true => rfl
  | false => exact removeQueued_retryFailed

theorem DeactivationWins.clearQueue (h : DeactivationWins w) (removals : List RemovalStage) :
    DeactivationWins
      { w.clearQueue isMultiMain with removals := removals } := by
  cases isMultiMain with
  | true => exact h.fewer rfl id id id rfl
  | false =>
    exact h.fewer removeQueued_deactivated
      (fun _ => removeQueued_queuedActivation) removeQueued_timers_of_nil
      (fun hactive => removeQueued_active.trans hactive) removeQueued_retryFailed

/-- **ONE STEP** keeps the property exactly when it meets the condition. -/
theorem deactivationWins_next_iff {e : Event} (h : DeactivationWins w) :
    DeactivationWins (next isMultiMain w e) ↔ Settled isMultiMain w e := by
  cases e with
  | activationFailed =>
    refine iff_of_true (deactivationWins_of_activated rfl ?_) trivial
    exact removeQueued_retryFailed.trans h.noFailure
  | activated =>
    refine iff_of_true (deactivationWins_of_activated rfl ?_) trivial
    exact removeQueued_retryFailed.trans h.noFailure
  | emitError =>
    constructor
    · intro hwins
      -- The new entry is there, so the deactivation is not.
      refine Bool.eq_false_iff.mpr fun hd => ?_
      have hnone := hwins.noQueued (removeQueued_deactivated.trans hd)
      cases hnone
    · intro hactivated
      exact deactivationWins_of_activated (removeQueued_deactivated.trans hactivated)
        (removeQueued_retryFailed.trans h.noFailure)
  | triggersClosed => exact iff_of_true (h.fewer rfl id id (fun _ => rfl) rfl) trivial
  | removeAllQueuedWorkflowActivations =>
    refine iff_of_true (h.fewer removeQueued_deactivated
      (fun _ => removeQueued_queuedActivation) removeQueued_timers_of_nil
      (fun hactive => removeQueued_active.trans hactive) removeQueued_retryFailed) trivial
  | timerFired timer =>
    refine iff_of_true (h.fewer rfl id (fun htimers => ?_) id rfl) trivial
    simp [next, htimers]
  | retryPublished retry => exact iff_of_true (h.fewer rfl id id id rfl) trivial
  | retryAdded retry =>
    constructor
    · intro hwins
      refine Bool.eq_false_iff.mpr fun hd => ?_
      have hinactive := hwins.inactive hd
      cases hinactive
    · intro hactivated
      exact deactivationWins_of_activated hactivated h.noFailure
  | retryUnmarked retry =>
    exact iff_of_true (h.fewer rfl id id (fun _ => rfl) rfl) trivial
  | retryDequeued retry =>
    refine iff_of_true (h.fewer removeQueued_deactivated
      (fun _ => removeQueued_queuedActivation) removeQueued_timers_of_nil
      (fun hactive => removeQueued_active.trans hactive) removeQueued_retryFailed) trivial
  | retrySucceeded retry => exact iff_of_true (h.fewer rfl id id id rfl) trivial
  | retryThrew retry =>
    have herased :
        DeactivationWins { w with retries := w.retries.eraseIdx retry } :=
      h.fewer rfl id id id rfl
    simp only [next, Settled]
    by_cases hawaited : w.retries[retry]?.any (awaited isMultiMain) = true
    · rw [if_pos hawaited, deactivationWins_retryCatch herased]
      exact ⟨fun hsome _ => hsome, fun hsome => hsome hawaited⟩
    · rw [if_neg hawaited]
      exact iff_of_true herased fun hany => absurd hany hawaited
  | removeStarted => exact iff_of_true (h.fewer rfl id id id rfl) trivial
  | removeCleared removal =>
    simp only [next, Settled]
    by_cases hactive : w.active = true
    · rw [if_pos hactive]
      refine iff_of_true (h.clearQueue _) fun hinactive => ?_
      exact absurd (hinactive.symm.trans hactive) Bool.false_ne_true
    · rw [if_neg hactive, deactivationWins_deactivate
        (clearQueue_retryFailed.trans h.noFailure), clearQueue_eq_nil]
      exact ⟨fun hleft _ => hleft, fun hleft => hleft (Bool.eq_false_iff.mpr hactive)⟩
  | removeClosed removal => exact deactivationWins_deactivate h.noFailure removal
  | removeThrew removal => exact iff_of_true (h.fewer rfl id id id rfl) trivial

end

/-! ## Every run -/

theorem next_workflows_ne {m : Manager} {e : WorkflowId × Event}
    {workflowId : WorkflowId} (hne : e.1 ≠ workflowId) :
    (m.next e).workflows workflowId = m.workflows workflowId :=
  if_neg (Ne.symm hne)

theorem next_workflows_self (m : Manager) (e : WorkflowId × Event) :
    (m.next e).workflows e.1 = next m.isMultiMain (m.workflows e.1) e.2 :=
  if_pos rfl

/-- **EVERY RUN**: deactivation wins over the retries of a workflow exactly
    when every step of that workflow is a settled one. -/
theorem deactivationWins_iff_settled {isMultiMain : Bool}
    {path : List ((WorkflowId × Event) × Manager)}
    (hrun : IsRun Step (.new isMultiMain) path) (workflowId : WorkflowId) :
    EveryState (fun m => DeactivationWins (m.workflows workflowId)) (.new isMultiMain) path
      ↔ EveryStep (fun m e => e.1 = workflowId →
          Settled m.isMultiMain (m.workflows workflowId) e.2) (.new isMultiMain) path := by
  have hstep : ∀ m e m', DeactivationWins (m.workflows workflowId) →
      Step m e m' → (DeactivationWins (m'.workflows workflowId)
        ↔ (e.1 = workflowId → Settled m.isMultiMain (m.workflows workflowId) e.2)) := by
    rintro m ⟨other, e⟩ m' hwins ⟨-, rfl⟩
    by_cases heq : other = workflowId
    · subst heq
      rw [next_workflows_self m (other, e), deactivationWins_next_iff hwins]
      exact ⟨fun hsettled _ => hsettled, fun hsettled => hsettled rfl⟩
    · rw [next_workflows_ne (e := (other, e)) heq]
      exact iff_of_true hwins fun h => absurd h heq
  refine everyState_iff_everyStep hrun ?_ (fun _ h => h) ?_ ?_
  · exact deactivationWins_of_activated rfl rfl
  · intro m e m' hwins hst hsettled
    exact (hstep m e m' hwins hst).mpr hsettled
  · intro m e m' hwins hst hsettled hwins'
    exact hsettled ((hstep m e m' hwins hst).mp hwins')

/-! ## Runs of one workflow -/

/-- The events of the workflow with id `"1"`. -/
def events (es : List Event) : List (WorkflowId × Event) := es.map fun e => ("1", e)

/-- The retry fails and is queued again; then the workflow is deactivated. -/
theorem deactivationWins_between_retries :
    EveryState (fun m => DeactivationWins (m.workflows "1")) (.new false)
      (pathOf Manager.next (.new false) (events
        [.activationFailed, .timerFired 0, .retryThrew 0, .removeStarted, .removeCleared 0])) := by
  refine (deactivationWins_iff_settled ?_ "1").mpr ?_
  · exact ⟨⟨trivial, rfl⟩, ⟨by decide, rfl⟩, ⟨by decide, rfl⟩,
      ⟨trivial, rfl⟩, ⟨by decide, rfl⟩, trivial⟩
  · refine ⟨fun _ => trivial, fun _ => trivial, fun _ _ => rfl,
      fun _ => trivial, fun _ _ timer hmem => ?_, trivial⟩
    exact ⟨⟨2000, 1⟩, rfl, List.mem_singleton.mp hmem⟩

/-- A retry is pending while the workflow is deactivated.  It fails, and the
    retry function throws on the entry that is gone; or it succeeds, and the
    workflow is active again.  In multi-main mode the entry of a retry whose
    command failed outlives the deactivation. -/
theorem pending_retry_outlives_remove :
    let pending := [.activationFailed, .timerFired 0, .removeStarted, .removeCleared 0]
    let fails := pathOf Manager.next (.new false) (events (pending ++ [.retryThrew 0]))
    let succeeds := pathOf Manager.next (.new false) (events (pending ++ [.retryAdded 0]))
    let published := pathOf Manager.next (.new true) (events
      [.activationFailed, .timerFired 0, .retryPublished 0, .retryThrew 0,
       .removeStarted, .removeCleared 0])
    (IsRun Step (.new false) fails
        ∧ ((lastState (.new false) fails).workflows "1").retryFailed = true
        ∧ ¬ EveryState (fun m => DeactivationWins (m.workflows "1")) (.new false) fails)
      ∧ (IsRun Step (.new false) succeeds
        ∧ ((lastState (.new false) succeeds).workflows "1").active = true
        ∧ ¬ EveryState (fun m => DeactivationWins (m.workflows "1")) (.new false) succeeds)
      ∧ (IsRun Step (.new true) published
        ∧ ((lastState (.new true) published).workflows "1").queuedActivation = some ⟨1000, 0⟩
        ∧ ¬ EveryState (fun m => DeactivationWins (m.workflows "1")) (.new true) published) := by
  refine ⟨⟨⟨⟨trivial, rfl⟩, ⟨by decide, rfl⟩, ⟨trivial, rfl⟩,
      ⟨by decide, rfl⟩, ⟨by decide, rfl⟩, trivial⟩, rfl, fun hall => ?_⟩,
    ⟨⟨⟨trivial, rfl⟩, ⟨by decide, rfl⟩, ⟨trivial, rfl⟩, ⟨by decide, rfl⟩,
      ⟨by decide, rfl⟩, trivial⟩, rfl, fun hall => ?_⟩,
    ⟨⟨trivial, rfl⟩, ⟨by decide, rfl⟩, ⟨by decide, rfl⟩, ⟨by decide, rfl⟩,
      ⟨trivial, rfl⟩, ⟨by decide, rfl⟩, trivial⟩, rfl, fun hall => ?_⟩
  · have hfailure := hall.last.noFailure
    cases hfailure
  · have hinactive := hall.last.inactive rfl
    cases hinactive
  · have hqueued := hall.last.noQueued rfl
    cases hqueued

end N8nRetryActivation
