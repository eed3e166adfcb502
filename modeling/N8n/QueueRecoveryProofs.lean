import N8n.ActiveExecutionsProofs

/-! # Recovery from the queue

    `recoverFromQueue` reads the executions stored as in progress, then the
    jobs of the queue, and marks the difference as crashed.  Executions and
    jobs go on between these steps, so each of them is a step of its own,
    and so is each step of an execution and its job.

    The marks are right when the two reads fit together: no execution that
    was read was still to be enqueued, or finished meanwhile. -/

namespace N8nQueueRecovery

open N8nRun N8nOrderedMap List OrderedMap
open N8nConcurrencyQueue (ExecutionId)
open N8nActiveExecutions (ExecutionStatus)

/-! ## Executions and their jobs -/

/-- The job of an execution.  It is to be added; or it is in the queue, and
    a worker has not taken it, has not read the status of its execution, has
    refused it, has taken it up, runs it, or has saved its result; or it has
    left the queue.  An execution that failed or runs without a job is
    `jobless` until a process saves its result, and `lost` when there is no
    such process. -/
inductive JobStage where
  | unqueued
  | waiting | active | refused | loaded | running | saved
  | finished | jobless | lost
deriving DecidableEq

/-- The job is `active` or `waiting` in the terms of the queue. -/
def JobStage.inQueue : JobStage → Bool
  | .waiting | .active | .refused | .loaded | .running | .saved => true
  | _ => false

/-- No result of the execution is saved or refused yet. -/
def JobStage.isOpen : JobStage → Bool
  | .unqueued | .waiting | .active | .loaded | .running => true
  | _ => false

/-- A stored execution; `recovered` is the history of its status: whether
    `markAsCrashed` wrote it. -/
structure Execution where
  status : ExecutionStatus
  job : JobStage
  recovered : Bool
deriving DecidableEq

def Execution.inProgress (e : Execution) : Bool := e.status = .new || e.status = .running

/-! ## The recovery -/

structure QueueRecoveryContext where
  batchSize : Nat
  waitMs : Nat

/-- Where `recoverFromQueue` stands.  Jobs that leave the queue between the
    listing of their ids and the loading of their data are `null`, and
    dropped. -/
inductive Recovery where
  | idle (nextWaitMs : Option Nat)
  | stored (storedIds : List ExecutionId)
  | listed (storedIds jobs : List ExecutionId)
  | marking (storedCount : Nat) (danglingIds : List ExecutionId)

/-- The job of an execution leaves the queue. -/
def Recovery.dropJob (id : ExecutionId) : Recovery → Recovery
  | .listed storedIds jobs => .listed storedIds (jobs.filter (· ≠ id))
  | recovery => recovery

structure ScalingService where
  queueRecoveryContext : QueueRecoveryContext
  executions : OrderedMap ExecutionId Execution
  recovery : Recovery

namespace ScalingService

def start (context : QueueRecoveryContext) : ScalingService :=
  { queueRecoveryContext := context
    executions := .empty
    recovery := .idle none }

/-- The executions `findJobsByStatus(['active', 'waiting'])` finds. -/
def findJobsByStatus (s : ScalingService) : List ExecutionId :=
  (s.executions.filter fun p => p.2.job.inQueue).keys

def maxUpdateBatchSize : Nat := 900

/-- One `UPDATE` of `markAsCrashed`. -/
def markBatch (s : ScalingService) (batch : List ExecutionId) : OrderedMap ExecutionId Execution :=
  s.executions.map fun id e =>
    if id ∈ batch then { e with status := .crashed, recovered := true } else e

/-- The time until the next cycle. -/
def nextWaitMs (s : ScalingService) (storedCount : Nat) : Nat :=
  if s.queueRecoveryContext.batchSize ≤ storedCount then
    s.queueRecoveryContext.waitMs / 2
  else s.queueRecoveryContext.waitMs

/-- `recoverFromQueue` has read the stored executions in progress. -/
def readStored (s : ScalingService) (storedIds : List ExecutionId) : ScalingService :=
  if storedIds.isEmpty then
    { s with recovery := .idle (some s.queueRecoveryContext.waitMs) }
  else { s with recovery := .stored storedIds }

/-- It has read the ids of the jobs in the queue. -/
def listJobs (s : ScalingService) : ScalingService :=
  match s.recovery with
  | .stored storedIds => { s with recovery := .listed storedIds s.findJobsByStatus }
  | _ => s

/-- It has loaded the jobs, and knows the dangling executions. -/
def loadJobs (s : ScalingService) : ScalingService :=
  match s.recovery with
  | .listed storedIds queuedIds =>
    let danglingIds := storedIds.filter (· ∉ queuedIds)
    if danglingIds.isEmpty then
      { s with recovery := .idle (some s.queueRecoveryContext.waitMs) }
    else { s with recovery := .marking storedIds.length danglingIds }
  | _ => s

/-- The next batch of `markAsCrashed` is written. -/
def markAsCrashed (s : ScalingService) : ScalingService :=
  match s.recovery with
  | .marking storedCount danglingIds =>
    let executions := s.markBatch (danglingIds.take maxUpdateBatchSize)
    let rest := danglingIds.drop maxUpdateBatchSize
    if rest.isEmpty then
      { s with executions, recovery := .idle (s.nextWaitMs storedCount) }
    else { s with executions, recovery := .marking storedCount rest }
  | _ => s

/-- An `await` of `recoverFromQueue` throws. -/
def abort (s : ScalingService) : ScalingService :=
  { s with recovery := .idle none }

end ScalingService

/-! ## Steps of an execution -/

/-- What can happen to an execution and its job. -/
inductive ExecutionStep where
  | resume
  | runWithoutJob
  | addJob
  | take
  | readStatus
  | setRunning
  | save (status : ExecutionStatus)
  | complete
  | fail
  | lose
  | saveJobless (status : ExecutionStatus)

/-- The results an execution is saved with. -/
def isResult (status : ExecutionStatus) : Bool := status ≠ .new && status ≠ .running

/-- The execution after a step, `none` where it cannot take the step. -/
def Execution.advance (e : Execution) : ExecutionStep → Option Execution
  | .resume =>
    -- Only the execution whose status is `waiting` is updated.
    if e.job = .finished ∧ e.status = .waiting then
      some { status := .running, job := .unqueued, recovered := false }
    else none
  | .runWithoutJob =>
    if e.job = .unqueued then
      some { status := .running, job := .jobless, recovered := false }
    else none
  | .addJob => if e.job = .unqueued then some { e with job := .waiting } else none
  | .take => if e.job = .waiting then some { e with job := .active } else none
  | .readStatus =>
    -- A worker does not process a crashed execution.
    if e.job = .active then
      some { e with
        job := if e.status = .crashed then .refused else .loaded }
    else none
  | .setRunning =>
    if e.job = .loaded then
      some { status := .running, job := .running, recovered := false }
    else none
  | .save status =>
    if e.job = .running ∧ isResult status then
      some { status, job := .saved, recovered := false }
    else none
  | .complete =>
    if e.job = .saved ∨ e.job = .refused then
      some { e with job := .finished }
    else none
  | .fail => if e.job.isOpen then some { e with job := .jobless } else none
  | .lose =>
    if e.job.isOpen ∨ e.job = .jobless then some { e with job := .lost }
    else none
  | .saveJobless status =>
    if e.job = .jobless ∧ isResult status then
      some { status, job := .finished, recovered := false }
    else none

def ExecutionStep.leavesQueue : ExecutionStep → Bool
  | .complete | .fail | .lose => true
  | _ => false

namespace ScalingService

/-- A new execution is stored. -/
def create (s : ScalingService) (id : ExecutionId) : ScalingService :=
  { s with
    executions := s.executions.set id
      { status := .new, job := .unqueued, recovered := false } }

/-- An execution takes a step. -/
def advance (s : ScalingService) (id : ExecutionId) (step : ExecutionStep) : ScalingService :=
  match (s.executions.get? id).bind (·.advance step) with
  | none => s
  | some e =>
    { s with
      executions := s.executions.set id e
      recovery :=
        if step.leavesQueue then s.recovery.dropJob id else s.recovery }

end ScalingService

/-! ## Runs -/

inductive Event where
  | create (id : ExecutionId)
  | advance (id : ExecutionId) (step : ExecutionStep)
  | readStored (storedIds : List ExecutionId)
  | listJobs
  | loadJobs
  | markAsCrashed
  | abort

/-- `getInProgressExecutionIds` answers with so many of the executions in
    progress; which ones come first is up to the database. -/
def IsInProgressAnswer (s : ScalingService) (storedIds : List ExecutionId) : Prop :=
  let inProgress := (s.executions.filter fun p => p.2.inProgress).keys
  storedIds.Nodup ∧ (∀ id ∈ storedIds, id ∈ inProgress)
    ∧ storedIds.length = min s.queueRecoveryContext.batchSize inProgress.length

def Enabled (s : ScalingService) : Event → Prop
  | .create id => s.executions.get? id = none
  | .advance id step => ∃ e e', s.executions.get? id = some e ∧ e.advance step = some e'
  | .readStored storedIds =>
    (∃ wait, s.recovery = .idle wait) ∧ IsInProgressAnswer s storedIds
  | .listJobs => ∃ storedIds, s.recovery = .stored storedIds
  | .loadJobs => ∃ storedIds jobs, s.recovery = .listed storedIds jobs
  | .markAsCrashed => ∃ count ids, s.recovery = .marking count ids
  | .abort => True

def next (s : ScalingService) : Event → ScalingService
  | .create id => s.create id
  | .advance id step => s.advance id step
  | .readStored storedIds => s.readStored storedIds
  | .listJobs => s.listJobs
  | .loadJobs => s.loadJobs
  | .markAsCrashed => s.markAsCrashed
  | .abort => s.abort

def Step (s : ScalingService) (e : Event) (s' : ScalingService) : Prop :=
  Enabled s e ∧ s' = next s e

/-! ## Live executions -/

/-- No execution that has finished, or whose job is in the queue, is stored
    as crashed by the recovery. -/
def NoneLost (s : ScalingService) : Prop :=
  ∀ id e, s.executions.get? id = some e →
    e.job = .finished ∨ e.job.inQueue = true → e.recovered = false

/-- The stored executions the recovery has read, until it has listed the
    jobs. -/
def Recovery.storedIds : Recovery → List ExecutionId
  | .stored storedIds => storedIds
  | _ => []

/-- The stored executions the recovery has read, until it has loaded the
    jobs. -/
def Recovery.listedIds : Recovery → List ExecutionId
  | .listed storedIds _ => storedIds
  | _ => []

/-- The executions that are still to be marked. -/
def Recovery.danglingIds : Recovery → List ExecutionId
  | .marking _ danglingIds => danglingIds
  | _ => []

/-- The condition on a step.  When the jobs are listed, no execution that
    was read is still to be enqueued, or has finished meanwhile; none leaves
    the queue as finished before the jobs are loaded; and none without a job
    is saved before it is marked. -/
def ReadsFit (s : ScalingService) : Event → Prop
  | .listJobs => ∀ id ∈ s.recovery.storedIds, ∀ e, s.executions.get? id = some e →
        e.job ≠ .unqueued ∧ e.job ≠ .finished
  | .advance id .complete => id ∉ s.recovery.listedIds
  | .advance id (.saveJobless _) =>
    id ∉ s.recovery.listedIds ∧ id ∉ s.recovery.danglingIds
  | _ => True

/-! ## The invariant -/

/-- No worker will take the execution, and its result is not saved. -/
def JobStage.isGone : JobStage → Bool
  | .jobless | .lost => true
  | _ => false

/-- What the recovery can rely on about an execution. -/
structure Fits (recovery : Recovery) (id : ExecutionId) (e : Execution) :
    Prop where
  recovered : e.recovered = true → e.job.isGone = true
  listed : ∀ storedIds jobs, recovery = .listed storedIds jobs →
    id ∈ storedIds → e.job.isGone = true ∨ (e.job.inQueue = true ∧ id ∈ jobs)
  marking : ∀ count danglingIds, recovery = .marking count danglingIds →
    id ∈ danglingIds → e.job.isGone = true

/-- The executions the recovery has in hand. -/
def Recovery.ids (recovery : Recovery) : List ExecutionId :=
  recovery.storedIds ++ recovery.listedIds ++ recovery.danglingIds

@[simp] theorem ids_stored (ids : List ExecutionId) : (Recovery.stored ids).ids = ids :=
  (append_nil _).trans (append_nil _)

@[simp] theorem ids_listed (ids jobs : List ExecutionId) :
    (Recovery.listed ids jobs).ids = ids := append_nil _

structure Intact (s : ScalingService) : Prop where
  fits : ∀ id e, s.executions.get? id = some e → Fits s.recovery id e
  stored : ∀ id ∈ s.recovery.ids, s.executions.get? id ≠ none

theorem isGone_of_stage {job : JobStage}
    (h : job = .finished ∨ job.inQueue = true) : job.isGone = false := by
  rcases h with rfl | h
  · rfl
  · cases job <;> first | rfl | cases h

theorem Intact.noneLost {s : ScalingService} (h : Intact s) : NoneLost s := by
  intro id e he hstage
  by_contra hrecovered
  rw [Bool.not_eq_false] at hrecovered
  have hgone := (h.fits id e he).recovered hrecovered
  rw [isGone_of_stage hstage] at hgone
  cases hgone

theorem intact_start (context : QueueRecoveryContext) : Intact (.start context) := by
  constructor
  · intro id e he
    cases he
  · intro id hid
    cases hid

/-! ## Steps of an execution -/

section

variable {recovery : Recovery} {id : ExecutionId} {e e' : Execution}

theorem Fits.of_isGone (h : e.job.isGone = true) : Fits recovery id e :=
  ⟨fun _ => h, fun _ _ _ _ => .inl h, fun _ _ _ _ => h⟩

theorem Fits.keep (h : Fits recovery id e) (hgone : e.job.isGone = false)
    (hrecovered : e'.recovered = true → e.recovered = true)
    (hqueue : e.job.inQueue = true → e'.job.inQueue = true) :
    Fits recovery id e' := by
  have hnot : ¬ e.job.isGone = true := by simp [hgone]
  constructor
  · intro hyes
    exact absurd (h.recovered (hrecovered hyes)) hnot
  · intro storedIds jobs hlisted hid
    rcases h.listed storedIds jobs hlisted hid with hyes | ⟨hin, hjobs⟩
    · exact absurd hyes hnot
    · exact .inr ⟨hqueue hin, hjobs⟩
  · intro count danglingIds hmarking hid
    exact absurd (h.marking count danglingIds hmarking hid) hnot

theorem Fits.of_not_mem (hrecovered : e.recovered = false) (hlisted : id ∉ recovery.listedIds)
    (hmarking : id ∉ recovery.danglingIds) : Fits recovery id e := by
  constructor
  · intro hyes
    rw [hrecovered] at hyes
    cases hyes
  · rintro storedIds jobs rfl hid
    exact absurd hid hlisted
  · rintro count danglingIds rfl hid
    exact absurd hid hmarking

theorem Fits.not_recovered (h : Fits recovery id e)
    (hgone : e.job.isGone = false) : e.recovered = false := by
  by_contra hrecovered
  rw [Bool.not_eq_false] at hrecovered
  have hyes := h.recovered hrecovered
  rw [hgone] at hyes
  cases hyes

theorem Fits.not_dangling (h : Fits recovery id e)
    (hgone : e.job.isGone = false) : id ∉ recovery.danglingIds := by
  intro hid
  cases recovery with
  | marking count danglingIds =>
    have hyes := h.marking count danglingIds rfl hid
    rw [hgone] at hyes
    cases hyes
  | _ => cases hid

/-- A step of an execution that the condition allows. -/
theorem Fits.advance {s : ScalingService} {step : ExecutionStep}
    (h : Fits s.recovery id e) (hstep : e.advance step = some e')
    (hfit : ReadsFit s (.advance id step)) : Fits s.recovery id e' := by
  cases step with
  | resume =>
    obtain ⟨hjob, rfl⟩ := Option.ite_some_none_eq_some.mp hstep
    exact h.keep (by rw [hjob.1]; rfl) (fun hno => by cases hno)
      (fun hin => by rw [hjob.1] at hin; cases hin)
  | runWithoutJob =>
    obtain ⟨-, rfl⟩ := Option.ite_some_none_eq_some.mp hstep
    exact .of_isGone rfl
  | addJob =>
    obtain ⟨hjob, rfl⟩ := Option.ite_some_none_eq_some.mp hstep
    exact h.keep (by rw [hjob]; rfl) (fun hyes => hyes) (fun _ => rfl)
  | take =>
    obtain ⟨hjob, rfl⟩ := Option.ite_some_none_eq_some.mp hstep
    exact h.keep (by rw [hjob]; rfl) (fun hyes => hyes) (fun _ => rfl)
  | readStatus =>
    obtain ⟨hjob, rfl⟩ := Option.ite_some_none_eq_some.mp hstep
    refine h.keep (by rw [hjob]; rfl) (fun hyes => hyes) (fun _ => ?_)
    split <;> rfl
  | setRunning =>
    obtain ⟨hjob, rfl⟩ := Option.ite_some_none_eq_some.mp hstep
    exact h.keep (by rw [hjob]; rfl) (fun hno => by cases hno) (fun _ => rfl)
  | save status =>
    obtain ⟨hjob, rfl⟩ := Option.ite_some_none_eq_some.mp hstep
    exact h.keep (by rw [hjob.1]; rfl) (fun hno => by cases hno) (fun _ => rfl)
  | complete =>
    obtain ⟨hjob, rfl⟩ := Option.ite_some_none_eq_some.mp hstep
    have hgone : e.job.isGone = false := by
      rcases hjob with hjob | hjob <;> rw [hjob] <;> rfl
    exact .of_not_mem (h.not_recovered hgone) hfit (h.not_dangling hgone)
  | fail =>
    obtain ⟨-, rfl⟩ := Option.ite_some_none_eq_some.mp hstep
    exact .of_isGone rfl
  | lose =>
    obtain ⟨-, rfl⟩ := Option.ite_some_none_eq_some.mp hstep
    exact .of_isGone rfl
  | saveJobless status =>
    obtain ⟨-, rfl⟩ := Option.ite_some_none_eq_some.mp hstep
    exact .of_not_mem rfl hfit.1 hfit.2

theorem mem_ids_dropJob {a : ExecutionId} : a ∈ (recovery.dropJob id).ids ↔ a ∈ recovery.ids := by
  cases recovery <;> exact Iff.rfl

theorem Fits.dropJob {a : ExecutionId} (h : Fits recovery a e)
    (hne : a ≠ id ∨ e.job.isGone = true ∨ a ∉ recovery.listedIds) :
    Fits (recovery.dropJob id) a e := by
  cases recovery with
  | listed storedIds jobs =>
    refine ⟨h.recovered, ?_, fun count ids hno => by cases hno⟩
    rintro _ _ ⟨⟩ hid
    rcases hne with hne | hgone | hnot
    · rcases h.listed storedIds jobs rfl hid with hgone | ⟨hin, hjobs⟩
      · exact .inl hgone
      · exact .inr ⟨hin, mem_filter.mpr ⟨hjobs, by simpa using hne⟩⟩
    · exact .inl hgone
    · exact absurd hid hnot
  | _ => exact h

end

/-! ## Steps of the recovery -/

section

variable {s : ScalingService}

variable {id : ExecutionId}

theorem mem_findJobsByStatus {e : Execution}
    (he : s.executions.get? id = some e) (hin : e.job.inQueue = true) :
    id ∈ s.findJobsByStatus := by
  refine mem_keys_of_get? (v := e) ?_
  exact get?_filter_eq_some.mpr ⟨he, hin⟩

section

variable (h : Intact s)
include h

theorem Intact.create (hnew : s.executions.get? id = none) : Intact (s.create id) := by
  have hfree : id ∉ s.recovery.ids := fun hid => h.stored id hid hnew
  simp only [Recovery.ids, mem_append, not_or] at hfree
  obtain ⟨⟨-, hlisted⟩, hmarking⟩ := hfree
  constructor
  · intro a e he
    replace he := (get?_set ..).symm.trans he
    split at he
    · next heq =>
        cases he
        subst heq
        exact .of_not_mem rfl hlisted hmarking
    · exact h.fits a e he
  · intro a ha
    show (s.executions.set id _).get? a ≠ none
    rw [get?_set]
    split
    · simp
    · exact h.stored a ha

theorem Intact.advance {step : ExecutionStep} {e e' : Execution}
    (he : s.executions.get? id = some e) (hstep : e.advance step = some e')
    (hfit : ReadsFit s (.advance id step)) : Intact (s.advance id step) := by
  have hnew := (h.fits id e he).advance hstep hfit
  have hleaves : step.leavesQueue = true → e'.job.isGone = true ∨ id ∉ s.recovery.listedIds := by
    intro hleaves
    cases step with
    | complete => exact .inr hfit
    | fail =>
      obtain ⟨-, rfl⟩ := Option.ite_some_none_eq_some.mp hstep
      exact .inl rfl
    | lose =>
      obtain ⟨-, rfl⟩ := Option.ite_some_none_eq_some.mp hstep
      exact .inl rfl
    | _ => cases hleaves
  rw [ScalingService.advance, he, Option.bind_some, hstep]
  constructor
  · intro a x hx
    replace hx := (get?_set ..).symm.trans hx
    dsimp only
    split at hx
    · next heq =>
        cases hx
        subst heq
        split
        · next hyes => exact hnew.dropJob (.inr (hleaves hyes))
        · exact hnew
    · next hne =>
        split
        · exact (h.fits a x hx).dropJob (.inl (Ne.symm hne))
        · exact h.fits a x hx
  · intro a ha
    have hids : a ∈ s.recovery.ids := by
      dsimp only at ha
      split at ha
      · exact mem_ids_dropJob.mp ha
      · exact ha
    show (s.executions.set id e').get? a ≠ none
    rw [get?_set]
    split
    · simp
    · exact h.stored a hids

theorem Intact.idle (wait : Option Nat) : Intact { s with recovery := .idle wait } := by
  constructor
  · intro id e he
    have hfits := h.fits id e he
    refine ⟨hfits.recovered, ?_, ?_⟩
    · intro storedIds jobs hno
      cases hno
    · intro count danglingIds hno
      cases hno
  · intro id hid
    cases hid

theorem Intact.readStored {storedIds : List ExecutionId}
    (hanswer : IsInProgressAnswer s storedIds) :
    Intact (s.readStored storedIds) := by
  rw [ScalingService.readStored]
  split
  · exact h.idle _
  · constructor
    · intro id e he
      have hfits := h.fits id e he
      refine ⟨hfits.recovered, ?_, ?_⟩
      · intro storedIds jobs hno
        cases hno
      · intro count danglingIds hno
        cases hno
    · intro id hid
      have hmem : id ∈ storedIds := by simpa using hid
      obtain ⟨e, he⟩ := exists_get? (hanswer.2.1 id hmem)
      have hget := (get?_filter_eq_some.mp he).1
      show s.executions.get? id ≠ none
      simp [hget]

theorem Intact.listJobs (hfit : ReadsFit s .listJobs) : Intact s.listJobs := by
  rw [ScalingService.listJobs]
  split
  · next storedIds hstored =>
      have hstages : ∀ id ∈ storedIds, ∀ e, s.executions.get? id = some e →
            e.job ≠ .unqueued ∧ e.job ≠ .finished := by
        intro id hid
        refine hfit id ?_
        rw [hstored]
        exact hid
      constructor
      · intro id e he
        have hfits := h.fits id e he
        refine ⟨hfits.recovered, ?_, fun count ids hno => by cases hno⟩
        rintro _ _ ⟨⟩ hid
        obtain ⟨hqueued, hfinished⟩ := hstages id hid e he
        by_cases hin : e.job.inQueue = true
        · exact .inr ⟨hin, mem_findJobsByStatus he hin⟩
        · left
          cases hjob : e.job <;> simp_all [JobStage.inQueue, JobStage.isGone]
      · intro id hid
        refine h.stored id ?_
        rw [hstored]
        simpa using hid
  · exact h

theorem Intact.loadJobs : Intact s.loadJobs := by
  unfold ScalingService.loadJobs
  split
  · next storedIds jobs hlisted =>
      dsimp only
      split
      · exact h.idle _
      · constructor
        · intro id e he
          have hfits := h.fits id e he
          refine ⟨hfits.recovered, fun ids jobs hno => (by cases hno), ?_⟩
          rintro _ _ ⟨⟩ hid
          obtain ⟨hmem, hnot⟩ := mem_filter.mp hid
          rcases hfits.listed storedIds jobs hlisted hmem with
            hgone | ⟨-, hjobs⟩
          · exact hgone
          · simp [hjobs] at hnot
        · intro id hid
          refine h.stored id ?_
          rw [hlisted]
          rw [ids_listed]
          exact (mem_filter.mp hid).1
  · exact h

/-- Only executions whose job is gone are marked. -/
theorem Intact.markAsCrashed : Intact s.markAsCrashed := by
  unfold ScalingService.markAsCrashed
  split
  · next count danglingIds hmarking =>
      have hgone : ∀ id e, s.executions.get? id = some e →
          id ∈ danglingIds → e.job.isGone = true := fun id e he hid =>
        (h.fits id e he).marking count danglingIds hmarking hid
      -- What a marked row keeps of the invariant, for any remaining ids.
      have hrows : ∀ (recovery : Recovery) (batch : List ExecutionId),
          batch ⊆ danglingIds → (∀ id ∈ recovery.danglingIds, id ∈ danglingIds) →
          recovery.listedIds = [] → ∀ id e, (s.markBatch batch).get? id = some e →
            Fits recovery id e := by
        intro recovery batch hbatch hrest hnone id e he
        rw [ScalingService.markBatch, get?_map] at he
        obtain ⟨x, hx, rfl⟩ := Option.map_eq_some_iff.mp he
        by_cases hid : id ∈ danglingIds
        · refine .of_isGone ?_
          have hx' := hgone id x hx hid
          split <;> exact hx'
        · have hnot : id ∉ batch := fun hmem => hid (hbatch hmem)
          rw [if_neg hnot]
          refine ⟨(h.fits id x hx).recovered, ?_, ?_⟩
          · rintro storedIds jobs rfl hlisted
            rw [show storedIds = [] from hnone] at hlisted
            cases hlisted
          · rintro _ ids rfl hmem
            exact absurd (hrest id hmem) hid
      have hbatch := take_subset ScalingService.maxUpdateBatchSize danglingIds
      dsimp only
      split
      · constructor
        · exact hrows _ _ hbatch (fun id hid => by cases hid) rfl
        · intro id hid
          cases hid
      · constructor
        · exact hrows _ _ hbatch (fun id hid => mem_of_mem_drop hid) rfl
        · intro id hid
          have hstored : s.executions.get? id ≠ none := by
            refine h.stored id ?_
            rw [hmarking]
            exact mem_of_mem_drop hid
          show (s.markBatch _).get? id ≠ none
          rw [ScalingService.markBatch, get?_map]
          simpa using hstored
  · exact h

end

/-! ## Runs -/

theorem Intact.next (h : Intact s) {e : Event} (henabled : Enabled s e)
    (hfit : ReadsFit s e) : Intact (next s e) := by
  cases e with
  | create id => exact h.create henabled
  | advance id step =>
    obtain ⟨x, x', hx, hstep⟩ := henabled
    exact h.advance hx hstep hfit
  | readStored storedIds => exact h.readStored henabled.2
  | listJobs => exact h.listJobs hfit
  | loadJobs => exact h.loadJobs
  | markAsCrashed => exact h.markAsCrashed
  | abort => exact h.idle none

end

/-- **RECOVERY FROM THE QUEUE**: along a run whose reads fit together, no
    execution that has finished, or is in the queue, is ever stored as
    crashed by the recovery. -/
theorem noneLost_of_readsFit {context : QueueRecoveryContext} {path : List (Event × ScalingService)}
    (hrun : IsRun Step (.start context) path) (hfit : EveryStep ReadsFit (.start context) path) :
    EveryState NoneLost (.start context) path := by
  have hintact : EveryState Intact (.start context) path := by
    refine everyState_of_everyStep hrun (intact_start context) ?_ hfit
    rintro s e t hs ⟨henabled, rfl⟩ hstep
    exact hs.next henabled hstep
  exact hintact.mono fun s h => h.noneLost

/-- One execution runs and one has lost its job: only the second is marked,
    and the first ends as a success. -/
theorem noneLost_of_lostJob :
    let steps : List Event :=
      [.create "1", .advance "1" .addJob, .create "2",
        .advance "2" .addJob, .advance "2" .take, .advance "2" .lose,
        .readStored ["1", "2"], .advance "1" .take, .listJobs,
        .advance "1" .readStatus, .loadJobs, .advance "1" .setRunning,
        .markAsCrashed, .advance "1" (.save .success), .advance "1" .complete]
    let path := pathOf next (.start ⟨100, 1000⟩) steps
    EveryState NoneLost (.start ⟨100, 1000⟩) path := by
  refine noneLost_of_readsFit ?_ ?_
  · exact ⟨⟨rfl, rfl⟩, ⟨⟨_, _, rfl, rfl⟩, rfl⟩, ⟨rfl, rfl⟩,
      ⟨⟨_, _, rfl, rfl⟩, rfl⟩, ⟨⟨_, _, rfl, rfl⟩, rfl⟩, ⟨⟨_, _, rfl, rfl⟩, rfl⟩,
      ⟨⟨⟨_, rfl⟩, by unfold IsInProgressAnswer; decide⟩, rfl⟩,
      ⟨⟨_, _, rfl, rfl⟩, rfl⟩, ⟨⟨_, rfl⟩, rfl⟩, ⟨⟨_, _, rfl, rfl⟩, rfl⟩,
      ⟨⟨_, _, rfl⟩, rfl⟩, ⟨⟨_, _, rfl, rfl⟩, rfl⟩, ⟨⟨_, _, rfl⟩, rfl⟩,
      ⟨⟨_, _, rfl, rfl⟩, rfl⟩, ⟨⟨_, _, rfl, rfl⟩, rfl⟩, trivial⟩
  · refine ⟨trivial, trivial, trivial, trivial, trivial, trivial, trivial,
      trivial, ?_, trivial, trivial, trivial, trivial, trivial,
      not_mem_nil, trivial⟩
    intro id hid e he
    rcases mem_cons.mp hid with rfl | hid
    · cases he
      exact ⟨by decide, by decide⟩
    · rw [mem_singleton.mp hid] at he
      cases he
      exact ⟨by decide, by decide⟩

/-- A new execution is read as stored, and enqueued only after the jobs were
    listed: it is in the queue when it is marked as crashed, the worker
    refuses it, and it ends as crashed. -/
theorem enqueued_execution_crashes :
    let steps : List Event :=
      [.create "1", .readStored ["1"], .listJobs, .advance "1" .addJob,
        .loadJobs, .markAsCrashed, .advance "1" .take,
        .advance "1" .readStatus, .advance "1" .complete]
    let path := pathOf next (.start ⟨100, 1000⟩) steps
    IsRun Step (.start ⟨100, 1000⟩) path
      ∧ (lastState (.start ⟨100, 1000⟩) path).executions.get? "1"
        = some { status := .crashed, job := .finished, recovered := true }
      ∧ ¬ EveryState NoneLost (.start ⟨100, 1000⟩) path := by
  refine ⟨⟨⟨rfl, rfl⟩, ⟨⟨⟨_, rfl⟩, by unfold IsInProgressAnswer; decide⟩, rfl⟩,
    ⟨⟨_, rfl⟩, rfl⟩, ⟨⟨_, _, rfl, rfl⟩, rfl⟩, ⟨⟨_, _, rfl⟩, rfl⟩,
    ⟨⟨_, _, rfl⟩, rfl⟩, ⟨⟨_, _, rfl, rfl⟩, rfl⟩, ⟨⟨_, _, rfl, rfl⟩, rfl⟩,
    ⟨⟨_, _, rfl, rfl⟩, rfl⟩, trivial⟩, by decide, ?_⟩
  intro hall
  have hlost := hall.last "1"
    { status := .crashed, job := .finished, recovered := true } (by decide)
    (.inl rfl)
  cases hlost

end N8nQueueRecovery
