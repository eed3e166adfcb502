import N8n.PythonRunnerProofs

/-! # Cancelling a task of the Python runner

    A cancel marks a running task as aborting and stops the process that its
    state holds.  The coroutine of the task never reads the mark: it learns
    of the cancel through the exit code of the process.  So the cancel is
    lost where there is no process yet, where the process is not started yet,
    where it exits by itself before the signal, and where errors are turned
    into results.

    `cancelEffective_of_inTime` gives the condition on the steps under which
    no cancelled task sends a result and its process is stopped. -/

namespace N8nPythonCancel

open N8nRun N8nOrderedMap N8nPythonRunner List

/-! ## The property and the condition -/

/-- The last message of a task. -/
def isOutcomeOf (taskId : TaskId) : RunnerMessage → Bool
  | .taskDone id | .taskError id _ => id = taskId
  | _ => false

/-- The handler of a cancel is still at the process of the task. -/
def Stops (handler : Option Handler) (taskId : TaskId) : Prop :=
  handler = some (.stopping taskId true) ∨ handler = some (.terminating taskId)

structure CancelEffective (s : TaskRunner) : Prop where
  once : ∀ taskId ∈ s.accepted, s.sent.countP (isOutcomeOf taskId) ≤ 1
  noResult : ∀ taskId ∈ s.cancelled, .taskDone taskId ∉ s.sent
  stopped : ∀ taskId ∈ s.cancelled, ¬ Stops s.handler taskId → s.processOf taskId ≠ some .alive

/-- The process is there, nothing has been read from it, and its end is not
    turned into a result; or the task has failed already. -/
def CanBeStopped (x : Execution) : Prop :=
  (∃ error, x.phase = .sendingError error)
    ∨ x.phase = .executing ∧ x.process ≠ none ∧ x.continueOnFail = false

/-- The condition on a step.  A running task can be stopped when its cancel
    is handled; its process has been started when the handler looks at it;
    and after the cancel it does not exit by itself with a result. -/
def InTime (s : TaskRunner) : Event → Prop
  | .received (.taskCancel taskId _) =>
    s.statusOf taskId = some .running → ∃ x, s.executions.get? taskId = some x ∧ CanBeStopped x
  | .handlerLooks => ∀ taskId x, s.handler = some (.stopping taskId true) →
      s.executions.get? taskId = some x → x.phase = .executing → x.process ≠ some .notStarted
  | .process taskId (.isJoined reader) => taskId ∈ s.cancelled →
      s.processOf taskId = some (.exited 0) → ∀ prints, reader ≠ .ended (some (.result prints))
  | _ => True

/-! ## Messages that wait for the socket -/

def isOutcome : RunnerMessage → Bool
  | .taskDone _ | .taskError _ _ => true
  | _ => false

/-- Neither the loops nor the handler send the last message of a task. -/
structure Harmless (s : TaskRunner) : Prop where
  loops : ∀ message remaining, .sending message remaining ∈ s.loops → isOutcome message = false
  handler : ∀ message remaining,
    s.handler = some (.sending message remaining) → isOutcome message = false

section

variable {s t : TaskRunner}

theorem Harmless.same (hs : Harmless s) (hloops : t.loops = s.loops)
    (hhandler : t.handler = s.handler) : Harmless t :=
  ⟨hloops ▸ hs.loops, hhandler ▸ hs.handler⟩

theorem Harmless.setLoop (hs : Harmless s) (i : Nat) {loop : Loop}
    (h : ∀ message remaining, loop = .sending message remaining →
      isOutcome message = false) : Harmless (s.setLoop i loop) := by
  refine ⟨?_, hs.handler⟩
  intro message remaining hmem
  rcases mem_or_eq_of_mem_set hmem with hold | heq
  · exact hs.loops message remaining hold
  · exact h message remaining heq.symm

theorem Harmless.setHandler (hs : Harmless s) {handler : Option Handler}
    (h : ∀ message remaining, handler = some (.sending message remaining) →
      isOutcome message = false) : Harmless (s.setHandler handler) :=
  ⟨hs.loops, h⟩

/-- `_send_offers` leaves loops, handler and tasks alone, and sends an
    offer. -/
structure Offers (s t : TaskRunner) (result : Option (RunnerMessage × Nat)) :
    Prop where
  loops : t.loops = s.loops
  handler : t.handler = s.handler
  runningTasks : t.runningTasks = s.runningTasks
  executions : t.executions = s.executions
  sent : t.sent = s.sent
  accepted : t.accepted = s.accepted
  cancelled : t.cancelled = s.cancelled
  message : ∀ p ∈ result, isOutcome p.1 = false

theorem offers_sendOffers {seed : OfferSeed} {result : Option (RunnerMessage × Nat)}
    (h : s.sendOffers seed = (t, result)) : Offers s t result := by
  rw [TaskRunner.sendOffers] at h
  split at h
  · cases h
    exact ⟨rfl, rfl, rfl, rfl, rfl, rfl, rfl, fun p hp => by cases hp⟩
  · split at h
    · cases h
      exact ⟨rfl, rfl, rfl, rfl, rfl, rfl, rfl, fun p hp => by cases hp⟩
    · cases h
      refine ⟨rfl, rfl, rfl, rfl, rfl, rfl, rfl, ?_⟩
      intro p hp
      cases hp
      rfl

end

/-! ## The invariant -/

/-- A cancelled task whose process will not give a result any more. -/
def IsStopped (handler : Option Handler) (taskId : TaskId) (x : Execution) : Prop :=
  match x.phase with
  | .executing => x.continueOnFail = false ∧ x.process ≠ none
      ∧ (x.process = some .notStarted → handler = some (.stopping taskId true))
      ∧ (x.process = some .alive → Stops handler taskId)
  | .scheduled | .sendingResult _ => False
  | .sendingError _ | .finished => True

structure Fits (s : TaskRunner) (taskId : TaskId) (x : Execution) : Prop where
  alive : x.process = some .alive → x.phase = .executing
  isStopped : taskId ∈ s.cancelled → IsStopped s.handler taskId x

/-- The last message of the task has not been sent, or its coroutine is
    through. -/
def OutcomeFits (s : TaskRunner) (taskId : TaskId) : Prop :=
  s.sent.countP (isOutcomeOf taskId) = 0
    ∨ s.sent.countP (isOutcomeOf taskId) = 1
      ∧ (∃ x, s.executions.get? taskId = some x ∧ x.phase = .finished)
      ∧ (taskId ∈ s.cancelled → .taskDone taskId ∉ s.sent)

structure Good (s : TaskRunner) : Prop where
  harmless : Harmless s
  known : ∀ taskId x, s.executions.get? taskId = some x → taskId ∈ s.accepted
  fits : ∀ taskId x, s.executions.get? taskId = some x → Fits s taskId x
  tasks : ∀ taskId status, s.statusOf taskId = some status → taskId ∈ s.accepted
  waiting : ∀ taskId, s.statusOf taskId = some .waitingForSettings → s.executions.get? taskId = none
  cancelled : ∀ taskId ∈ s.cancelled, ∃ x, s.executions.get? taskId = some x
  outcomes : ∀ taskId, OutcomeFits s taskId

section

variable {s t : TaskRunner} {taskId : TaskId} {x x' : Execution}

variable {message : RunnerMessage}

theorem isOutcomeOf_of_not_isOutcome (h : isOutcome message = false) (taskId : TaskId) :
    isOutcomeOf taskId message = false := by
  cases message <;> first | rfl | cases h

theorem countP_send_of_not (h : isOutcomeOf taskId message = false) :
    (s.sent ++ [message]).countP (isOutcomeOf taskId) = s.sent.countP (isOutcomeOf taskId) := by
  rw [countP_append, countP_singleton, if_neg (by simp [h]), Nat.add_zero]

theorem countP_pos_of_done (h : .taskDone taskId ∈ s.sent) :
    0 < s.sent.countP (isOutcomeOf taskId) :=
  countP_pos_iff.mpr ⟨_, h, by simp [isOutcomeOf]⟩

theorem Good.cancelEffective (hs : Good s) : CancelEffective s := by
  refine ⟨?_, ?_, ?_⟩
  · intro taskId _
    rcases hs.outcomes taskId with hzero | ⟨hone, -⟩
    · omega
    · omega
  · intro taskId hcancelled hdone
    rcases hs.outcomes taskId with hzero | ⟨-, -, hnone⟩
    · have hpos := countP_pos_of_done hdone
      omega
    · exact hnone hcancelled hdone
  · intro taskId hcancelled hfree halive
    obtain ⟨x, hx⟩ := hs.cancelled taskId hcancelled
    have hprocess : x.process = some .alive := by
      rw [TaskRunner.processOf, hx] at halive
      exact halive
    have hfits := hs.fits taskId x hx
    have hstopped := hfits.isStopped hcancelled
    rw [IsStopped, hfits.alive hprocess] at hstopped
    exact hfree (hstopped.2.2.2 hprocess)

/-! ## Steps beside the tasks -/

theorem OutcomeFits.send (h : OutcomeFits s taskId) (hmessage : isOutcome message = false) :
    OutcomeFits (s.send message) taskId := by
  have hcount := countP_send_of_not (s := s) (isOutcomeOf_of_not_isOutcome hmessage taskId)
  rcases h with hzero | ⟨hone, hfinished, hdone⟩
  · exact .inl (hcount.trans hzero)
  · refine .inr ⟨hcount.trans hone, hfinished, ?_⟩
    intro hcancelled hmem
    rcases mem_append.mp hmem with hold | hnew
    · exact hdone hcancelled hold
    · cases mem_singleton.mp hnew
      cases hmessage

theorem Good.send (hs : Good s) (h : isOutcome message = false) : Good (s.send message) :=
  { harmless := hs.harmless.same rfl rfl
    known := hs.known
    fits := fun taskId x hx =>
      ⟨(hs.fits taskId x hx).alive, (hs.fits taskId x hx).isStopped⟩
    tasks := hs.tasks
    waiting := hs.waiting
    cancelled := hs.cancelled
    outcomes := fun taskId => (hs.outcomes taskId).send h }

variable {handler : Option Handler}

theorem IsStopped.mono {handler' : Option Handler}
    (hstops : Stops handler taskId → handler' = handler)
    (h : IsStopped handler taskId x) : IsStopped handler' taskId x := by
  rw [IsStopped] at h ⊢
  split
  · rename_i hphase
    rw [hphase] at h
    obtain ⟨hfail, hprocess, hwaits, halive⟩ := h
    refine ⟨hfail, hprocess, ?_, ?_⟩
    · intro hnot
      rw [hstops (.inl (hwaits hnot))]
      exact hwaits hnot
    · intro hlive
      rw [hstops (halive hlive)]
      exact halive hlive
  · rename_i hphase
    rw [hphase] at h
    exact h
  · rename_i hphase
    rw [hphase] at h
    exact h
  · exact trivial
  · exact trivial

theorem Good.same (hs : Good s) (hharmless : Harmless t) (hexecutions : t.executions = s.executions)
    (htasks : ∀ taskId status, t.statusOf taskId = some status → s.statusOf taskId = some status)
    (hsent : t.sent = s.sent) (haccepted : t.accepted = s.accepted)
    (hcancelled : t.cancelled = s.cancelled)
    (hhandler : ∀ taskId, Stops s.handler taskId → t.handler = s.handler) :
    Good t where
  harmless := hharmless
  known := by
    rw [hexecutions, haccepted]
    exact hs.known
  fits := by
    rw [hexecutions]
    intro taskId x hx
    refine ⟨(hs.fits taskId x hx).alive, ?_⟩
    rw [hcancelled]
    intro hmem
    exact ((hs.fits taskId x hx).isStopped hmem).mono (hhandler taskId)
  tasks := by
    rw [haccepted]
    intro taskId status h
    exact hs.tasks taskId status (htasks taskId status h)
  waiting := by
    rw [hexecutions]
    intro taskId h
    exact hs.waiting taskId (htasks taskId _ h)
  cancelled := by
    rw [hexecutions, hcancelled]
    exact hs.cancelled
  outcomes := by
    intro taskId
    have h := hs.outcomes taskId
    rw [OutcomeFits] at h ⊢
    rw [hexecutions, hcancelled, hsent]
    exact h

theorem not_stops_none : ¬ Stops none taskId := by
  simp [Stops]

variable {remaining : Nat}

theorem not_stops_sending : ¬ Stops (some (.sending message remaining)) taskId := by
  simp [Stops]

theorem Good.setHandler (hs : Good s) (hfree : ∀ taskId, ¬ Stops s.handler taskId)
    (h : ∀ message remaining, handler = some (.sending message remaining) →
      isOutcome message = false) : Good (s.setHandler handler) :=
  hs.same (hs.harmless.setHandler h) rfl (fun _ _ h => h) rfl rfl rfl
    fun taskId hstops => absurd hstops (hfree taskId)

theorem Good.setLoop (hs : Good s) (i : Nat) {loop : Loop}
    (h : ∀ message remaining, loop = .sending message remaining →
      isOutcome message = false) : Good (s.setLoop i loop) :=
  hs.same (hs.harmless.setLoop i h) rfl (fun _ _ h => h) rfl rfl rfl fun _ _ => rfl

theorem Good.openOffer (hs : Good s) (seed : OfferSeed) : Good (s.openOffer seed).1 :=
  hs.same (hs.harmless.same rfl rfl) rfl (fun _ _ h => h) rfl rfl rfl fun _ _ => rfl

variable {seed : OfferSeed}

theorem Good.sendOffers (hs : Good s) {result : Option (RunnerMessage × Nat)}
    (h : s.sendOffers seed = (t, result)) : Good t := by
  have hoffers := offers_sendOffers h
  refine hs.same (hs.harmless.same hoffers.loops hoffers.handler)
    hoffers.executions ?_ hoffers.sent hoffers.accepted hoffers.cancelled fun _ _ => hoffers.handler
  intro taskId status hstatus
  rw [TaskRunner.statusOf, hoffers.runningTasks] at hstatus
  exact hstatus

theorem sendOffers_isOutcome (h : s.sendOffers seed = (t, some (message, remaining))) :
    isOutcome message = false :=
  (offers_sendOffers h).message _ rfl

section

variable (hs : Good s)
include hs

theorem Good.loopRound (i : Nat) (seed : OfferSeed) : Good (s.loopRound i seed) := by
  rw [TaskRunner.loopRound]
  split
  · exact hs.setLoop i fun _ _ h => by cases h
  · split
    · rename_i hsend
      exact (hs.sendOffers hsend).setLoop i fun _ _ h => by cases h
    · rename_i hsend
      refine (hs.sendOffers hsend).setLoop i ?_
      intro _ _ heq
      cases heq
      exact sendOffers_isOutcome hsend

theorem Good.loopSent {i : Nat} (h : s.loops[i]? = some (.sending message remaining))
    (seed : OfferSeed) : Good (s.loopSent i message remaining seed) := by
  have hmessage := hs.harmless.loops message remaining (mem_of_getElem? h)
  cases remaining with
  | zero => exact (hs.send hmessage).setLoop i fun _ _ h => by cases h
  | succ remaining =>
    refine ((hs.send hmessage).openOffer seed).setLoop i ?_
    intro _ _ heq
    cases heq
    rfl

theorem Good.handlerSent (h : s.handler = some (.sending message remaining))
    (seed : OfferSeed) : Good (s.handlerSent message remaining seed) := by
  have hmessage := hs.harmless.handler message remaining h
  have hfree : ∀ taskId, ¬ Stops s.handler taskId := by
    intro taskId
    rw [h]
    exact not_stops_sending
  cases remaining with
  | zero => exact (hs.send hmessage).setHandler hfree fun _ _ h => by cases h
  | succ remaining =>
    refine ((hs.send hmessage).openOffer seed).setHandler hfree ?_
    intro _ _ heq
    cases heq
    rfl

theorem Good.moveHandler (h : ∀ message remaining, handler ≠ some (.sending message remaining))
    (hfits : ∀ taskId x, taskId ∈ s.cancelled →
      s.executions.get? taskId = some x → x.phase = .executing →
      IsStopped s.handler taskId x → IsStopped handler taskId x) :
    Good (s.setHandler handler) :=
  { harmless := hs.harmless.setHandler fun message remaining heq =>
      absurd heq (h message remaining)
    known := hs.known
    tasks := hs.tasks
    waiting := hs.waiting
    cancelled := hs.cancelled
    outcomes := hs.outcomes
    fits := by
      intro taskId x hx
      refine ⟨(hs.fits taskId x hx).alive, ?_⟩
      intro hmem
      have hold := (hs.fits taskId x hx).isStopped hmem
      by_cases hphase : x.phase = .executing
      · exact hfits taskId x hmem hx hphase hold
      · rw [IsStopped] at hold ⊢
        rcases hp : x.phase with _ | _ | _ | _ | _
        all_goals rw [hp] at hold
        all_goals first | exact absurd hp hphase | exact hold }

theorem Good.lookAtProcess {taskId : TaskId} {hasProcess : Bool}
    (h : s.handler = some (.stopping taskId hasProcess)) (hc : InTime s .handlerLooks) :
    Good (s.lookAtProcess taskId hasProcess) := by
  rw [TaskRunner.lookAtProcess]
  split
  · rename_i hlive
    refine hs.moveHandler (fun _ _ heq => by cases heq) ?_
    intro id x hmem hx hphase hold
    rw [IsStopped, hphase] at hold ⊢
    obtain ⟨hfail, hprocess, hwaits, halive⟩ := hold
    refine ⟨hfail, hprocess, ?_, ?_⟩
    · intro hnot
      have hstopping := hwaits hnot
      exact absurd hnot (hc id x hstopping hx hphase)
    · intro hx'
      rcases halive hx' with hstopping | hterminating
      · rw [h] at hstopping
        cases hstopping
        exact .inr rfl
      · rw [h] at hterminating
        cases hterminating
  · rename_i hdead
    refine hs.moveHandler (fun _ _ heq => by cases heq) ?_
    intro id x hmem hx hphase hold
    rw [IsStopped, hphase] at hold ⊢
    obtain ⟨hfail, hprocess, hwaits, halive⟩ := hold
    refine ⟨hfail, hprocess, ?_, ?_⟩
    · intro hnot
      exact absurd hnot (hc id x (hwaits hnot) hx hphase)
    · intro hx'
      rcases halive hx' with hstopping | hterminating
      · rw [h] at hstopping
        cases hstopping
        refine absurd ⟨rfl, ?_⟩ hdead
        rw [TaskRunner.processOf, hx]
        exact hx'
      · rw [h] at hterminating
        cases hterminating

theorem Good.handlerStopped {taskId : TaskId} (h : s.handler = some (.terminating taskId))
    (hdead : s.processOf taskId ≠ some .alive) :
    Good (s.setHandler none) := by
  refine hs.moveHandler (fun _ _ heq => by cases heq) ?_
  intro id x hmem hx hphase hold
  rw [IsStopped, hphase] at hold ⊢
  obtain ⟨hfail, hprocess, hwaits, halive⟩ := hold
  refine ⟨hfail, hprocess, ?_, ?_⟩
  · intro hnot
    have hstopping := hwaits hnot
    rw [h] at hstopping
    cases hstopping
  · intro hx'
    rcases halive hx' with hstopping | hterminating
    · rw [h] at hstopping
      cases hstopping
    · rw [h] at hterminating
      cases hterminating
      refine absurd ?_ hdead
      rw [TaskRunner.processOf, hx]
      exact hx'

end

/-! ## The messages of the broker -/

theorem statusOf_popTask {id : TaskId} {status : TaskStatus}
    (h : (s.popTask taskId).statusOf id = some status) :
    s.statusOf id = some status := by
  rw [TaskRunner.statusOf, TaskRunner.popTask] at h
  rw [OrderedMap.get?_delete] at h
  split at h
  · cases h
  · exact h

theorem statusOf_setStatus (status : TaskStatus) (id : TaskId) :
    (s.setStatus taskId status).statusOf id
      = if taskId = id then some status else s.statusOf id := by
  rw [TaskRunner.statusOf, TaskRunner.setStatus, OrderedMap.get?_set, TaskRunner.statusOf]
  split <;> rfl

section

variable (hs : Good s)
include hs

theorem Good.popTask (taskId : TaskId) : Good (s.popTask taskId) :=
  hs.same (hs.harmless.same rfl rfl) rfl (fun _ _ => statusOf_popTask) rfl
    rfl rfl fun _ _ => rfl

theorem Good.respond (hnone : s.handler = none) (h : isOutcome message = false) :
    Good (s.respond message) := by
  refine hs.setHandler ?_ ?_
  · intro taskId
    rw [hnone]
    exact not_stops_none
  · intro _ _ heq
    cases heq
    exact h

theorem Good.registered : Good s.handleRunnerRegistered := by
  refine hs.same ⟨?_, hs.harmless.handler⟩ rfl (fun _ _ h => h) rfl rfl rfl fun _ _ => rfl
  intro message remaining hmem
  rcases mem_append.mp hmem with hold | hnew
  · exact hs.harmless.loops message remaining hold
  · cases mem_singleton.mp hnew

theorem Good.acceptTask (hnew : taskId ∉ s.accepted)
    (offerId : OfferId) : Good (s.acceptTask taskId offerId) := by
  have hstatus : ∀ id, (s.acceptTask taskId offerId).statusOf id
      = (s.setStatus taskId .waitingForSettings).statusOf id :=
    fun _ => rfl
  refine
    { harmless := hs.harmless.same rfl rfl
      known := ?_
      fits := fun id x hx =>
        ⟨(hs.fits id x hx).alive, (hs.fits id x hx).isStopped⟩
      tasks := ?_
      waiting := ?_
      cancelled := hs.cancelled
      outcomes := hs.outcomes }
  · intro id x hx
    exact mem_append_left _ (hs.known id x hx)
  · intro id status h
    rw [hstatus, statusOf_setStatus] at h
    split at h
    · rename_i heq
      subst heq
      exact mem_append_right _ (mem_singleton.mpr rfl)
    · exact mem_append_left _ (hs.tasks id status h)
  · intro id h
    rw [hstatus, statusOf_setStatus] at h
    split at h
    · rename_i heq
      subst heq
      rcases hget : s.executions.get? taskId with _ | x
      · exact hget
      · exact absurd (hs.known taskId x hget) hnew
    · exact hs.waiting id h

theorem Good.offerAccept (hnone : s.handler = none)
    (hnew : taskId ∉ s.accepted) (offerId : OfferId) :
    Good (s.handleTaskOfferAccept taskId offerId) := by
  rw [TaskRunner.handleTaskOfferAccept]
  split
  · exact hs.respond hnone rfl
  · split
    · exact hs.respond hnone rfl
    · exact (hs.acceptTask hnew offerId).respond hnone rfl

theorem Good.setStatus {old status : TaskStatus}
    (h : s.statusOf taskId = some old) (hstatus : status ≠ .waitingForSettings) :
    Good (s.setStatus taskId status) :=
  { harmless := hs.harmless.same rfl rfl
    known := hs.known
    fits := fun id x hx =>
      ⟨(hs.fits id x hx).alive, (hs.fits id x hx).isStopped⟩
    tasks := by
      intro id new hnew
      rw [statusOf_setStatus] at hnew
      split at hnew
      · rename_i heq
        subst heq
        exact hs.tasks taskId old h
      · exact hs.tasks id new hnew
    waiting := by
      intro id hwaiting
      rw [statusOf_setStatus] at hwaiting
      split at hwaiting
      · cases hwaiting
        exact absurd rfl hstatus
      · exact hs.waiting id hwaiting
    cancelled := hs.cancelled
    outcomes := hs.outcomes }

/-- A coroutine is made, or goes on, before its last message is sent. -/
theorem Good.setExecution (haccepted : taskId ∈ s.accepted)
    (hcount : s.sent.countP (isOutcomeOf taskId) = 0)
    (hstatus : s.statusOf taskId ≠ some .waitingForSettings)
    (hfits : Fits s taskId x) : Good (s.setExecution taskId x) := by
  have hget : ∀ id, (s.setExecution taskId x).executions.get? id
      = if taskId = id then some x else s.executions.get? id :=
    fun _ => OrderedMap.get?_set ..
  refine
    { harmless := hs.harmless.same rfl rfl
      known := ?_
      fits := ?_
      tasks := hs.tasks
      waiting := ?_
      cancelled := ?_
      outcomes := ?_ }
  · intro id y hy
    rw [hget] at hy
    split at hy
    · rename_i heq
      subst heq
      exact haccepted
    · exact hs.known id y hy
  · intro id y hy
    rw [hget] at hy
    split at hy
    · rename_i heq
      subst heq
      cases hy
      exact ⟨hfits.alive, hfits.isStopped⟩
    · exact ⟨(hs.fits id y hy).alive, (hs.fits id y hy).isStopped⟩
  · intro id h
    rw [hget]
    split
    · rename_i heq
      subst heq
      exact absurd h hstatus
    · exact hs.waiting id h
  · intro id hmem
    rw [hget]
    split
    · exact ⟨x, rfl⟩
    · exact hs.cancelled id hmem
  · intro id
    rw [OutcomeFits, hget]
    split
    · rename_i heq
      subst heq
      exact .inl hcount
    · exact hs.outcomes id

theorem Good.settings (taskId : TaskId) (continueOnFail : Bool) :
    Good (s.handleTaskSettings taskId continueOnFail) := by
  rw [TaskRunner.handleTaskSettings]
  split
  · rename_i hstatus
    have hfresh := hs.waiting taskId hstatus
    have hrunning : Good (s.setStatus taskId .running) :=
      hs.setStatus hstatus fun heq => by cases heq
    refine hrunning.setExecution (hs.tasks taskId _ hstatus) ?_ ?_ ⟨?_, ?_⟩
    · rcases hs.outcomes taskId with hzero | ⟨-, ⟨x, hx, -⟩, -⟩
      · exact hzero
      · rw [hfresh] at hx
        cases hx
    · rw [statusOf_setStatus, if_pos rfl]
      intro heq
      cases heq
    · intro h
      cases h
    · intro hmem
      obtain ⟨x, hx⟩ := hs.cancelled taskId hmem
      rw [hfresh] at hx
      cases hx
  · exact hs

theorem countP_eq_zero (hx : s.executions.get? taskId = some x) (hlive : x.phase ≠ .finished) :
    s.sent.countP (isOutcomeOf taskId) = 0 := by
  rcases hs.outcomes taskId with hzero | ⟨-, ⟨y, hy, hfinished⟩, -⟩
  · exact hzero
  · rw [hx] at hy
    cases hy
    exact absurd hfinished hlive

/-- The cancel of a task that can be stopped. -/
theorem Good.cancelTask (hnone : s.handler = none)
    (hx : s.executions.get? taskId = some x) (hcan : CanBeStopped x) :
    Good { s.setHandler
        (some (.stopping taskId (s.processOf taskId).isSome)) with
      cancelled := s.cancelled ++ [taskId] } := by
  have hlive : x.phase ≠ .finished := by
    intro hfinished
    rcases hcan with ⟨error, herror⟩ | ⟨hexecuting, -⟩
    · rw [herror] at hfinished
      cases hfinished
    · rw [hexecuting] at hfinished
      cases hfinished
  refine
    { harmless := ⟨hs.harmless.loops, fun _ _ h => by cases h⟩
      known := hs.known
      fits := ?_
      tasks := hs.tasks
      waiting := hs.waiting
      cancelled := ?_
      outcomes := ?_ }
  · intro id y hy
    refine ⟨(hs.fits id y hy).alive, ?_⟩
    intro hmem
    rcases mem_append.mp hmem with hold | hnew
    · refine ((hs.fits id y hy).isStopped hold).mono ?_
      rw [hnone]
      intro hstops
      exact absurd hstops not_stops_none
    · cases mem_singleton.mp hnew
      have hsame : some x = some y := hx.symm.trans hy
      cases hsame
      rcases hcan with ⟨error, herror⟩ | ⟨hexecuting, hprocess, hfail⟩
      · rw [IsStopped, herror]
        exact trivial
      · have hsome : (s.processOf taskId).isSome = true := by
          rw [TaskRunner.processOf, hx]
          exact Option.isSome_iff_ne_none.mpr hprocess
        rw [IsStopped, hexecuting]
        show x.continueOnFail = false ∧ x.process ≠ none
          ∧ (_ → some (Handler.stopping taskId (s.processOf taskId).isSome) = _)
          ∧ (_ → Stops (some (.stopping taskId (s.processOf taskId).isSome)) _)
        rw [hsome]
        exact ⟨hfail, hprocess, fun _ => rfl, fun _ => .inl rfl⟩
  · intro id hmem
    rcases mem_append.mp hmem with hold | hnew
    · exact hs.cancelled id hold
    · cases mem_singleton.mp hnew
      exact ⟨x, hx⟩
  · intro id
    by_cases hid : id = taskId
    · subst hid
      have hzero := countP_eq_zero hs hx hlive
      exact .inl hzero
    · rcases hs.outcomes id with hzero | ⟨hone, hfinished, hdone⟩
      · exact .inl hzero
      · refine .inr ⟨hone, hfinished, ?_⟩
        intro hmem
        rcases mem_append.mp hmem with hold | hnew
        · exact hdone hold
        · exact absurd (mem_singleton.mp hnew) hid

theorem Good.taskCancel (hnone : s.handler = none)
    (hc : InTime s (.received (.taskCancel taskId seed))) :
    Good (s.handleTaskCancel taskId seed) := by
  have hfree : ∀ id, ¬ Stops s.handler id := by
    intro id
    rw [hnone]
    exact not_stops_none
  rw [TaskRunner.handleTaskCancel]
  split
  · split
    · rename_i hsend
      exact (hs.popTask taskId).sendOffers hsend
    · rename_i t message remaining hsend
      refine ((hs.popTask taskId).sendOffers hsend).setHandler ?_ ?_
      · rw [(offers_sendOffers hsend).handler]
        exact hfree
      · intro _ _ heq
        cases heq
        exact sendOffers_isOutcome hsend
  · rename_i hstatus
    obtain ⟨x, hx, hcan⟩ := hc hstatus
    exact (hs.setStatus hstatus (fun heq => by cases heq)).cancelTask hnone hx hcan
  · exact hs

theorem Good.received (hnone : s.handler = none) {message : BrokerMessage} (hnew : s.IsNew message)
    (hc : InTime s (.received message)) : Good (s.handleMessage message) := by
  cases message with
  | infoRequest => exact hs.respond hnone rfl
  | runnerRegistered => exact hs.registered
  | taskOfferAccept taskId offerId => exact hs.offerAccept hnone (hnew taskId rfl) offerId
  | taskSettings taskId continueOnFail => exact hs.settings taskId continueOnFail
  | taskCancel taskId seed => exact hs.taskCancel hnone hc

end

/-! ## The coroutine of a task -/

theorem Good.status_ne_waiting (hs : Good s) (hx : s.executions.get? taskId = some x) :
    s.statusOf taskId ≠ some .waitingForSettings := by
  intro h
  rw [hs.waiting taskId h] at hx
  cases hx

theorem ne_finished {phase : Phase} (h : x.phase = phase)
    (hphase : phase ≠ .finished) : x.phase ≠ .finished := h ▸ hphase

section

variable (hfits : Fits s taskId x)
include hfits

theorem Fits.executing (hphase : x.phase = .executing)
    (hmem : taskId ∈ s.cancelled) : x.continueOnFail = false ∧ x.process ≠ none
      ∧ (x.process = some .notStarted → s.handler = some (.stopping taskId true))
      ∧ (x.process = some .alive → Stops s.handler taskId) := by
  have hstopped := hfits.isStopped hmem
  rw [IsStopped, hphase] at hstopped
  exact hstopped

theorem Fits.raises (hphase : x.phase = .executing)
    {process : Option Process} (hprocess : process ≠ some .alive)
    (error : TaskError) :
    Fits s taskId ({ x with process := process }.raises error) := by
  refine ⟨fun halive => absurd halive hprocess, ?_⟩
  intro hmem
  obtain ⟨hfail, -⟩ := hfits.executing hphase hmem
  have hsending : ({ x with process := process }.raises error).phase = .sendingError error := by
    rw [Execution.raises, hfail]
    rfl
  rw [IsStopped, hsending]
  exact trivial

theorem Fits.begin {valid : Bool} (h : x.begin valid = some x') :
    x.phase ≠ .finished ∧ Fits s taskId x' := by
  rw [Execution.begin] at h
  split at h
  · rename_i hphase
    have hnot : taskId ∉ s.cancelled := by
      intro hmem
      have hstopped := hfits.isStopped hmem
      rw [IsStopped, hphase] at hstopped
      exact hstopped
    refine ⟨ne_finished hphase (fun heq => by cases heq), ?_⟩
    split at h
    · cases h
      exact ⟨fun _ => rfl, fun hmem => absurd hmem hnot⟩
    · cases h
      refine ⟨?_, fun hmem => absurd hmem hnot⟩
      intro halive
      have hexecuting := hfits.alive halive
      rw [hphase] at hexecuting
      cases hexecuting
  · cases h

theorem Fits.startProcess {ok : Bool} (h : x.startProcess ok = some x') :
    x.phase ≠ .finished ∧ Fits s taskId x' := by
  rw [Execution.startProcess] at h
  split at h
  · rename_i hready
    obtain ⟨hphase, hprocess⟩ := hready
    refine ⟨ne_finished hphase (fun heq => by cases heq), ?_⟩
    split at h
    · cases h
      refine ⟨fun _ => hphase, ?_⟩
      intro hmem
      obtain ⟨hfail, -, hwaits, -⟩ := hfits.executing hphase hmem
      rw [IsStopped, hphase]
      exact ⟨hfail, (fun heq => by cases heq), (fun heq => by cases heq),
        fun _ => .inl (hwaits hprocess)⟩
    · cases h
      have hdead : x.process ≠ some .alive := by
        intro heq
        rw [hprocess] at heq
        cases heq
      have hraises := hfits.raises hphase hdead (.subprocessFailed (-1))
      exact hraises
  · cases h

theorem Fits.exitProcess {code : Int} (h : x.exitProcess code = some x') :
    x.phase ≠ .finished ∧ Fits s taskId x' := by
  rw [Execution.exitProcess] at h
  split at h
  · rename_i halive
    have hphase := hfits.alive halive
    cases h
    refine ⟨ne_finished hphase (fun heq => by cases heq), fun _ => hphase, ?_⟩
    intro hmem
    obtain ⟨hfail, -⟩ := hfits.executing hphase hmem
    rw [IsStopped, hphase]
    exact ⟨hfail, (fun heq => by cases heq), (fun heq => by cases heq), fun heq => by cases heq⟩
  · cases h

theorem Fits.timeOut {code : Int} (h : x.timeOut code = some x') :
    x.phase ≠ .finished ∧ Fits s taskId x' := by
  rw [Execution.timeOut] at h
  split at h
  · rename_i hready
    cases h
    refine ⟨ne_finished hready.1 (fun heq => by cases heq), ?_⟩
    exact hfits.raises hready.1 (fun heq => by cases heq) _
  · cases h

end

theorem readResult_ok {code : Int} {reader : PipeReader} {prints : Nat}
    (h : readResult code reader = .ok prints) :
    code = 0 ∧ reader = .ended (some (.result prints)) := by
  unfold readResult at h
  split at h
  · cases h
  · split at h
    · cases h
    · split at h
      · cases h
      · rename_i hcode
        refine ⟨Decidable.not_not.mp hcode, ?_⟩
        split at h <;> cases h
        rfl

section

variable (hfits : Fits s taskId x) (hx : s.executions.get? taskId = some x)
include hfits hx

theorem Fits.joinProcess {reader : PipeReader} (hc : InTime s (.process taskId (.isJoined reader)))
    (h : x.joinProcess reader = some x') :
    x.phase ≠ .finished ∧ Fits s taskId x' := by
  rw [Execution.joinProcess] at h
  split at h
  · rename_i code hphase hprocess
    refine ⟨ne_finished hphase (fun heq => by cases heq), ?_⟩
    have hdead : x.process ≠ some .alive := fun heq => by rw [hprocess] at heq; cases heq
    split at h
    · rename_i prints hread
      obtain ⟨hcode, hreader⟩ := readResult_ok hread
      cases h
      refine ⟨fun heq => absurd heq hdead, ?_⟩
      intro hmem
      have hexit : s.processOf taskId = some (.exited 0) := by
        rw [TaskRunner.processOf, hx, ← hcode]
        exact hprocess
      exact absurd hreader (hc hmem hexit prints)
    · rename_i error hread
      cases h
      have hraises := hfits.raises hphase hdead error
      exact hraises
  · cases h

theorem Fits.onEvent {event : ProcessEvent}
    (hc : InTime s (.process taskId event)) (h : x.onEvent event = some x') :
    x.phase ≠ .finished ∧ Fits s taskId x' := by
  cases event with
  | begins valid => exact hfits.begin h
  | starts ok => exact hfits.startProcess h
  | exits code => exact hfits.exitProcess h
  | timesOut code => exact hfits.timeOut h
  | isJoined reader => exact hfits.joinProcess hx hc h

end

section

variable (hs : Good s) (hx : s.executions.get? taskId = some x) (hlive : x.phase ≠ .finished)
include hs hx hlive

theorem Good.advance (hfits : Fits s taskId x') : Good (s.setExecution taskId x') :=
  hs.setExecution (hs.known taskId x hx) (countP_eq_zero hs hx hlive)
    (hs.status_ne_waiting hx) hfits

theorem Good.finishTask (hdead : x.process ≠ some .alive) : Good (s.finishTask taskId x) := by
  refine (hs.popTask taskId).advance hx hlive ⟨fun heq => absurd heq hdead, ?_⟩
  intro _
  exact trivial

end

/-- The last message of a task is the only one. -/
theorem Good.sendOutcome (hs : Good s)
    (hx : ∃ x, s.executions.get? taskId = some x ∧ x.phase = .finished)
    (hcount : s.sent.countP (isOutcomeOf taskId) = 0) (hmessage : isOutcomeOf taskId message = true)
    (hdone : message = .taskDone taskId → taskId ∉ s.cancelled) :
    Good (s.send message) := by
  refine
    { harmless := hs.harmless.same rfl rfl
      known := hs.known
      fits := fun id x hx =>
        ⟨(hs.fits id x hx).alive, (hs.fits id x hx).isStopped⟩
      tasks := hs.tasks
      waiting := hs.waiting
      cancelled := hs.cancelled
      outcomes := ?_ }
  intro id
  by_cases hid : id = taskId
  · subst hid
    refine .inr ⟨?_, hx, ?_⟩
    · show (s.sent ++ [message]).countP (isOutcomeOf id) = 1
      rw [countP_append, countP_singleton, if_pos hmessage, hcount]
    · intro hcancelled hmem
      rcases mem_append.mp hmem with hold | hnew
      · have hpos := countP_pos_of_done hold
        omega
      · exact hdone (mem_singleton.mp hnew).symm hcancelled
  · have hother : isOutcomeOf id message = false := by
      cases message with
      | taskDone other =>
        have hsame : other = taskId := of_decide_eq_true hmessage
        exact decide_eq_false fun heq => hid (heq.symm.trans hsame)
      | taskError other error =>
        have hsame : other = taskId := of_decide_eq_true hmessage
        exact decide_eq_false fun heq => hid (heq.symm.trans hsame)
      | _ => rfl
    have hsame := countP_send_of_not (s := s) hother
    rcases hs.outcomes id with hzero | ⟨hone, hfinished, hnone⟩
    · exact .inl (hsame.trans hzero)
    · refine .inr ⟨hsame.trans hone, hfinished, ?_⟩
      intro hcancelled hmem
      rcases mem_append.mp hmem with hold | hnew
      · exact hnone hcancelled hold
      · rw [← mem_singleton.mp hnew, isOutcomeOf] at hother
        simp at hother

section

variable (hs : Good s) (hx : s.executions.get? taskId = some x)
include hs hx

theorem Good.sendLast (hlive : x.phase ≠ .finished) (hdead : x.process ≠ some .alive)
    (hmessage : isOutcomeOf taskId message = true)
    (hdone : message = .taskDone taskId → taskId ∉ s.cancelled) :
    Good ((s.send message).finishTask taskId x) := by
  have hfinish := hs.finishTask hx hlive hdead
  have hcount := countP_eq_zero hs hx hlive
  refine hfinish.sendOutcome ⟨{ x with phase := .finished }, ?_, rfl⟩ hcount hmessage hdone
  exact (OrderedMap.get?_set ..).trans (if_pos rfl)

theorem Good.taskSent (h : s.taskSent taskId x = some t) : Good t := by
  have hfits := hs.fits taskId x hx
  have hdead : ∀ phase, x.phase = phase → phase ≠ .executing → x.process ≠ some .alive := by
    intro phase hphase hne halive
    exact hne (hphase.symm.trans (hfits.alive halive))
  have hnot : ∀ prints, x.phase = .sendingResult prints → taskId ∉ s.cancelled := by
    intro prints hphase hmem
    have hstopped := hfits.isStopped hmem
    rw [IsStopped, hphase] at hstopped
    exact hstopped
  rw [TaskRunner.taskSent] at h
  split at h
  · rename_i hphase
    cases h
    exact hs.sendLast hx (ne_finished hphase fun heq => by cases heq)
      (hdead _ hphase fun heq => by cases heq) (decide_eq_true rfl) fun _ => hnot 0 hphase
  · rename_i prints hphase
    cases h
    refine (hs.send rfl).advance hx (ne_finished hphase fun heq => by cases heq) ⟨?_, ?_⟩
    · exact fun heq => absurd heq (hdead _ hphase fun heq => by cases heq)
    · exact fun hmem => absurd hmem (hnot _ hphase)
  · rename_i error hphase
    cases h
    exact hs.sendLast hx (ne_finished hphase fun heq => by cases heq)
      (hdead _ hphase fun heq => by cases heq) (decide_eq_true rfl) fun heq => by cases heq
  · cases h

theorem Good.taskNotSent (h : s.taskNotSent taskId x = some t) : Good t := by
  have hfits := hs.fits taskId x hx
  rw [TaskRunner.taskNotSent] at h
  split at h
  · rename_i prints hphase
    cases h
    refine hs.advance hx (ne_finished hphase fun heq => by cases heq) ⟨?_, ?_⟩
    · intro halive
      have hexecuting := hfits.alive halive
      rw [hphase] at hexecuting
      cases hexecuting
    · intro _
      exact trivial
  · rename_i error hphase
    cases h
    refine hs.finishTask hx (ne_finished hphase fun heq => by cases heq) ?_
    intro halive
    have hexecuting := hfits.alive halive
    rw [hphase] at hexecuting
    cases hexecuting
  · cases h

end

end

/-! ## Runs -/

/-- **ONE STEP**: the invariant survives every step that meets the
    condition. -/
theorem Good.step {s t : TaskRunner} {e : Event} (hs : Good s)
    (h : Step s e t) (hc : InTime s e) : Good t := by
  cases e with
  | tick millis =>
    cases h
    exact hs.same (hs.harmless.same rfl rfl) rfl (fun _ _ h => h) rfl rfl
      rfl fun _ _ => rfl
  | connected =>
    obtain ⟨-, heq⟩ := Option.ite_none_left_eq_some.mp h
    cases heq
    exact hs.same (hs.harmless.same rfl rfl) rfl (fun _ _ h => h) rfl rfl
      rfl fun _ _ => rfl
  | disconnected =>
    obtain ⟨-, rfl⟩ := Option.ite_some_none_eq_some.mp h
    have hended : Good (s.setLoop (s.loops.length - 1) .ended) :=
      hs.setLoop (s.loops.length - 1) fun _ _ h => by cases h
    exact hended.same (hended.harmless.same rfl rfl) rfl (fun _ _ h => h)
      rfl rfl rfl fun _ _ => rfl
  | received message =>
    obtain ⟨⟨-, hconnected, hhandler⟩, rfl⟩ := Option.ite_some_none_eq_some.mp h
    exact hs.received hconnected hhandler hc
  | handlerSent seed =>
    rw [Step, TaskRunner.next] at h
    split at h
    · rename_i hhandler
      cases h
      exact hs.handlerSent hhandler seed
    · cases h
  | handlerFailed =>
    rw [Step, TaskRunner.next] at h
    split at h
    · rename_i hhandler
      cases h
      refine hs.setHandler ?_ fun _ _ h => by cases h
      intro id
      rw [hhandler]
      exact not_stops_sending
    · cases h
  | handlerLooks =>
    rw [Step, TaskRunner.next] at h
    split at h
    · rename_i hhandler
      cases h
      exact hs.lookAtProcess hhandler hc
    · cases h
  | handlerStopped =>
    rw [Step, TaskRunner.next] at h
    split at h
    · rename_i hhandler
      split at h
      · cases h
      · rename_i hdead
        cases h
        exact hs.handlerStopped hhandler hdead
    · cases h
  | loopRound i seed =>
    rw [Step, TaskRunner.next] at h
    split at h <;> cases h
    exact hs.loopRound i seed
  | loopSent i seed =>
    rw [Step, TaskRunner.next] at h
    split at h
    · rename_i hloop
      cases h
      exact hs.loopSent hloop seed
    · cases h
  | loopFailed i =>
    rw [Step, TaskRunner.next] at h
    split at h <;> cases h
    exact hs.setLoop i fun _ _ h => by cases h
  | process taskId event =>
    obtain ⟨x, hx, hevent⟩ := Option.bind_eq_some_iff.mp h
    obtain ⟨x', hx', rfl⟩ := Option.map_eq_some_iff.mp hevent
    obtain ⟨hlive, hfits⟩ := (hs.fits taskId x hx).onEvent hx hc hx'
    exact hs.advance hx hlive hfits
  | taskSent taskId =>
    rw [Step, TaskRunner.next] at h
    split at h
    · obtain ⟨x, hx, hsent⟩ := Option.bind_eq_some_iff.mp h
      exact hs.taskSent hx hsent
    · cases h
  | taskNotSent taskId =>
    obtain ⟨x, hx, hsent⟩ := Option.bind_eq_some_iff.mp h
    exact hs.taskNotSent hx hsent

theorem good_start (maxConcurrency now : Nat) : Good (.start maxConcurrency now) :=
  { harmless := ⟨(fun _ _ h => by cases h), fun _ _ h => by cases h⟩
    known := fun _ _ h => by cases h
    fits := fun _ _ h => by cases h
    tasks := fun _ _ h => by cases h
    waiting := fun _ h => by cases h
    cancelled := fun _ h => by cases h
    outcomes := fun _ => .inl rfl }

/-- **CANCELS IN TIME**: in a run in which every running task that is
    cancelled can be stopped, no task sends two last messages, and a
    cancelled one sends no result and has its process stopped. -/
theorem cancelEffective_of_inTime {maxConcurrency now : Nat} {path : List (Event × TaskRunner)}
    (hrun : IsRun Step (.start maxConcurrency now) path)
    (hc : EveryStep InTime (.start maxConcurrency now) path) :
    EveryState CancelEffective (.start maxConcurrency now) path := by
  have hall : EveryState Good (.start maxConcurrency now) path :=
    everyState_of_everyStep hrun (good_start maxConcurrency now)
      (fun _ _ _ hs hstep hc => hs.step hstep hc) hc
  exact hall.mono fun _ hs => hs.cancelEffective

/-! ## Two runs -/

/-- A runner with one slot gets a task and its settings. -/
def getsSettings : List Event :=
  [.connected, .received .runnerRegistered, .loopRound 0 (offer "1"),
    .loopSent 0 (offer "2"), .received (.taskOfferAccept "task" "1"),
    .handlerSent (offer "2"), .received (.taskSettings "task" false)]

/-- The cancel comes while the process runs. -/
def cancelsProcess : List Event :=
  getsSettings ++ [.process "task" (.begins true), .process "task" (.starts true),
    .received (.taskCancel "task" (offer "2")), .handlerLooks,
    .process "task" (.exits SIGTERM_EXIT_CODE), .handlerStopped,
    .process "task" (.isJoined (.ended none)), .taskSent "task"]

/-- The cancel comes before the coroutine of the task has begun. -/
def cancelsEarly : List Event :=
  getsSettings ++ [.received (.taskCancel "task" (offer "2")), .handlerLooks,
    .process "task" (.begins true), .process "task" (.starts true),
    .process "task" (.exits 0), .process "task" (.isJoined (.ended (some (.result 0)))),
    .taskSent "task"]

theorem cancelsProcess_cancelEffective :
    EveryState CancelEffective (.start 1 0) (pathOf after (.start 1 0) cancelsProcess) := by
  have hrun : IsRun Step (.start 1 0) (pathOf after (.start 1 0) cancelsProcess) :=
    ⟨rfl, rfl, rfl, rfl, rfl, rfl, rfl, rfl, rfl, rfl, rfl, rfl, rfl, rfl, rfl,
      trivial⟩
  refine cancelEffective_of_inTime hrun ?_
  refine ⟨trivial, trivial, trivial, trivial, trivial, trivial, trivial,
    trivial, trivial, ?_, ?_, trivial, trivial, ?_, trivial, trivial⟩
  · intro _
    exact ⟨_, rfl, .inr ⟨rfl, (fun heq => by cases heq), rfl⟩⟩
  · intro taskId x hhandler hx _ hprocess
    cases hhandler
    cases hx
    cases hprocess
  · intro _ hexit
    cases hexit

/-- A task that was cancelled while it was running sends its result. -/
theorem cancelsEarly_sendsResult :
    ¬ ∀ maxConcurrency now (path : List (Event × TaskRunner)),
      IsRun Step (.start maxConcurrency now) path →
        EveryState CancelEffective (.start maxConcurrency now) path := by
  intro hall
  have hrun : IsRun Step (.start 1 0) (pathOf after (.start 1 0) cancelsEarly) :=
    ⟨rfl, rfl, rfl, rfl, rfl, rfl, rfl, rfl, rfl, rfl, rfl, rfl, rfl, rfl,
      trivial⟩
  have hlast : CancelEffective (lastState (.start 1 0)
      (pathOf after (.start 1 0) cancelsEarly)) := (hall 1 0 _ hrun).last
  refine hlast.noResult "task" ?_ ?_
  · exact mem_singleton.mpr rfl
  · exact mem_append_right _ (mem_singleton.mpr rfl)

end N8nPythonCancel
