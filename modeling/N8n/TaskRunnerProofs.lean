import N8n.RunProofs
import N8n.OrderedMapProofs

/-! # The task runner — offers and running tasks

    A runner offers its free slots to the broker, the broker accepts an
    offer for a task, sends the settings of the task, and may cancel it; a
    timer aborts a task that takes too long.

    `TaskState` objects are kept in a list, and the maps and closures of the
    runner refer to them by their place in it, so that two tasks with one id
    stay apart.  `receivedSettings` builds a promise chain; a state says how
    far its chain has come, and each link is an event of its own.

    The bound on the work a runner takes on rests on two facts: new offers
    only fill up what is left, and a task takes the place of an offer. -/

namespace N8nTaskRunner

open N8nRun N8nOrderedMap

abbrev TaskId := String

/-! ## Tasks -/

inductive TaskStatus where
  | waitingForSettings | running | abortingCancelled | abortingTimeout
deriving DecidableEq

/-- What a task can fail with: an error of the runner, or what its body
    throws. -/
inductive TaskError (V : Type) where
  | timeoutError | assertionError | serializationError | thrown (error : V)
deriving DecidableEq

/-- How far the promise chain of a task has come: not begun, in the body,
    in front of `then`, of `catch` or of `finally`, or through.  In front of
    `finally` it may carry an error for the `catch` that follows. -/
inductive Chain (V : Type) where
  | idle
  | executing
  | resolved (data : V)
  | rejected (error : TaskError V)
  | finishing (error : Option (TaskError V))
  | settled
deriving DecidableEq

structure TaskState (V : Type) where
  taskId : TaskId
  status : TaskStatus
  /-- whether the timer of the task is armed -/
  timeoutTimer : Bool
  abortSignal : Option String
  chain : Chain V

structure TaskOffer where
  offerId : Nat
  validUntil : Nat

structure DataRequest where
  taskId : TaskId
  requestId : Nat

inductive RequestKind where
  | data | nodeTypes
deriving DecidableEq

inductive RunnerMessage (V : Type) where
  | info
  | taskoffer (offerId validFor : Nat)
  | taskrejected (taskId : TaskId) (reason : String)
  | taskaccepted (taskId : TaskId)
  | taskdone (taskId : TaskId) (data : V)
  | taskerror (taskId : TaskId) (error : TaskError V)
  | taskdatarequest (taskId : TaskId) (requestId : Nat)
  | nodetypesrequest (taskId : TaskId) (requestId : Nat)
deriving DecidableEq

/-- What the log records: the messages sent, and what becomes of tasks and
    requests. -/
inductive Entry (V : Type) where
  | sent (message : RunnerMessage V)
  | cancelled (taskId : TaskId)
  | removed (taskId : TaskId)
  | opened (requestId : Nat) (taskId : TaskId)
  | answered (requestId : Nat)
  | rejected (requestId : Nat) (reason : String)
deriving DecidableEq

structure TaskRunner (V : Type) where
  maxConcurrency : Nat
  canSendOffers : Bool
  /-- whether the interval that sends offers is armed -/
  offerInterval : Bool
  openOffers : OrderedMap Nat TaskOffer
  runningTasks : OrderedMap TaskId Nat
  dataRequests : OrderedMap Nat DataRequest
  nodeTypesRequests : OrderedMap Nat DataRequest
  tasks : List (TaskState V)
  /-- the next identifier `nanoid` gives out -/
  nanoid : Nat
  log : List (Entry V)

/-- The clock and the random numbers as `sendOffers` reads them: once for
    the stale offers, and for each new offer. -/
structure Moment where
  now : Nat
  offer : Nat → Nat × Nat

variable {V : Type}

namespace TaskRunner

def new (V : Type) (maxConcurrency : Nat) : TaskRunner V :=
  { maxConcurrency
    canSendOffers := false
    offerInterval := false
    openOffers := .empty
    runningTasks := .empty
    dataRequests := .empty
    nodeTypesRequests := .empty
    tasks := []
    nanoid := 0
    log := [] }

def record (r : TaskRunner V) (entries : List (Entry V)) : TaskRunner V :=
  { r with log := r.log ++ entries }

def send (r : TaskRunner V) (message : RunnerMessage V) : TaskRunner V := r.record [.sent message]

/-- A change of the task state object at the place. -/
def updateTask (r : TaskRunner V) (ref : Nat) (f : TaskState V → TaskState V) : TaskRunner V :=
  { r with tasks := r.tasks.modify ref f }

/-- `this.runningTasks.get(taskId)`. -/
def runningTask (r : TaskRunner V) (taskId : TaskId) : Option (Nat × TaskState V) :=
  (r.runningTasks.get? taskId).bind fun ref =>
    r.tasks[ref]?.map fun taskState => (ref, taskState)

/-! ## Offers -/

def startTaskOffers (r : TaskRunner V) : TaskRunner V :=
  { r with canSendOffers := true, offerInterval := true }

def stopTaskOffers (r : TaskRunner V) : TaskRunner V :=
  { r with canSendOffers := false, offerInterval := false }

def deleteStaleOffers (r : TaskRunner V) (now : Nat) : TaskRunner V :=
  { r with openOffers := r.openOffers.filter fun p => now ≤ p.2.validUntil }

/-- One new offer, with some milliseconds at random and a little extra time
    for the way to the broker. -/
def sendOffer (m : Moment) (r : TaskRunner V) (i : Nat) : TaskRunner V :=
  let validFor := 5000 + (m.offer i).1
  let offer : TaskOffer :=
    { offerId := r.nanoid
      validUntil := (m.offer i).2 + (validFor + 100) * 1000000 }
  let r : TaskRunner V :=
    { r with
      openOffers := r.openOffers.set offer.offerId offer
      nanoid := r.nanoid + 1 }
  r.send (.taskoffer offer.offerId validFor)

/-- The slots without a task and without an offer; nothing is sent when
    there are too many already. -/
def offersToSend (r : TaskRunner V) : Nat :=
  r.maxConcurrency - (r.openOffers.size + r.runningTasks.size)

def sendOffers (r : TaskRunner V) (m : Moment) : TaskRunner V :=
  let r := r.deleteStaleOffers m.now
  if r.canSendOffers then
    (List.range r.offersToSend).foldl (sendOffer m) r
  else r

/-! ## Tasks -/

def hasOpenTaskSlots (r : TaskRunner V) : Bool := r.runningTasks.size < r.maxConcurrency

def offerAccepted (r : TaskRunner V) (offerId : Nat) (taskId : TaskId) : TaskRunner V :=
  if !r.hasOpenTaskSlots then
    let r : TaskRunner V :=
      { r with openOffers := r.openOffers.delete offerId }
    r.send (.taskrejected taskId "No open task slots - runner already at capacity")
  else
    match r.openOffers.get? offerId with
    | none =>
      r.send (.taskrejected taskId "Offer expired - not accepted within validity window")
    | some _ =>
      let r : TaskRunner V :=
        { r with
          openOffers := r.openOffers.delete offerId
          runningTasks := r.runningTasks.set taskId r.tasks.length
          tasks := r.tasks ++
            [{ taskId
               status := .waitingForSettings
               timeoutTimer := true
               abortSignal := none
               chain := .idle }] }
      r.send (.taskaccepted taskId)

/-- `this.runningTasks.delete(taskId)`. -/
def removeTask (r : TaskRunner V) (taskId : TaskId) : TaskRunner V :=
  { r with
    runningTasks := r.runningTasks.delete taskId
    log := r.log ++
      if r.runningTasks.has taskId then [.removed taskId] else [] }

/-- The timer is cleared, the task removed, and new offers are sent. -/
def finishTask (r : TaskRunner V) (m : Moment) (ref : Nat) (taskId : TaskId) : TaskRunner V :=
  ((r.updateTask ref fun taskState =>
    { taskState with timeoutTimer := false }).removeTask taskId).sendOffers m

def requests (r : TaskRunner V) : RequestKind → OrderedMap Nat DataRequest
  | .data => r.dataRequests
  | .nodeTypes => r.nodeTypesRequests

/-- The requests of a kind replaced. -/
def setRequests (r : TaskRunner V) (kind : RequestKind)
    (requests : OrderedMap Nat DataRequest) : TaskRunner V :=
  match kind with
  | .data => { r with dataRequests := requests }
  | .nodeTypes => { r with nodeTypesRequests := requests }

/-- The requests of the task among those of one kind are rejected and
    deleted. -/
def rejectRequests (taskId : TaskId) (reason : String) (r : TaskRunner V)
    (kind : RequestKind) : TaskRunner V :=
  (r.setRequests kind ((r.requests kind).filter fun p => p.2.taskId ≠ taskId)).record
    (((r.requests kind).entries.filter fun p => p.2.taskId = taskId).map
      fun p => .rejected p.1 reason)

def cancelTaskRequests (r : TaskRunner V) (taskId : TaskId) (reason : String) : TaskRunner V :=
  rejectRequests taskId reason (rejectRequests taskId reason r .data) .nodeTypes

/-- The chain of a task moves on. -/
def setChain (r : TaskRunner V) (ref : Nat) (chain : Chain V) : TaskRunner V :=
  r.updateTask ref fun taskState => { taskState with chain }

/-- A running task is aborted; its body is told, and its requests are
    rejected. -/
def abortTask (r : TaskRunner V) (ref : Nat) (taskId : TaskId)
    (status : TaskStatus) (signal reason : String) : TaskRunner V :=
  (r.updateTask ref fun taskState =>
    { taskState with status, abortSignal := some signal }).cancelTaskRequests taskId reason

def taskCancelled (r : TaskRunner V) (m : Moment) (taskId : TaskId)
    (reason : String) : TaskRunner V :=
  match r.runningTask taskId with
  | none => r
  | some (ref, taskState) =>
    match taskState.status with
    | .waitingForSettings =>
      ((r.record [.cancelled taskId]).finishTask m ref taskState.taskId).setChain ref .settled
    | .abortingTimeout | .abortingCancelled => r
    | .running =>
      (r.record [.cancelled taskId]).abortTask ref taskId .abortingCancelled "cancelled" reason

def taskTimedOut (r : TaskRunner V) (m : Moment) (taskId : TaskId) : TaskRunner V :=
  match r.runningTask taskId with
  | none => r
  | some (ref, taskState) =>
    match taskState.status with
    | .waitingForSettings =>
      ((r.send (.taskerror taskId .timeoutError)).finishTask m ref
        taskState.taskId).setChain ref .settled
    -- `abortingTimeout` is an assertion error, which changes nothing.
    | .abortingTimeout | .abortingCancelled => r
    | .running => r.abortTask ref taskId .abortingTimeout "timeout" "timeout"

/-- In any state but the first an assertion error is thrown. -/
def receivedSettings (r : TaskRunner V) (taskId : TaskId) : TaskRunner V :=
  match r.runningTask taskId with
  | none => r
  | some (ref, taskState) =>
    match taskState.status with
    | .waitingForSettings =>
      r.updateTask ref fun taskState =>
        { taskState with status := .running, chain := .executing }
    | _ => r

/-! ## The promise chain -/

/-- Whether `JSON.stringify` can write the error, given whether it can write
    what the body throws. -/
def errorStringifies (stringifies : V → Bool) : TaskError V → Bool
  | .thrown error => stringifies error
  | _ => true

/-- The `try` block of `taskExecutionSucceeded`; where it throws, the error
    goes past `finally` to the `catch` of the chain. -/
def taskExecutionSucceeded (stringifies : V → Bool) (r : TaskRunner V)
    (ref : Nat) (taskState : TaskState V) (data : V) : TaskRunner V :=
  match taskState.status with
  | .waitingForSettings => r.setChain ref (.finishing (some .assertionError))
  | .abortingCancelled => r.setChain ref (.finishing none)
  | .abortingTimeout | .running =>
    if stringifies data then
      (r.send (.taskdone taskState.taskId data)).setChain ref (.finishing none)
    else r.setChain ref (.finishing (some .serializationError))

/-- The `try` block of `taskExecutionFailed`; nothing catches its errors. -/
def taskExecutionFailed (stringifies : V → Bool) (r : TaskRunner V)
    (ref : Nat) (taskState : TaskState V) (error : TaskError V) :
    TaskRunner V :=
  match taskState.status with
  | .waitingForSettings | .abortingCancelled => r.setChain ref (.finishing none)
  | .abortingTimeout | .running =>
    if errorStringifies stringifies error then
      (r.send (.taskerror taskState.taskId error)).setChain ref (.finishing none)
    else r.setChain ref (.finishing none)

/-- The next link of the chain of a task. -/
def resumeChain (stringifies : V → Bool) (r : TaskRunner V) (m : Moment)
    (ref : Nat) : TaskRunner V :=
  match r.tasks[ref]? with
  | none => r
  | some taskState =>
    match taskState.chain with
    | .resolved data => r.taskExecutionSucceeded stringifies ref taskState data
    | .rejected error => r.taskExecutionFailed stringifies ref taskState error
    | .finishing none => (r.finishTask m ref taskState.taskId).setChain ref .settled
    | .finishing (some error) =>
      (r.finishTask m ref taskState.taskId).setChain ref (.rejected error)
    | .idle | .executing | .settled => r

/-! ## Requests -/

/-- A request under a new id is stored and sent. -/
def openRequest (r : TaskRunner V) (kind : RequestKind) (taskId : TaskId)
    (message : TaskId → Nat → RunnerMessage V) : TaskRunner V :=
  { r.setRequests kind ((r.requests kind).set r.nanoid
      { taskId, requestId := r.nanoid }) with
    nanoid := r.nanoid + 1
    log := r.log ++
      [.opened r.nanoid taskId, .sent (message taskId r.nanoid)] }

def requestData (r : TaskRunner V) (taskId : TaskId) : TaskRunner V :=
  r.openRequest .data taskId .taskdatarequest

def requestNodeTypes (r : TaskRunner V) (taskId : TaskId) : TaskRunner V :=
  r.openRequest .nodeTypes taskId .nodetypesrequest

/-- A response to a request that is still there resolves its promise. -/
def processResponse (r : TaskRunner V) (kind : RequestKind) (requestId : Nat) : TaskRunner V :=
  if (r.requests kind).has requestId then r.record [.answered requestId]
  else r

def processDataResponse (r : TaskRunner V) (requestId : Nat) : TaskRunner V :=
  r.processResponse .data requestId

def processNodeTypesResponse (r : TaskRunner V) (requestId : Nat) : TaskRunner V :=
  r.processResponse .nodeTypes requestId

/-- The `finally` of a request whose promise is settled. -/
def deleteRequest (r : TaskRunner V) (kind : RequestKind) (requestId : Nat) : TaskRunner V :=
  r.setRequests kind ((r.requests kind).delete requestId)

end TaskRunner

/-! ## Runs -/

/-- What can happen to a runner. -/
inductive Event (V : Type) where
  | inforequest
  | runnerregistered
  | socketClosed
  | stop
  | offerTick (m : Moment)
  | taskofferaccept (offerId : Nat) (taskId : TaskId)
  | taskcancel (m : Moment) (taskId : TaskId) (reason : String)
  | tasksettings (taskId : TaskId)
  | timeout (m : Moment) (ref : Nat)
  | bodyResolved (ref : Nat) (data : V)
  | bodyRejected (ref : Nat) (error : V)
  | chainResumed (m : Moment) (ref : Nat)
  | requestData (taskId : TaskId)
  | requestNodeTypes (taskId : TaskId)
  | taskdataresponse (requestId : Nat)
  | nodetypes (requestId : Nat)
  | requestSettled (kind : RequestKind) (requestId : Nat)

/-- The chain waits for nothing but its turn. -/
def Chain.Ready : Chain V → Prop
  | .resolved _ | .rejected _ | .finishing _ => True
  | .idle | .executing | .settled => False

/-- The promise of the request is settled. -/
def TaskRunner.Settled (r : TaskRunner V) (requestId : Nat) : Prop :=
  .answered requestId ∈ r.log ∨ ∃ reason, .rejected requestId reason ∈ r.log

/-- Armed timers fire, a body that is executed settles, and only a body that
    was begun makes requests. -/
def Enabled (r : TaskRunner V) : Event V → Prop
  | .offerTick _ => r.offerInterval = true
  | .timeout _ ref => ∃ taskState, r.tasks[ref]? = some taskState ∧ taskState.timeoutTimer = true
  | .bodyResolved ref _ | .bodyRejected ref _ =>
    ∃ taskState, r.tasks[ref]? = some taskState ∧ taskState.chain = .executing
  | .chainResumed _ ref => ∃ taskState, r.tasks[ref]? = some taskState ∧ taskState.chain.Ready
  | .requestData taskId | .requestNodeTypes taskId =>
    ∃ taskState ∈ r.tasks, taskState.taskId = taskId ∧ taskState.chain ≠ .idle
  | .requestSettled _ requestId => r.Settled requestId
  | _ => True

def next (stringifies : V → Bool) (r : TaskRunner V) :
    Event V → TaskRunner V
  | .inforequest => r.send .info
  | .runnerregistered => r.startTaskOffers
  | .socketClosed | .stop => r.stopTaskOffers
  | .offerTick m => r.sendOffers m
  | .taskofferaccept offerId taskId => r.offerAccepted offerId taskId
  | .taskcancel m taskId reason => r.taskCancelled m taskId reason
  | .tasksettings taskId => r.receivedSettings taskId
  | .timeout m ref =>
    match r.tasks[ref]? with
    | none => r
    | some taskState =>
      (r.updateTask ref fun taskState =>
        { taskState with timeoutTimer := false }).taskTimedOut m taskState.taskId
  | .bodyResolved ref data => r.setChain ref (.resolved data)
  | .bodyRejected ref error => r.setChain ref (.rejected (.thrown error))
  | .chainResumed m ref => r.resumeChain stringifies m ref
  | .requestData taskId => r.requestData taskId
  | .requestNodeTypes taskId => r.requestNodeTypes taskId
  | .taskdataresponse requestId => r.processDataResponse requestId
  | .nodetypes requestId => r.processNodeTypesResponse requestId
  | .requestSettled kind requestId => r.deleteRequest kind requestId

def Step (stringifies : V → Bool) (r : TaskRunner V) (e : Event V) (r' : TaskRunner V) : Prop :=
  Enabled r e ∧ r' = next stringifies r e

/-! ## The work a runner takes on -/

/-- Running tasks and open offers together. -/
def TaskRunner.load (r : TaskRunner V) : Nat := r.runningTasks.size + r.openOffers.size

/-- The runner has not taken on more than `n`, which is what it may. -/
structure Within (n : Nat) (r : TaskRunner V) : Prop where
  max : r.maxConcurrency = n
  load : r.load ≤ n

section

variable {n : Nat} {r r' : TaskRunner V}

theorem Within.fewer (h : Within n r) (hmax : r'.maxConcurrency = r.maxConcurrency)
    (hload : r'.load ≤ r.load) : Within n r' :=
  ⟨hmax.trans h.max, Nat.le_trans hload h.load⟩

theorem Within.same (h : Within n r) (hmax : r'.maxConcurrency = r.maxConcurrency)
    (htasks : r'.runningTasks = r.runningTasks)
    (hoffers : r'.openOffers = r.openOffers) : Within n r' := by
  refine h.fewer hmax (Nat.le_of_eq ?_)
  rw [TaskRunner.load, TaskRunner.load, htasks, hoffers]

theorem Within.record (h : Within n r) (entries : List (Entry V)) :
    Within n (r.record entries) := h.same rfl rfl rfl

theorem Within.updateTask (h : Within n r) (ref : Nat)
    (f : TaskState V → TaskState V) : Within n (r.updateTask ref f) :=
  h.same rfl rfl rfl

theorem foldl_sendOffer (m : Moment) (l : List Nat) (r : TaskRunner V) :
    (l.foldl (TaskRunner.sendOffer m) r).load ≤ r.load + l.length
      ∧ (l.foldl (TaskRunner.sendOffer m) r).maxConcurrency = r.maxConcurrency := by
  induction l generalizing r with
  | nil => exact ⟨Nat.le_refl _, rfl⟩
  | cons i rest ih =>
    obtain ⟨hload, hmax⟩ := ih (r.sendOffer m i)
    have hone : (r.sendOffer m i).load ≤ r.load + 1 :=
      Nat.add_le_add_left (OrderedMap.size_set_le ..) _
    refine ⟨Nat.le_trans hload ?_, hmax⟩
    rw [List.length_cons]
    omega

section

variable (h : Within n r)
include h

theorem Within.sendOffers (m : Moment) : Within n (r.sendOffers m) := by
  have hstale : Within n (r.deleteStaleOffers m.now) :=
    h.fewer rfl (Nat.add_le_add_left (OrderedMap.size_filter_le ..) _)
  rw [TaskRunner.sendOffers]
  split
  · -- The new offers fill up what is left.
    obtain ⟨hload, hmax⟩ := foldl_sendOffer m
      (List.range (r.deleteStaleOffers m.now).offersToSend) (r.deleteStaleOffers m.now)
    refine ⟨hmax.trans hstale.max, Nat.le_trans hload ?_⟩
    have hleft := hstale.load
    rw [List.length_range, TaskRunner.offersToSend, hstale.max]
    rw [TaskRunner.load] at hleft ⊢
    omega
  · exact hstale

theorem Within.offerAccepted (offerId : Nat)
    (taskId : TaskId) : Within n (r.offerAccepted offerId taskId) := by
  rw [TaskRunner.offerAccepted]
  split
  · exact h.fewer rfl (Nat.add_le_add_left (OrderedMap.size_delete_le ..) _)
  · rcases hoffer : r.openOffers.get? offerId with _ | offer
    · exact h.same rfl rfl rfl
    · -- The task takes the place of the offer.
      have hdelete := OrderedMap.size_delete_of_mem hoffer
      have hset := OrderedMap.size_set_le r.runningTasks taskId r.tasks.length
      refine h.fewer rfl ?_
      show (r.runningTasks.set taskId r.tasks.length).size
        + (r.openOffers.delete offerId).size ≤ r.runningTasks.size + r.openOffers.size
      omega

theorem Within.finishTask (m : Moment) (ref : Nat)
    (taskId : TaskId) : Within n (r.finishTask m ref taskId) := by
  refine Within.sendOffers ?_ m
  exact h.fewer rfl (Nat.add_le_add_right (OrderedMap.size_delete_le ..) _)

theorem Within.setRequests (kind : RequestKind) (requests : OrderedMap Nat DataRequest) :
    Within n (r.setRequests kind requests) := by
  cases kind <;> exact h.same rfl rfl rfl

theorem Within.abortTask (ref : Nat) (taskId : TaskId)
    (status : TaskStatus) (signal reason : String) :
    Within n (r.abortTask ref taskId status signal reason) :=
  h.same rfl rfl rfl

theorem Within.taskCancelled (m : Moment) (taskId : TaskId) (reason : String) :
    Within n (r.taskCancelled m taskId reason) := by
  rw [TaskRunner.taskCancelled]
  rcases r.runningTask taskId with _ | ⟨ref, taskState⟩
  · exact h
  · rcases hstatus : taskState.status with _ | _ | _ | _ <;>
      simp [hstatus]
    · exact ((h.record _).finishTask m ref _).updateTask ref _
    · exact (h.record _).abortTask ref taskId _ _ reason
    · exact h
    · exact h

theorem Within.taskTimedOut (m : Moment)
    (taskId : TaskId) : Within n (r.taskTimedOut m taskId) := by
  rw [TaskRunner.taskTimedOut]
  rcases r.runningTask taskId with _ | ⟨ref, taskState⟩
  · exact h
  · rcases hstatus : taskState.status with _ | _ | _ | _ <;>
      simp [hstatus]
    · exact ((h.record _).finishTask m ref _).updateTask ref _
    · exact h.abortTask ref taskId _ _ _
    · exact h
    · exact h

theorem Within.receivedSettings (taskId : TaskId) : Within n (r.receivedSettings taskId) := by
  rw [TaskRunner.receivedSettings]
  rcases r.runningTask taskId with _ | ⟨ref, taskState⟩
  · exact h
  · rcases hstatus : taskState.status with _ | _ | _ | _ <;>
      simp [hstatus]
    · exact h.updateTask ref _
    · exact h
    · exact h
    · exact h

end

variable {stringifies : V → Bool}

theorem Within.settling (h : Within n r) (ref : Nat) (taskState : TaskState V) :
    (∀ data, Within n (r.taskExecutionSucceeded stringifies ref taskState data))
      ∧ ∀ error, Within n (r.taskExecutionFailed stringifies ref taskState error) := by
  constructor
  · intro data
    rw [TaskRunner.taskExecutionSucceeded]
    split
    · exact h.updateTask ref _
    · exact h.updateTask ref _
    · split
      · exact (h.record _).updateTask ref _
      · exact h.updateTask ref _
    · split
      · exact (h.record _).updateTask ref _
      · exact h.updateTask ref _
  · intro error
    rw [TaskRunner.taskExecutionFailed]
    split
    · exact h.updateTask ref _
    · exact h.updateTask ref _
    · split
      · exact (h.record _).updateTask ref _
      · exact h.updateTask ref _
    · split
      · exact (h.record _).updateTask ref _
      · exact h.updateTask ref _

theorem Within.resumeChain (h : Within n r) (m : Moment) (ref : Nat) :
    Within n (r.resumeChain stringifies m ref) := by
  rw [TaskRunner.resumeChain]
  rcases r.tasks[ref]? with _ | taskState
  · exact h
  · obtain ⟨hsucceeded, hfailed⟩ :=
      h.settling ref taskState
    rcases hchain : taskState.chain with
      _ | _ | data | error | (_ | error) | _ <;> simp [hchain]
    · exact h
    · exact h
    · exact hsucceeded data
    · exact hfailed error
    · exact (h.finishTask m ref _).updateTask ref _
    · exact (h.finishTask m ref _).updateTask ref _
    · exact h

theorem Within.processResponse (h : Within n r) (kind : RequestKind)
    (requestId : Nat) : Within n (r.processResponse kind requestId) := by
  rw [TaskRunner.processResponse]
  split
  · exact h.record _
  · exact h

/-- **ONE STEP** keeps the runner within its bound. -/
theorem Within.next (h : Within n r) (e : Event V) : Within n (next stringifies r e) := by
  cases e with
  | offerTick m => exact h.sendOffers m
  | taskofferaccept offerId taskId => exact h.offerAccepted offerId taskId
  | taskcancel m taskId reason => exact h.taskCancelled m taskId reason
  | tasksettings taskId => exact h.receivedSettings taskId
  | timeout m ref =>
    rw [N8nTaskRunner.next]
    rcases r.tasks[ref]? with _ | taskState
    · exact h
    · exact (h.updateTask ref _).taskTimedOut m _
  | chainResumed m ref => exact h.resumeChain m ref
  | taskdataresponse requestId => exact h.processResponse .data requestId
  | nodetypes requestId => exact h.processResponse .nodeTypes requestId
  | requestSettled kind requestId => exact h.setRequests kind _
  | _ => exact h.same rfl rfl rfl

end

/-- **EVERY RUN**: running tasks and open offers together never exceed the
    number of tasks the runner may run at a time. -/
theorem load_le_maxConcurrency {stringifies : V → Bool}
    {maxConcurrency : Nat} {path : List (Event V × TaskRunner V)}
    (hrun : IsRun (Step stringifies) (.new V maxConcurrency) path) :
    EveryState (fun r => r.runningTasks.size + r.openOffers.size
        ≤ maxConcurrency) (.new V maxConcurrency) path := by
  have hstart : Within maxConcurrency (.new V maxConcurrency) := ⟨rfl, Nat.zero_le _⟩
  refine (everyState_of_preserved hrun hstart ?_).mono fun r h => h.load
  rintro r e r' h ⟨-, rfl⟩
  exact h.next e

/-! ## A run -/

/-- All offers at the same time, none with extra milliseconds. -/
def momentAt (now : Nat) : Moment := { now, offer := fun _ => (0, now) }

/-- A runner with two slots offers both, one offer is accepted, and the next
    tick has nothing left to offer. -/
def twoSlotEvents : List (Event Unit) :=
  [.runnerregistered, .offerTick (momentAt 0), .taskofferaccept 0 "task",
   .tasksettings "task", .offerTick (momentAt 1)]

theorem load_of_twoSlots :
    EveryState (fun r => r.runningTasks.size + r.openOffers.size ≤ 2) (.new Unit 2)
    (pathOf (next fun _ => true) (.new Unit 2) twoSlotEvents) :=
  have hrun : IsRun (Step fun _ => true) (.new Unit 2)
      (pathOf (next fun _ => true) (.new Unit 2) twoSlotEvents) :=
    ⟨⟨trivial, rfl⟩, ⟨rfl, rfl⟩, ⟨trivial, rfl⟩, ⟨trivial, rfl⟩, ⟨rfl, rfl⟩,
      trivial⟩
  load_le_maxConcurrency hrun

end N8nTaskRunner
