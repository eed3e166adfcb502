import N8n.OrderedMapProofs
import N8n.RunProofs

/-! # The task broker — requests, offers and tasks between awaits

    The broker runs on one thread: what happens between two `await`s is one
    step, and at an `await` everything else may happen first.  So a call
    that is suspended is part of the state: `acceptOffers` holds every
    `acceptOffer` call with the place it is suspended at and how its two
    promises were settled, `finishing` the done and error handlers that wait
    for the requester's callback.

    Requests are shared objects: `pendingTaskRequests` lists references into
    `requests`.  Everything the broker has sent is kept in `log`. -/

namespace N8nTaskBroker

open N8nOrderedMap N8nRun

abbrev RunnerId := String
abbrev RequesterId := String
abbrev RequestId := String

/-- `nanoid` never yields the same id twice: task ids are counted. -/
abbrev TaskId := Nat

/-! ## Data -/

/-- An offer; `validUntil` is `none` for one that does not expire. -/
structure TaskOffer where
  offerId : String
  runnerId : RunnerId
  taskType : String
  validUntil : Option Nat

/-- A request object; `timeout` tells whether its timer is armed. -/
structure TaskRequest where
  requesterId : RequesterId
  taskType : String
  acceptInProgress : Bool
  timeout : Bool

/-- A task; `timeout` tells whether its timer is armed. -/
structure Task where
  runnerId : RunnerId
  requesterId : RequesterId
  timeout : Bool
deriving DecidableEq

/-- The three kinds of questions a runner asks its requester. -/
inductive QuestionKind where
  | rpc | taskData | nodeTypes
deriving DecidableEq

inductive ToRunner where
  | runnerRegistered
  | taskOfferAccept (offerId : String) (taskId : TaskId)
  | taskSettings (taskId : TaskId) (settings : String)
  | taskCancel (taskId : TaskId) (reason : String)
  | response (kind : QuestionKind) (taskId : TaskId) (id data : String)
deriving DecidableEq

inductive ToRequester where
  | taskReady (requestId : RequestId) (taskId : TaskId)
  | requestExpired (requestId : RequestId) (reason : String)
  | taskDone (taskId : TaskId) (data : String)
  | taskError (taskId : TaskId) (error : String)
  | question (kind : QuestionKind) (taskId : TaskId) (id : String)
deriving DecidableEq

/-- What leaves the broker: messages, and the life cycle event on which an
    internal runner is restarted. -/
inductive Sent where
  | toRunner (runnerId : RunnerId) (message : ToRunner)
  | toRequester (requesterId : RequesterId) (message : ToRequester)
  | runnerTimedOutDuringTask
deriving DecidableEq

inductive FromRunner where
  | taskAccepted (taskId : TaskId)
  | taskRejected (taskId : TaskId) (reason : String)
  | taskDeferred (taskId : TaskId)
  | taskOffer (offerId taskType : String) (validFor : Option Nat)
  | taskDone (taskId : TaskId) (data : String)
  | taskError (taskId : TaskId) (error : String)
  | question (kind : QuestionKind) (taskId : TaskId) (id : String)

inductive FromRequester where
  | taskSettings (taskId : TaskId) (settings : String)
  | taskCancel (taskId : TaskId) (reason : String)
  | taskRequest (requestId : RequestId) (taskType : String)
  | response (kind : QuestionKind) (taskId : TaskId) (id data : String)

/-! ## Suspended calls -/

/-- How the promise for the runner's answer was settled. -/
inductive RunnerReply where
  | accepted
  | rejected (reason : String)
  | deferred
  | timedOut
deriving DecidableEq

/-- How the promise for the requester's answer was settled. -/
inductive RequesterReply where
  | settings (settings : String)
  | rejected (reason : String)
  | timedOut

/-- The `await` an `acceptOffer` call is suspended at. -/
inductive Stage where
  /-- the offer is being accepted: `messageRunner`, then the promise -/
  | offering
  /-- the task is ready: `messageRequester`, then the promise -/
  | ready
  /-- `getRunnerOrFailTask` has found the runner for the settings -/
  | preparing (settings : String)
  /-- the settings are being sent -/
  | sending
  /-- `getRunnerOrFailTask` is about to throw -/
  | failing
  /-- `cancelTask` in the handler of the second `try` -/
  | cancelling
  | returned
deriving DecidableEq

/-- One call `acceptOffer(offer, request)`.  The last two fields are its
    history: whether the runner's acceptance reached the broker before the
    call returned, and whether the runner was deregistered meanwhile. -/
structure AcceptOffer where
  offer : TaskOffer
  requestId : RequestId
  requesterId : RequesterId
  runnerReply : Option RunnerReply
  requesterReply : Option RequesterReply
  stage : Stage
  acceptedByRunner : Bool
  disconnected : Bool

namespace AcceptOffer

/-- Only the first settlement of a promise counts. -/
def settleRunner (a : AcceptOffer) (reply : RunnerReply) : AcceptOffer :=
  { a with runnerReply := a.runnerReply <|> some reply }

def settleRequester (a : AcceptOffer) (reply : RequesterReply) : AcceptOffer :=
  { a with requesterReply := a.requesterReply <|> some reply }

/-- Record that the acceptance has come in while the call was running. -/
def noteAccept (a : AcceptOffer) : AcceptOffer :=
  { a with acceptedByRunner := a.acceptedByRunner || a.stage != .returned }

/-- Record that a runner has gone. -/
def noteDisconnect (runnerId : RunnerId) (a : AcceptOffer) : AcceptOffer :=
  { a with disconnected := a.disconnected || a.offer.runnerId == runnerId }

end AcceptOffer

/-- A done or error handler that awaits the requester's callback; `told`
    tells whether there was a callback to call. -/
structure Finishing where
  taskId : TaskId
  told : Bool
deriving DecidableEq

/-- A response that awaits `getRunnerOrFailTask`. -/
structure Responding where
  runnerId : RunnerId
  message : ToRunner
deriving DecidableEq

structure Broker where
  knownRunners : List RunnerId
  requesters : List RequesterId
  tasks : OrderedMap TaskId Task
  runnerAcceptRejects : List TaskId
  requesterAcceptRejects : List TaskId
  pendingTaskOffers : List TaskOffer
  pendingTaskRequests : List RequestId
  requests : RequestId → Option TaskRequest
  nextTaskId : TaskId
  acceptOffers : TaskId → Option AcceptOffer
  finishing : List Finishing
  timingOut : List TaskId
  responding : List Responding
  log : List Sent

inductive TaskRunnerMode where
  | internal | external

/-- The configuration the broker reads. -/
structure TaskRunnersConfig where
  mode : TaskRunnerMode
  taskTimeout : Nat

namespace Broker

/-- A broker nobody has connected to. -/
def start : Broker :=
  { knownRunners := [], requesters := [], tasks := .empty
    runnerAcceptRejects := [], requesterAcceptRejects := []
    pendingTaskOffers := [], pendingTaskRequests := []
    requests := fun _ => none, nextTaskId := 0
    acceptOffers := fun _ => none, finishing := [], timingOut := []
    responding := [], log := [] }

/-! ## Messages out -/

/-- `messageRunner`: nothing is sent to an unknown runner. -/
def messageRunner (b : Broker) (runnerId : RunnerId) (message : ToRunner) : Broker :=
  if runnerId ∈ b.knownRunners then
    { b with log := b.log ++ [.toRunner runnerId message] }
  else b

/-- `messageRequester`: nothing is sent to an unknown requester. -/
def messageRequester (b : Broker) (requesterId : RequesterId) (message : ToRequester) : Broker :=
  if requesterId ∈ b.requesters then
    { b with log := b.log ++ [.toRequester requesterId message] }
  else b

/-- Update one suspended `acceptOffer` call. -/
def updateAccept (b : Broker) (taskId : TaskId) (f : AcceptOffer → AcceptOffer) : Broker :=
  { b with acceptOffers :=
      Function.update b.acceptOffers taskId ((b.acceptOffers taskId).map f) }

/-- Move one suspended call to another `await`. -/
def setStage (b : Broker) (taskId : TaskId) (stage : Stage) : Broker :=
  b.updateAccept taskId fun a => { a with stage }

def updateRequest (b : Broker) (requestId : RequestId) (f : TaskRequest → TaskRequest) : Broker :=
  { b with requests :=
      Function.update b.requests requestId ((b.requests requestId).map f) }

@[simp] theorem messageRunner_tasks (b : Broker) (runnerId : RunnerId) (message : ToRunner) :
    (b.messageRunner runnerId message).tasks = b.tasks := by
  unfold messageRunner
  split <;> rfl

@[simp] theorem messageRequester_tasks (b : Broker)
    (requesterId : RequesterId) (message : ToRequester) :
    (b.messageRequester requesterId message).tasks = b.tasks := by
  unfold messageRequester
  split <;> rfl

theorem messageRunner_setStage (b : Broker) (taskId : TaskId)
    (stage : Stage) (runnerId : RunnerId) (message : ToRunner) :
    (b.setStage taskId stage).messageRunner runnerId message
      = (b.messageRunner runnerId message).setStage taskId stage := by
  by_cases hknown : runnerId ∈ b.knownRunners
  · rw [messageRunner, messageRunner, if_pos hknown]
    exact if_pos hknown
  · rw [messageRunner, messageRunner, if_neg hknown]
    exact if_neg hknown

/-! ## Settling -/

/-- `expireTasks` at the time `now`. -/
def expireTasks (b : Broker) (now : Nat) : Broker :=
  { b with pendingTaskOffers := b.pendingTaskOffers.filter fun offer =>
      match offer.validUntil with
      | some validUntil => !(validUntil < now)
      | none => true }

/-- `acceptOffer` up to its first `await`. -/
def acceptOffer (b : Broker) (offer : TaskOffer) (requestId : RequestId)
    (requesterId : RequesterId) : Broker :=
  let taskId := b.nextTaskId
  let b := { b with
    nextTaskId := taskId + 1
    runnerAcceptRejects := b.runnerAcceptRejects ++ [taskId]
    acceptOffers := Function.update b.acceptOffers taskId <| some
      { offer, requestId, requesterId, runnerReply := none
        requesterReply := none, stage := .offering
        acceptedByRunner := false, disconnected := false } }
  b.messageRunner offer.runnerId (.taskOfferAccept offer.offerId taskId)

/-- The loop body of `settleTasks`. -/
def settleRequest (b : Broker) (requestId : RequestId) : Broker :=
  match b.requests requestId with
  | none => b
  | some request =>
    if request.acceptInProgress then b
    else
      match b.pendingTaskOffers.find? (fun o => o.taskType = request.taskType) with
      | none => b
      | some offer =>
        let b := b.updateRequest requestId fun request => { request with acceptInProgress := true }
        let b := { b with
          pendingTaskOffers := b.pendingTaskOffers.eraseP
            fun o => o.taskType = request.taskType }
        b.acceptOffer offer requestId request.requesterId

def settleTasks (b : Broker) (now : Nat) : Broker :=
  let b := b.expireTasks now
  b.pendingTaskRequests.foldl settleRequest b

def taskRequested (b : Broker) (now : Nat) (requestId : RequestId)
    (request : TaskRequest) : Broker :=
  let b := { b with
    requests := Function.update b.requests requestId (some request)
    pendingTaskRequests := b.pendingTaskRequests ++ [requestId] }
  b.settleTasks now

def taskOffered (b : Broker) (now : Nat) (offer : TaskOffer) : Broker :=
  let b := { b with pendingTaskOffers := b.pendingTaskOffers ++ [offer] }
  b.settleTasks now

/-! ## Ending a task -/

def cancelTask (b : Broker) (taskId : TaskId) (reason : String) : Broker :=
  match b.tasks.get? taskId with
  | none => b
  | some task =>
    let b := { b with tasks := b.tasks.delete taskId }
    b.messageRunner task.runnerId (.taskCancel taskId reason)

def failTask (b : Broker) (taskId : TaskId) (error : String) : Broker :=
  match b.tasks.get? taskId with
  | none => b
  | some task =>
    let b := { b with tasks := b.tasks.delete taskId }
    b.messageRequester task.requesterId (.taskError taskId error)

/-- `getRunnerOrFailTask`: the runner of the task, or `none` when it throws;
    a task whose runner is gone is failed first. -/
def getRunnerOrFailTask (b : Broker) (taskId : TaskId) : Broker × Option RunnerId :=
  match b.tasks.get? taskId with
  | none => (b, none)
  | some task =>
    if task.runnerId ∈ b.knownRunners then (b, some task.runnerId)
    else
      (b.failTask taskId ("Cannot find runner, failed to find runner ("
        ++ task.runnerId ++ ")"), none)

/-- The done and error handlers up to the requester's callback; the task is
    only deleted once the callback is through. -/
def finishTask (b : Broker) (taskId : TaskId) (message : ToRequester) : Broker :=
  match b.tasks.get? taskId with
  | none => b
  | some task =>
    let told := decide (task.requesterId ∈ b.requesters)
    let b := { b with
      tasks := b.tasks.set taskId { task with timeout := false }
      finishing := b.finishing ++ [Finishing.mk taskId told] }
    b.messageRequester task.requesterId message

def taskDoneHandler (b : Broker) (taskId : TaskId) (data : String) : Broker :=
  b.finishTask taskId (.taskDone taskId data)

def taskErrorHandler (b : Broker) (taskId : TaskId) (error : String) : Broker :=
  b.finishTask taskId (.taskError taskId error)

/-- The end of a done or error handler. -/
def resumeHandler (b : Broker) (f : Finishing) : Broker :=
  { b with
    finishing := b.finishing.erase f
    tasks := b.tasks.delete f.taskId }

def executionTimeoutMessage (taskTimeout : Nat) : String :=
  "Task execution timed out after " ++ toString taskTimeout ++ " "
    ++ (if taskTimeout = 1 then "second" else "seconds")

/-- `handleTaskTimeout`; in external mode it first awaits the message that
    cancels the task at the runner. -/
def handleTaskTimeout (config : TaskRunnersConfig) (b : Broker) (taskId : TaskId) : Broker :=
  match b.tasks.get? taskId with
  | none => b
  | some task =>
    let b := { b with
      tasks := b.tasks.set taskId { task with timeout := false } }
    match config.mode with
    | .internal =>
      let b := { b with log := b.log ++ [Sent.runnerTimedOutDuringTask] }
      b.taskErrorHandler taskId (executionTimeoutMessage config.taskTimeout)
    | .external =>
      let b := { b with timingOut := b.timingOut ++ [taskId] }
      b.messageRunner task.runnerId (.taskCancel taskId "Task execution timed out")

/-- `handleTaskTimeout` after the runner has been told. -/
def resumeTaskTimeout (config : TaskRunnersConfig) (b : Broker) (taskId : TaskId) : Broker :=
  let b := { b with timingOut := b.timingOut.erase taskId }
  b.taskErrorHandler taskId (executionTimeoutMessage config.taskTimeout)

/-! ## Answers to an accepted offer -/

/-- Settle the promise for the runner's answer, if its callbacks are still
    registered. -/
def answerRunnerPromise (b : Broker) (taskId : TaskId) (f : AcceptOffer → AcceptOffer) : Broker :=
  if taskId ∈ b.runnerAcceptRejects then
    let b := { b with
      runnerAcceptRejects := b.runnerAcceptRejects.erase taskId }
    b.updateAccept taskId f
  else b

def handleRunnerAccept (b : Broker) (taskId : TaskId) : Broker :=
  b.answerRunnerPromise taskId fun a => (a.settleRunner .accepted).noteAccept

def handleRunnerReject (b : Broker) (taskId : TaskId) (reason : String) : Broker :=
  b.answerRunnerPromise taskId fun a => a.settleRunner (.rejected reason)

def handleRunnerDeferred (b : Broker) (taskId : TaskId) : Broker :=
  b.answerRunnerPromise taskId fun a => a.settleRunner .deferred

def answerRequesterPromise (b : Broker) (taskId : TaskId) (reply : RequesterReply) : Broker :=
  if taskId ∈ b.requesterAcceptRejects then
    let b := { b with
      requesterAcceptRejects := b.requesterAcceptRejects.erase taskId }
    b.updateAccept taskId fun a => a.settleRequester reply
  else b

def handleRequesterAccept (b : Broker) (taskId : TaskId) (settings : String) : Broker :=
  b.answerRequesterPromise taskId (.settings settings)

def handleRequesterReject (b : Broker) (taskId : TaskId) (reason : String) : Broker :=
  b.answerRequesterPromise taskId (.rejected reason)

/-! ## `acceptOffer` after its awaits -/

/-- The runner did not take the task, or could not be asked: the request
    stays pending and can be matched again. -/
def offerFailed (b : Broker) (taskId : TaskId) (a : AcceptOffer) : Broker :=
  (b.updateRequest a.requestId
    fun request => { request with acceptInProgress := false }).setStage taskId .returned

/-- The runner deferred the task: the request gets a new timer and is pushed
    to the pending requests. -/
def offerDeferred (b : Broker) (taskId : TaskId) (a : AcceptOffer) : Broker :=
  let b := b.updateRequest a.requestId fun request =>
    { request with acceptInProgress := false, timeout := true }
  let b := { b with
    pendingTaskRequests := b.pendingTaskRequests ++ [a.requestId] }
  b.setStage taskId .returned

/-- The runner has accepted: the task is created, and the requester is told
    if the request is still there. -/
def offerAccepted (b : Broker) (taskId : TaskId) (a : AcceptOffer) : Broker :=
  let b := b.updateRequest a.requestId fun request => { request with timeout := false }
  let task : Task :=
    { runnerId := a.offer.runnerId, requesterId := a.requesterId
      timeout := false }
  let b := { b with tasks := b.tasks.set taskId task }
  if a.requestId ∈ b.pendingTaskRequests then
    let b := { b with
      pendingTaskRequests := b.pendingTaskRequests.erase a.requestId
      requesterAcceptRejects := b.requesterAcceptRejects ++ [taskId] }
    (b.setStage taskId .ready).messageRequester a.requesterId (.taskReady a.requestId taskId)
  else b.setStage taskId .returned

/-- The handler of the second `try`. -/
def cancelAccepted (b : Broker) (taskId : TaskId) (reason : String) : Broker :=
  (b.cancelTask taskId reason).setStage taskId .cancelling

/-- `sendTaskSettings` up to its first `await`. -/
def prepareSettings (b : Broker) (taskId : TaskId) (settings : String) : Broker :=
  match b.getRunnerOrFailTask taskId with
  | (b, some _) => b.setStage taskId (.preparing settings)
  | (b, none) => b.setStage taskId .failing

/-- `sendTaskSettings` after its first `await`. -/
def sendTaskSettings (b : Broker) (taskId : TaskId) (a : AcceptOffer)
    (settings : String) : Broker :=
  match b.tasks.get? taskId with
  | none => b.setStage taskId .returned
  | some task =>
    let b := { b with
      tasks := b.tasks.set taskId { task with timeout := true } }
    (b.setStage taskId .sending).messageRunner a.offer.runnerId (.taskSettings taskId settings)

/-- Let a suspended `acceptOffer` call go on; `rejected` tells that the
    callback it awaited has failed. -/
def resumeAcceptOffer (b : Broker) (taskId : TaskId) (rejected : Bool) : Broker :=
  match b.acceptOffers taskId with
  | none => b
  | some a =>
    match a.stage with
    | .offering =>
      if rejected then b.offerFailed taskId a
      else
        match a.runnerReply with
        | none => b
        | some .accepted => b.offerAccepted taskId a
        | some (.rejected _) => b.offerFailed taskId a
        | some .deferred => b.offerDeferred taskId a
        | some .timedOut => b.offerFailed taskId a
    | .ready =>
      if rejected then b.cancelAccepted taskId "Unknown reason"
      else
        match a.requesterReply with
        | none => b
        | some (.settings settings) => b.prepareSettings taskId settings
        | some (.rejected reason) => b.cancelAccepted taskId reason
        | some .timedOut => b.cancelAccepted taskId "Unknown reason"
    | .preparing settings => b.sendTaskSettings taskId a settings
    | .sending =>
      if rejected then b.cancelAccepted taskId "Unknown reason"
      else b.setStage taskId .returned
    | .failing => b.cancelAccepted taskId "Unknown reason"
    | .cancelling => b.setStage taskId .returned
    | .returned => b

/-! ## Registration -/

def registerRunner (b : Broker) (runnerId : RunnerId) : Broker :=
  let b := { b with
    knownRunners := runnerId :: b.knownRunners.erase runnerId }
  b.messageRunner runnerId .runnerRegistered

/-- The loop body of `deregisterRunner`. -/
def dropTask (runnerId : RunnerId) (error : String) (b : Broker) (taskId : TaskId) : Broker :=
  (b.failTask taskId error).handleRunnerReject taskId
    ("The Task Runner (" ++ runnerId ++ ") has disconnected: " ++ error)

/-- `deregisterRunner` before it comes to the tasks of the runner. -/
def forgetRunner (b : Broker) (runnerId : RunnerId) : Broker :=
  { b with
    knownRunners := b.knownRunners.filter (fun r => r ≠ runnerId)
    pendingTaskOffers := b.pendingTaskOffers.filter (fun o => o.runnerId ≠ runnerId)
    acceptOffers := fun taskId =>
      (b.acceptOffers taskId).map (AcceptOffer.noteDisconnect runnerId) }

def tasksOf (b : Broker) (runnerId : RunnerId) : List TaskId :=
  (b.tasks.entries.filter (fun p => p.2.runnerId = runnerId)).map Prod.fst

def deregisterRunner (b : Broker) (runnerId : RunnerId) (error : String) : Broker :=
  (b.tasksOf runnerId).foldl (dropTask runnerId error) (b.forgetRunner runnerId)

def registerRequester (b : Broker) (requesterId : RequesterId) : Broker :=
  { b with requesters := requesterId :: b.requesters.erase requesterId }

def deregisterRequester (b : Broker) (requesterId : RequesterId) : Broker :=
  { b with requesters := b.requesters.filter (fun q => q ≠ requesterId) }

/-! ## Messages in, and timers -/

/-- The handlers of the three questions: pass it on to the requester. -/
def handleQuestion (b : Broker) (kind : QuestionKind) (taskId : TaskId) (id : String) : Broker :=
  match b.tasks.get? taskId with
  | none => b
  | some task => b.messageRequester task.requesterId (.question kind taskId id)

/-- The handlers of the three responses, up to their first `await`. -/
def handleRequesterResponse (b : Broker) (kind : QuestionKind)
    (taskId : TaskId) (id data : String) : Broker :=
  match b.getRunnerOrFailTask taskId with
  | (b, none) => b
  | (b, some runnerId) =>
    let r := Responding.mk runnerId (.response kind taskId id data)
    { b with responding := b.responding ++ [r] }

/-- The handler of a response after its first `await`. -/
def resumeResponse (b : Broker) (r : Responding) : Broker :=
  let b := { b with responding := b.responding.erase r }
  b.messageRunner r.runnerId r.message

/-- `handleRequestTimeout`, run by the timer of the request; a request that
    is not pending any more is left alone. -/
def handleRequestTimeout (b : Broker) (requestId : RequestId) : Broker :=
  match b.requests requestId with
  | none => b
  | some request =>
    let b := b.updateRequest requestId fun request => { request with timeout := false }
    if requestId ∈ b.pendingTaskRequests then
      let b := { b with
        pendingTaskRequests := b.pendingTaskRequests.erase requestId }
      b.messageRequester request.requesterId (.requestExpired requestId "timeout")
    else b

/-- `onRunnerMessage` at the time `now`. -/
def onRunnerMessage (b : Broker) (now : Nat) (runnerId : RunnerId)
    (message : FromRunner) : Broker :=
  if runnerId ∈ b.knownRunners then
    match message with
    | .taskAccepted taskId => b.handleRunnerAccept taskId
    | .taskRejected taskId reason => b.handleRunnerReject taskId reason
    | .taskDeferred taskId => b.handleRunnerDeferred taskId
    | .taskOffer offerId taskType validFor =>
      b.taskOffered now
        { offerId, runnerId, taskType
          validUntil := validFor.map fun ms => now + ms * 1000000 }
    | .taskDone taskId data => b.taskDoneHandler taskId data
    | .taskError taskId error => b.taskErrorHandler taskId error
    | .question kind taskId id => b.handleQuestion kind taskId id
  else b

/-- `onRequesterMessage` at the time `now`. -/
def onRequesterMessage (b : Broker) (now : Nat) (requesterId : RequesterId)
    (message : FromRequester) : Broker :=
  match message with
  | .taskSettings taskId settings => b.handleRequesterAccept taskId settings
  | .taskCancel taskId reason => b.cancelTask taskId reason
  | .taskRequest requestId taskType =>
    b.taskRequested now requestId
      { requesterId, taskType, acceptInProgress := false, timeout := true }
  | .response kind taskId id data => b.handleRequesterResponse kind taskId id data

end Broker

/-! ## Steps -/

inductive Event where
  | registerRunner (runnerId : RunnerId)
  | deregisterRunner (runnerId : RunnerId) (error : String)
  | registerRequester (requesterId : RequesterId)
  | deregisterRequester (requesterId : RequesterId)
  | runnerMessage (now : Nat) (runnerId : RunnerId) (message : FromRunner)
  | requesterMessage (now : Nat) (requesterId : RequesterId) (message : FromRequester)
  | requesterReject (taskId : TaskId) (reason : String)
  | requestTimeout (requestId : RequestId)
  | runnerAcceptTimeout (taskId : TaskId)
  | requesterAcceptTimeout (taskId : TaskId)
  | taskTimeout (taskId : TaskId)
  | resumeAcceptOffer (taskId : TaskId) (rejected : Bool)
  | resumeHandler (f : Finishing)
  | resumeTaskTimeout (taskId : TaskId)
  | resumeResponse (r : Responding)

/-- The effect of an event. -/
def Broker.perform (config : TaskRunnersConfig) (b : Broker) :
    Event → Broker
  | .registerRunner runnerId => b.registerRunner runnerId
  | .deregisterRunner runnerId error => b.deregisterRunner runnerId error
  | .registerRequester requesterId => b.registerRequester requesterId
  | .deregisterRequester requesterId => b.deregisterRequester requesterId
  | .runnerMessage now runnerId message => b.onRunnerMessage now runnerId message
  | .requesterMessage now requesterId message =>
    b.onRequesterMessage now requesterId message
  | .requesterReject taskId reason => b.handleRequesterReject taskId reason
  | .requestTimeout requestId => b.handleRequestTimeout requestId
  | .runnerAcceptTimeout taskId => b.updateAccept taskId fun a => a.settleRunner .timedOut
  | .requesterAcceptTimeout taskId =>
    b.updateAccept taskId fun a => a.settleRequester .timedOut
  | .taskTimeout taskId => b.handleTaskTimeout config taskId
  | .resumeAcceptOffer taskId rejected => b.resumeAcceptOffer taskId rejected
  | .resumeHandler f => b.resumeHandler f
  | .resumeTaskTimeout taskId => b.resumeTaskTimeout config taskId
  | .resumeResponse r => b.resumeResponse r

/-- When an event can happen: request ids are distinct, a requester answers
    only for a task it was told about, a timer fires while it is armed, and
    a call goes on once what it awaits is there. -/
def Broker.Possible (b : Broker) : Event → Prop
  | .requesterMessage _ _ (.taskRequest requestId _) => b.requests requestId = none
  | .requesterMessage _ requesterId (.taskSettings taskId _) =>
    ∃ requestId, .toRequester requesterId (.taskReady requestId taskId) ∈ b.log
  | .requestTimeout requestId =>
    ∃ request, b.requests requestId = some request ∧ request.timeout = true
  | .requesterAcceptTimeout taskId =>
    ∃ a, b.acceptOffers taskId = some a ∧ a.stage ≠ .offering
  | .taskTimeout taskId => ∃ task, b.tasks.get? taskId = some task ∧ task.timeout = true
  | .resumeAcceptOffer taskId rejected =>
    ∃ a, b.acceptOffers taskId = some a
      ∧ (a.stage = .offering → rejected = false → a.runnerReply ≠ none)
      ∧ (a.stage = .ready → rejected = false → a.requesterReply ≠ none)
  | .resumeHandler f => f ∈ b.finishing
  | .resumeTaskTimeout taskId => taskId ∈ b.timingOut
  | .resumeResponse r => r ∈ b.responding
  | _ => True

def Step (config : TaskRunnersConfig) (b : Broker) (e : Event) (b' : Broker) : Prop :=
  b.Possible e ∧ b' = b.perform config e

theorem Broker.mem_tasksOf {b : Broker} {runnerId : RunnerId} {t : TaskId} :
    t ∈ b.tasksOf runnerId ↔ ∃ task, b.tasks.get? t = some task ∧ task.runnerId = runnerId := by
  constructor
  · intro h
    obtain ⟨⟨t, task⟩, hp, rfl⟩ := List.mem_map.mp h
    obtain ⟨hin, hrunner⟩ := List.mem_filter.mp hp
    exact ⟨task, findKey_of_mem b.tasks.nodup hin, of_decide_eq_true hrunner⟩
  · rintro ⟨task, htask, hrunner⟩
    exact List.mem_map.mpr ⟨(t, task), List.mem_filter.mpr
      ⟨mem_of_findKey htask, decide_eq_true hrunner⟩, rfl⟩

/-! ## The beginning of a run -/

/-- Internal runners with the default limit of 300 seconds. -/
def internalRunners : TaskRunnersConfig :=
  { mode := .internal, taskTimeout := 300 }

/-- A requester and a runner connect, a task is requested, and the runner
    offers to take it. -/
def requestAndOffer : List Event :=
  [.registerRequester "requester", .registerRunner "runner",
    .requesterMessage 0 "requester" (.taskRequest "request" "javascript"),
    .runnerMessage 0 "runner" (.taskOffer "offer1" "javascript" none)]

/-- The runner takes the task, gets its settings and is done with it. -/
def doneTask : List Event :=
  requestAndOffer ++
    [.runnerMessage 0 "runner" (.taskAccepted 0), .resumeAcceptOffer 0 false,
      .requesterMessage 0 "requester" (.taskSettings 0 "{}"),
      .resumeAcceptOffer 0 false, .resumeAcceptOffer 0 false, .resumeAcceptOffer 0 false,
      .runnerMessage 0 "runner" (.taskDone 0 "result")]

theorem doneTask_isRun (rest : List Event) (h : IsRun (Step internalRunners)
      (lastState .start (pathOf (Broker.perform internalRunners) .start doneTask))
      (pathOf (Broker.perform internalRunners)
        (lastState .start (pathOf (Broker.perform internalRunners) .start doneTask)) rest)) :
    IsRun (Step internalRunners) .start
      (pathOf (Broker.perform internalRunners) .start (doneTask ++ rest)) := by
  refine ⟨⟨trivial, rfl⟩, ⟨trivial, rfl⟩, ⟨rfl, rfl⟩, ⟨trivial, rfl⟩,
    ⟨trivial, rfl⟩, ⟨⟨_, rfl, ?_, ?_⟩, rfl⟩, ⟨⟨"request", ?_⟩, rfl⟩,
    ⟨⟨_, rfl, ?_, ?_⟩, rfl⟩, ⟨⟨_, rfl, ?_, ?_⟩, rfl⟩,
    ⟨⟨_, rfl, ?_, ?_⟩, rfl⟩, ⟨trivial, rfl⟩, h⟩ <;> decide

end N8nTaskBroker
