import N8n.RunProofs
import N8n.OrderedMapProofs

/-! # The Python task runner — offers, tasks and processes

    The runner is one event loop.  The messages of the broker are handled one
    after the other; beside them run the coroutines that offer free slots and
    one coroutine for each task that has its settings.  A coroutine is only
    left at an `await`, so the state says where each of them waits, and an
    event takes one of them from there to the next `await`.

    The process of a task is started, joined and stopped in threads, which
    go on by themselves; so does the process. -/

namespace N8nPythonRunner

open N8nRun N8nOrderedMap

abbrev TaskId := String

abbrev OfferId := String

/-! ## Constants -/

/-- In milliseconds, as all times here. -/
def OFFER_VALIDITY : Nat := 5000

def OFFER_VALIDITY_MAX_JITTER : Nat := 500

def OFFER_VALIDITY_LATENCY_BUFFER : Nat := 100

def TASK_REJECTED_REASON_OFFER_EXPIRED : String :=
  "Offer expired - not accepted within validity window"

def TASK_REJECTED_REASON_AT_CAPACITY : String := "No open task slots - runner already at capacity"

def RUNNER_NAME : String := "Python Task Runner"

def TASK_TYPE_PYTHON : String := "python"

def SIGTERM_EXIT_CODE : Int := -15

def SIGKILL_EXIT_CODE : Int := -9

/-! ## Tasks and offers -/

structure TaskOffer where
  offerId : OfferId
  validUntil : Nat

def TaskOffer.hasExpired (offer : TaskOffer) (now : Nat) : Bool := offer.validUntil < now

inductive TaskStatus where
  | waitingForSettings | running | aborting

structure TaskState where
  taskId : TaskId
  status : TaskStatus

/-- What `_execute_task` may end in instead of a result.  `invalidCode` is
    what the analyzer raises, `connection` a socket that fails. -/
inductive TaskError where
  | invalidCode | subprocessFailed (exitCode : Int) | timeout | cancelled
  | killed | resultRead | resultMissing | runtime | connection
deriving DecidableEq

inductive RunnerMessage where
  | info (name : String) (types : List String)
  | taskOffer (offerId : OfferId) (taskType : String) (validFor : Nat)
  | taskAccepted (taskId : TaskId)
  | taskRejected (taskId : TaskId) (reason : String)
  | rpcCall (taskId : TaskId)
  | taskDone (taskId : TaskId)
  | taskError (taskId : TaskId) (error : TaskError)

/-- What is chosen at random for an offer. -/
structure OfferSeed where
  offerId : OfferId
  jitter : Fin (OFFER_VALIDITY_MAX_JITTER + 1)

/-! ## The process of a task -/

inductive Process where
  | notStarted
  | alive
  | exited (code : Int)
deriving DecidableEq

/-- What comes through the pipe: a result and how often `print` was called,
    an error, or anything else. -/
inductive PipeMessage where
  | result (prints : Nat)
  | error
  | other

inductive PipeReader where
  | isAlive
  | failed
  | ended (message : Option PipeMessage)

/-- `execute_process` after the process has exited in time. -/
def readResult (exitCode : Int) (reader : PipeReader) : Except TaskError Nat :=
  if exitCode = SIGTERM_EXIT_CODE then .error .cancelled
  else if exitCode = SIGKILL_EXIT_CODE then .error .killed
  else if exitCode ≠ 0 then .error (.subprocessFailed exitCode)
  else
    match reader with
    | .isAlive | .failed => .error .resultRead
    | .ended none | .ended (some .other) => .error .resultMissing
    | .ended (some .error) => .error .runtime
    | .ended (some (.result prints)) => .ok prints

/-! ## Coroutines -/

/-- A coroutine of `_send_offers_loop`: in front of the next round, waiting
    for the socket with a message and a number of offers to send after it, or
    through. -/
inductive Loop where
  | idle
  | sending (message : RunnerMessage) (remaining : Nat)
  | ended

/-- The message of the broker that is being handled: it waits for the
    socket, with a number of offers to send after that, or for a thread that
    stops the process of a task; that thread has yet to look at the process,
    or is terminating it. -/
inductive Handler where
  | sending (message : RunnerMessage) (remaining : Nat)
  | stopping (taskId : TaskId) (hasProcess : Bool)
  | terminating (taskId : TaskId)

/-- Where a coroutine of `_execute_task` waits: it has not begun, a thread
    runs `execute_process`, it waits for the socket with prints and then the
    result or with an error, or it is through. -/
inductive Phase where
  | scheduled
  | executing
  | sendingResult (prints : Nat)
  | sendingError (error : TaskError)
  | finished
deriving DecidableEq

/-- A coroutine of `_execute_task`.  Its process is the one in the state of
    the task. -/
structure Execution where
  continueOnFail : Bool
  process : Option Process
  phase : Phase

namespace Execution

/-- `execute_process` raises. -/
def raises (x : Execution) (error : TaskError) : Execution :=
  { x with
    phase := if x.continueOnFail then .sendingResult 0
      else .sendingError error }

/-- The coroutine begins: the code is analyzed, the process is created and
    `execute_process` handed to a thread. -/
def begin (valid : Bool) (x : Execution) : Option Execution :=
  if x.phase = .scheduled then
    if valid then
      some { x with process := some .notStarted, phase := .executing }
    else some { x with phase := .sendingError .invalidCode }
  else none

def startProcess (ok : Bool) (x : Execution) : Option Execution :=
  if x.phase = .executing ∧ x.process = some .notStarted then
    if ok then some { x with process := some .alive }
    else some (x.raises (.subprocessFailed (-1)))
  else none

/-- The process exits, by itself or through a signal. -/
def exitProcess (code : Int) (x : Execution) : Option Execution :=
  if x.process = some .alive then
    some { x with process := some (.exited code) }
  else none

/-- The process is not joined in time: it is stopped. -/
def timeOut (code : Int) (x : Execution) : Option Execution :=
  if x.phase = .executing ∧ x.process = some .alive then
    some ({ x with process := some (.exited code) }.raises .timeout)
  else none

def joinProcess (reader : PipeReader) (x : Execution) : Option Execution :=
  match x.phase, x.process with
  | .executing, some (.exited code) =>
    match readResult code reader with
    | .ok prints => some { x with phase := .sendingResult prints }
    | .error error => some (x.raises error)
  | _, _ => none

end Execution

structure TaskRunner where
  maxConcurrency : Nat
  now : Nat
  isConnected : Bool
  canSendOffers : Bool
  openOffers : OrderedMap OfferId TaskOffer
  runningTasks : OrderedMap TaskId TaskState
  loops : List Loop
  handler : Option Handler
  executions : OrderedMap TaskId Execution
  /-- the messages that went out -/
  sent : List RunnerMessage
  /-- the tasks that were accepted -/
  accepted : List TaskId
  /-- the tasks that were running when a cancel was handled -/
  cancelled : List TaskId

namespace TaskRunner

def start (maxConcurrency now : Nat) : TaskRunner :=
  { maxConcurrency
    now
    isConnected := false
    canSendOffers := false
    openOffers := .empty
    runningTasks := .empty
    loops := []
    handler := none
    executions := .empty
    sent := []
    accepted := []
    cancelled := [] }

/-- The connection is lost.  The coroutine that was made last is cancelled. -/
def disconnect (s : TaskRunner) : TaskRunner :=
  { s with
    isConnected := false
    canSendOffers := false
    loops := s.loops.set (s.loops.length - 1) .ended }

def send (s : TaskRunner) (message : RunnerMessage) : TaskRunner :=
  { s with sent := s.sent ++ [message] }

/-! ## Offers -/

/-- One round of the loop in `_send_offers`, up to the socket. -/
def openOffer (s : TaskRunner) (seed : OfferSeed) : TaskRunner × RunnerMessage :=
  let validFor := OFFER_VALIDITY + seed.jitter
  ({ s with
      openOffers := s.openOffers.set seed.offerId
        { offerId := seed.offerId
          validUntil := s.now + validFor + OFFER_VALIDITY_LATENCY_BUFFER } },
    .taskOffer seed.offerId TASK_TYPE_PYTHON validFor)

def dropExpired (s : TaskRunner) : TaskRunner :=
  { s with
    openOffers := s.openOffers.filter fun p => !p.2.hasExpired s.now }

/-- A range that is negative is empty. -/
def offersToSend (s : TaskRunner) : Nat :=
  s.maxConcurrency - (s.openOffers.size + s.runningTasks.size)

/-- `_send_offers` up to the first offer, with the number of offers that are
    to follow. -/
def sendOffers (s : TaskRunner) (seed : OfferSeed) : TaskRunner × Option (RunnerMessage × Nat) :=
  if s.canSendOffers = false then (s, none)
  else
    match s.dropExpired.offersToSend with
    | 0 => (s.dropExpired, none)
    | remaining + 1 =>
      let (s, message) := s.dropExpired.openOffer seed
      (s, some (message, remaining))

def setLoop (s : TaskRunner) (i : Nat) (loop : Loop) : TaskRunner :=
  { s with loops := s.loops.set i loop }

def loopRound (s : TaskRunner) (i : Nat) (seed : OfferSeed) : TaskRunner :=
  if s.canSendOffers = false then s.setLoop i .ended
  else
    match s.sendOffers seed with
    | (s, none) => s.setLoop i .idle
    | (s, some (message, remaining)) => s.setLoop i (.sending message remaining)

/-- The offer of a loop went out. -/
def loopSent (s : TaskRunner) (i : Nat) (message : RunnerMessage)
    (remaining : Nat) (seed : OfferSeed) : TaskRunner :=
  match remaining with
  | 0 => (s.send message).setLoop i .idle
  | remaining + 1 =>
    let (s, message) := (s.send message).openOffer seed
    s.setLoop i (.sending message remaining)

/-! ## Messages of the broker -/

def setHandler (s : TaskRunner) (handler : Option Handler) : TaskRunner :=
  { s with handler }

/-- The handler sends one message. -/
def respond (s : TaskRunner) (message : RunnerMessage) : TaskRunner :=
  s.setHandler (some (.sending message 0))

def handleInfoRequest (s : TaskRunner) : TaskRunner :=
  s.respond (.info RUNNER_NAME [TASK_TYPE_PYTHON])

def handleRunnerRegistered (s : TaskRunner) : TaskRunner :=
  { s with canSendOffers := true, loops := s.loops ++ [.idle] }

def acceptTask (s : TaskRunner) (taskId : TaskId) (offerId : OfferId) : TaskRunner :=
  { s with
    openOffers := s.openOffers.delete offerId
    runningTasks := s.runningTasks.set taskId
      { taskId := taskId, status := .waitingForSettings }
    accepted := s.accepted ++ [taskId] }

def handleTaskOfferAccept (s : TaskRunner) (taskId : TaskId) (offerId : OfferId) : TaskRunner :=
  if (s.openOffers.get? offerId).all (fun offer => offer.hasExpired s.now) then
    s.respond (.taskRejected taskId TASK_REJECTED_REASON_OFFER_EXPIRED)
  else if s.maxConcurrency ≤ s.runningTasks.size then
    s.respond (.taskRejected taskId TASK_REJECTED_REASON_AT_CAPACITY)
  else (s.acceptTask taskId offerId).respond (.taskAccepted taskId)

def setStatus (s : TaskRunner) (taskId : TaskId) (status : TaskStatus) : TaskRunner :=
  { s with
    runningTasks := s.runningTasks.set taskId
      { taskId := taskId, status := status } }

def setExecution (s : TaskRunner) (taskId : TaskId) (x : Execution) : TaskRunner :=
  { s with executions := s.executions.set taskId x }

def statusOf (s : TaskRunner) (taskId : TaskId) : Option TaskStatus :=
  (s.runningTasks.get? taskId).map TaskState.status

def processOf (s : TaskRunner) (taskId : TaskId) : Option Process :=
  (s.executions.get? taskId).bind Execution.process

def handleTaskSettings (s : TaskRunner) (taskId : TaskId) (continueOnFail : Bool) : TaskRunner :=
  match s.statusOf taskId with
  | some .waitingForSettings =>
    (s.setStatus taskId .running).setExecution taskId
      { continueOnFail := continueOnFail
        process := none
        phase := .scheduled }
  -- An unknown task is an error, which is logged; settings that came before
  -- are discarded.
  | _ => s

def popTask (s : TaskRunner) (taskId : TaskId) : TaskRunner :=
  { s with runningTasks := s.runningTasks.delete taskId }

def handleTaskCancel (s : TaskRunner) (taskId : TaskId) (seed : OfferSeed) : TaskRunner :=
  match s.statusOf taskId with
  | some .waitingForSettings =>
    match (s.popTask taskId).sendOffers seed with
    | (s, none) => s
    | (s, some (message, remaining)) => s.setHandler (some (.sending message remaining))
  | some .running =>
    { (s.setStatus taskId .aborting).setHandler
        (some (.stopping taskId (s.processOf taskId).isSome)) with
      cancelled := s.cancelled ++ [taskId] }
  | _ => s

/-- The message of the handler went out. -/
def handlerSent (s : TaskRunner) (message : RunnerMessage) (remaining : Nat)
    (seed : OfferSeed) : TaskRunner :=
  match remaining with
  | 0 => (s.send message).setHandler none
  | remaining + 1 =>
    let (s, message) := (s.send message).openOffer seed
    s.setHandler (some (.sending message remaining))

def lookAtProcess (s : TaskRunner) (taskId : TaskId) (hasProcess : Bool) : TaskRunner :=
  if hasProcess = true ∧ s.processOf taskId = some .alive then
    s.setHandler (some (.terminating taskId))
  else s.setHandler none

/-! ## The end of a task -/

/-- What `finally` does. -/
def finishTask (s : TaskRunner) (taskId : TaskId) (x : Execution) : TaskRunner :=
  (s.popTask taskId).setExecution taskId { x with phase := .finished }

/-- The message of a task went out. -/
def taskSent (s : TaskRunner) (taskId : TaskId) (x : Execution) : Option TaskRunner :=
  match x.phase with
  | .sendingResult 0 => some ((s.send (.taskDone taskId)).finishTask taskId x)
  | .sendingResult (prints + 1) =>
    some ((s.send (.rpcCall taskId)).setExecution taskId
      { x with phase := .sendingResult prints })
  | .sendingError error => some ((s.send (.taskError taskId error)).finishTask taskId x)
  | _ => none

/-- The message of a task did not go out. -/
def taskNotSent (s : TaskRunner) (taskId : TaskId) (x : Execution) : Option TaskRunner :=
  match x.phase with
  | .sendingResult _ =>
    some (s.setExecution taskId { x with phase := .sendingError .connection })
  | .sendingError _ => some (s.finishTask taskId x)
  | _ => none

end TaskRunner

/-! ## Runs -/

inductive BrokerMessage where
  | infoRequest
  | runnerRegistered
  | taskOfferAccept (taskId : TaskId) (offerId : OfferId)
  | taskSettings (taskId : TaskId) (continueOnFail : Bool)
  | taskCancel (taskId : TaskId) (seed : OfferSeed)

def BrokerMessage.newTask : BrokerMessage → Option TaskId
  | .taskOfferAccept taskId _ => some taskId
  | _ => none

/-- What happens to the process of a task, or in the thread that waits for
    it. -/
inductive ProcessEvent where
  | begins (valid : Bool)
  | starts (ok : Bool)
  | exits (code : Int)
  | timesOut (code : Int)
  | isJoined (reader : PipeReader)

inductive Event where
  | tick (millis : Nat)
  | connected
  | disconnected
  | received (message : BrokerMessage)
  | handlerSent (seed : OfferSeed)
  | handlerFailed
  | handlerLooks
  | handlerStopped
  | loopRound (i : Nat) (seed : OfferSeed)
  | loopSent (i : Nat) (seed : OfferSeed)
  | loopFailed (i : Nat)
  | process (taskId : TaskId) (event : ProcessEvent)
  | taskSent (taskId : TaskId)
  | taskNotSent (taskId : TaskId)

def Execution.onEvent (x : Execution) : ProcessEvent → Option Execution
  | .begins valid => x.begin valid
  | .starts ok => x.startProcess ok
  | .exits code => x.exitProcess code
  | .timesOut code => x.timeOut code
  | .isJoined reader => x.joinProcess reader

namespace TaskRunner

def handleMessage (s : TaskRunner) : BrokerMessage → TaskRunner
  | .infoRequest => s.handleInfoRequest
  | .runnerRegistered => s.handleRunnerRegistered
  | .taskOfferAccept taskId offerId => s.handleTaskOfferAccept taskId offerId
  | .taskSettings taskId continueOnFail => s.handleTaskSettings taskId continueOnFail
  | .taskCancel taskId seed => s.handleTaskCancel taskId seed

/-- The broker makes up a new id for every task. -/
def IsNew (s : TaskRunner) (message : BrokerMessage) : Prop :=
  ∀ taskId ∈ message.newTask, taskId ∉ s.accepted

instance (s : TaskRunner) (message : BrokerMessage) :
    Decidable (s.IsNew message) :=
  inferInstanceAs (Decidable (∀ taskId ∈ message.newTask, taskId ∉ s.accepted))

/-- The effect of an event, where it can happen.  Messages of the broker are
    handled one at a time, and nothing goes out without a connection. -/
def next (s : TaskRunner) : Event → Option TaskRunner
  | .tick millis => some { s with now := s.now + millis }
  | .connected => if s.isConnected then none else some { s with isConnected := true }
  | .disconnected =>
    if s.isConnected = true ∧ s.handler = none then some s.disconnect
    else none
  | .received message =>
    if s.isConnected = true ∧ s.handler = none ∧ s.IsNew message then
      some (s.handleMessage message)
    else none
  | .handlerSent seed =>
    match s.isConnected, s.handler with
    | true, some (.sending message remaining) =>
      some (s.handlerSent message remaining seed)
    | _, _ => none
  | .handlerFailed =>
    match s.handler with
    | some (.sending _ _) => some (s.setHandler none)
    | _ => none
  | .handlerLooks =>
    match s.handler with
    | some (.stopping taskId hasProcess) => some (s.lookAtProcess taskId hasProcess)
    | _ => none
  | .handlerStopped =>
    match s.handler with
    | some (.terminating taskId) =>
      if s.processOf taskId = some .alive then none
      else some (s.setHandler none)
    | _ => none
  | .loopRound i seed =>
    match s.loops[i]? with
    | some .idle => some (s.loopRound i seed)
    | _ => none
  | .loopSent i seed =>
    match s.isConnected, s.loops[i]? with
    | true, some (.sending message remaining) =>
      some (s.loopSent i message remaining seed)
    | _, _ => none
  | .loopFailed i =>
    match s.loops[i]? with
    | some (.sending _ _) => some (s.setLoop i .idle)
    | _ => none
  | .process taskId event =>
    (s.executions.get? taskId).bind fun x =>
      (x.onEvent event).map (s.setExecution taskId)
  | .taskSent taskId =>
    if s.isConnected then
      (s.executions.get? taskId).bind (s.taskSent taskId)
    else none
  | .taskNotSent taskId => (s.executions.get? taskId).bind (s.taskNotSent taskId)

end TaskRunner

def Step (s : TaskRunner) (e : Event) (t : TaskRunner) : Prop := s.next e = some t

/-- The state after an event. -/
def after (s : TaskRunner) (e : Event) : TaskRunner := (s.next e).getD s

/-- An offer without jitter. -/
def offer (offerId : OfferId) : OfferSeed := { offerId, jitter := 0 }

end N8nPythonRunner
