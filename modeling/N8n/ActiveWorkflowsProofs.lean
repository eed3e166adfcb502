import N8n.OrderedMapProofs

/-! # Activating a workflow

    `add` starts the trigger nodes one after the other, marks the workflow as
    active, and then tries the polling nodes and registers their crons.  Any
    of these steps can throw, and nothing is taken back then but the entry of
    a workflow without trigger responses.

    What the nodes do is given with them: the crons a trigger registers and
    what it returns, the poll times of a polling node and whether its first
    poll fails.  Trigger responses are numbered in the order in which they
    are returned, `closed` lists the close functions that were called. -/

namespace N8nActiveWorkflows

open N8nOrderedMap List OrderedMap

abbrev WorkflowId := String

/-! ## Crons -/

inductive IntervalUnit where
  | hours | days | weeks | months
deriving DecidableEq

inductive CronRecurrenceRule where
  | inactive
  | active (index intervalSize : Nat) (typeInterval : IntervalUnit)
deriving DecidableEq

structure Cron where
  expression : String
  recurrence : Option CronRecurrenceRule

structure CronContext where
  workflowId : WorkflowId
  timezone : String
  nodeId : String
  expression : String
  recurrence : Option CronRecurrenceRule
deriving DecidableEq

/-- The key is the JSON text of the context, which tells contexts apart. -/
abbrev CronKey := CronContext

structure ScheduledCron where
  summary : String
  ctx : CronContext

def IntervalUnit.name : IntervalUnit → String
  | .hours => "hours"
  | .days => "days"
  | .weeks => "weeks"
  | .months => "months"

def CronContext.summary (ctx : CronContext) : String :=
  match ctx.recurrence with
  | some (.active _ intervalSize typeInterval) =>
    ctx.expression ++ " (every " ++ toString intervalSize ++ " " ++ typeInterval.name ++ ")"
  | _ => ctx.expression

/-! ## Poll times -/

inductive TriggerTime where
  | everyMinute
  | everyHour (minute : Nat)
  | everyXMinutes (value : Nat)
  | everyXHours (value : Nat)
  | everyDay (hour minute : Nat)
  | everyWeek (hour minute weekday : Nat)
  | everyMonth (hour minute dayOfMonth : Nat)
  | custom (cronExpression : String)

/-- White space and line ends, as `trim` sees them. -/
def isSpace (c : Char) : Bool :=
  c.toNat ∈ [0x9, 0xA, 0xB, 0xC, 0xD, 0x20, 0xA0, 0x1680, 0x2028, 0x2029,
    0x202F, 0x205F, 0x3000, 0xFEFF] || (0x2000 ≤ c.toNat && c.toNat ≤ 0x200A)

def trim (s : String) : String :=
  String.ofList ((s.toList.dropWhile isSpace).reverse.dropWhile isSpace).reverse

/-- The first number drawn is the second, the other is drawn for the minute
    of an hourly interval. -/
def toCronExpression (random : Nat × Nat) : TriggerTime → String
  | .everyMinute => toString random.1 ++ " * * * * *"
  | .everyHour minute => toString random.1 ++ " " ++ toString minute ++ " * * * *"
  | .everyXMinutes value => toString random.1 ++ " */" ++ toString value ++ " * * * *"
  | .everyXHours value =>
    toString random.1 ++ " " ++ toString random.2 ++ " */" ++ toString value ++ " * * *"
  | .everyDay hour minute =>
    toString random.1 ++ " " ++ toString minute ++ " " ++ toString hour ++ " * * *"
  | .everyWeek hour minute weekday =>
    toString random.1 ++ " " ++ toString minute ++ " " ++ toString hour
      ++ " * * " ++ toString weekday
  | .everyMonth hour minute dayOfMonth =>
    toString random.1 ++ " " ++ toString minute ++ " " ++ toString hour
      ++ " " ++ toString dayOfMonth ++ " * *"
  | .custom cronExpression => trim cronExpression

/-- `expression.split(' ').at(0)?.includes('*')`. -/
def isTooShort (expression : String) : Bool := (expression.toList.takeWhile (· ≠ ' ')).contains '*'

/-! ## Workflows -/

structure INode where
  id : String
  name : String

/-- What a close function does when it is called. -/
inductive CloseResult where
  | closes
  | triggerCloseError
  | error (message : String)

structure ITriggerResponse where
  closeFunction : Option CloseResult

/-- A trigger node: the crons it registers while it is started, and what
    `runTrigger` returns or throws. -/
structure TriggerNode where
  node : INode
  crons : List Cron
  run : Except String (Option ITriggerResponse)

/-- A polling node: its poll times, the numbers drawn for them, and whether
    the first poll fails.  What a poll returns is emitted and changes nothing
    here. -/
structure PollNode where
  node : INode
  pollTimes : Except String (List TriggerTime)
  random : Nat → Nat × Nat
  poll : Except String Unit

structure Workflow where
  id : WorkflowId
  timezone : String
  triggerNodes : List TriggerNode
  pollNodes : List PollNode

structure WorkflowActivationError where
  message : String
  node : INode

structure WorkflowDeactivationError where
  message : String
  workflowId : WorkflowId

structure ActiveWorkflows where
  /-- the trigger responses of each active workflow -/
  activeWorkflows : OrderedMap WorkflowId (List Nat)
  cronsByWorkflow : OrderedMap WorkflowId (OrderedMap CronKey ScheduledCron)
  responses : List ITriggerResponse
  closed : List Nat

namespace ActiveWorkflows

def isActive (s : ActiveWorkflows) (workflowId : WorkflowId) : Bool :=
  s.activeWorkflows.has workflowId

/-- Whether a cron is scheduled under the key of the context. -/
def hasCron (s : ActiveWorkflows) (ctx : CronContext) : Bool :=
  (s.cronsByWorkflow.get? ctx.workflowId).any fun crons => crons.has ctx

end ActiveWorkflows

/-! ## Scheduled tasks -/

section

-- `new CronJob(expression, …, timezone)`: the message of what it throws, if
-- it does not take the expression.
variable (cronJob : String → String → Option String)

/-- A cron that is registered already is reported and skipped. -/
def registerCron (s : ActiveWorkflows) (ctx : CronContext) : ActiveWorkflows × Option String :=
  if s.hasCron ctx then (s, none)
  else
    match cronJob ctx.expression ctx.timezone with
    | some message => (s, some message)
    | none =>
      let workflowCrons := (s.cronsByWorkflow.get? ctx.workflowId).getD .empty
      let cron : ScheduledCron := { summary := ctx.summary, ctx }
      ({ s with
          cronsByWorkflow := s.cronsByWorkflow.set ctx.workflowId
            (workflowCrons.set ctx cron) },
        none)

def deregisterCrons (s : ActiveWorkflows) (workflowId : WorkflowId) : ActiveWorkflows :=
  match s.cronsByWorkflow.get? workflowId with
  | none => s
  | some workflowCrons =>
    if workflowCrons.size = 0 then s
    else { s with cronsByWorkflow := s.cronsByWorkflow.delete workflowId }

/-! ## Activation -/

def WorkflowActivationError.ofCause (message : String) (node : INode) : WorkflowActivationError :=
  { message := "There was a problem activating the workflow: \"" ++ message ++ "\""
    node }

/-- The crons a trigger registers.  Where that throws, what becomes of it is
    part of what `runTrigger` returns. -/
def registerCrons (workflow : Workflow) (node : INode)
    (s : ActiveWorkflows) (crons : List Cron) : ActiveWorkflows :=
  crons.foldl (fun s cron => (registerCron cronJob s
    { workflowId := workflow.id, timezone := workflow.timezone
      nodeId := node.id, expression := cron.expression
      recurrence := cron.recurrence }).1) s

def runTrigger (workflow : Workflow) (s : ActiveWorkflows) (triggerNode : TriggerNode) :
    ActiveWorkflows × Except String (Option Nat) :=
  let s := registerCrons cronJob workflow triggerNode.node s triggerNode.crons
  match triggerNode.run with
  | .error message => (s, .error message)
  | .ok none => (s, .ok none)
  | .ok (some response) =>
    ({ s with responses := s.responses ++ [response] }, .ok (some s.responses.length))

/-- The loop over the trigger nodes, with the responses so far. -/
def startTriggers (workflow : Workflow) :
    List TriggerNode → ActiveWorkflows → List Nat →
      ActiveWorkflows × List Nat × Option WorkflowActivationError
  | [], s, triggerResponses => (s, triggerResponses, none)
  | triggerNode :: rest, s, triggerResponses =>
    match runTrigger cronJob workflow s triggerNode with
    | (s, .error message) =>
      (s, triggerResponses, some (.ofCause message triggerNode.node))
    | (s, .ok triggerResponse) =>
      startTriggers workflow rest s (triggerResponses ++ triggerResponse.toList)

/-- The loop over the cron expressions of a polling node. -/
def registerExpressions (workflow : Workflow) (node : INode) :
    List String → ActiveWorkflows → ActiveWorkflows × Option String
  | [], s => (s, none)
  | expression :: rest, s =>
    if isTooShort expression then
      (s, some ("The polling interval is too short. It has to be at least" ++ " a minute."))
    else
      match registerCron cronJob s
          { workflowId := workflow.id, timezone := workflow.timezone
            nodeId := node.id, expression, recurrence := none } with
      | (s, some message) => (s, some message)
      | (s, none) => registerExpressions workflow node rest s

/-- The poll is run once, to see that it works, and then scheduled. -/
def activatePolling (workflow : Workflow) (s : ActiveWorkflows)
    (pollNode : PollNode) : ActiveWorkflows × Option String :=
  match pollNode.pollTimes with
  | .error message => (s, some message)
  | .ok items =>
    let cronExpressions := items.mapIdx fun i item =>
      toCronExpression (pollNode.random i) item
    match pollNode.poll with
    | .error message => (s, some message)
    | .ok _ => registerExpressions cronJob workflow pollNode.node cronExpressions s

/-- The loop over the polling nodes. -/
def startPolling (workflowId : WorkflowId) (workflow : Workflow) (triggerResponses : List Nat) :
    List PollNode → ActiveWorkflows → ActiveWorkflows × Option WorkflowActivationError
  | [], s => (s, none)
  | pollNode :: rest, s =>
    match activatePolling cronJob workflow s pollNode with
    | (s, some message) =>
      -- A workflow without trigger responses is not marked as active.
      let s := if triggerResponses.length = 0 then
          { s with activeWorkflows := s.activeWorkflows.delete workflowId }
        else s
      (s, some (.ofCause message pollNode.node))
    | (s, none) => startPolling workflowId workflow triggerResponses rest s

def add (s : ActiveWorkflows) (workflowId : WorkflowId) (workflow : Workflow) :
    ActiveWorkflows × Option WorkflowActivationError :=
  match startTriggers cronJob workflow workflow.triggerNodes s [] with
  | (s, _, some error) => (s, some error)
  | (s, triggerResponses, none) =>
    startPolling cronJob workflowId workflow triggerResponses workflow.pollNodes
      { s with activeWorkflows :=
          s.activeWorkflows.set workflowId triggerResponses }

end

/-! ## Deactivation -/

/-- A `TriggerCloseError` is reported, any other error is thrown. -/
def closeTrigger (s : ActiveWorkflows) (workflowId : WorkflowId)
    (response : Nat) : ActiveWorkflows × Option WorkflowDeactivationError :=
  match (s.responses[response]?).bind ITriggerResponse.closeFunction with
  | none => (s, none)
  | some result =>
    let s : ActiveWorkflows := { s with closed := s.closed ++ [response] }
    match result with
    | .closes | .triggerCloseError => (s, none)
    | .error message =>
      (s, some
        { message := "Failed to deactivate trigger of workflow ID \""
            ++ workflowId ++ "\": \"" ++ message ++ "\""
          workflowId })

def closeTriggers (workflowId : WorkflowId) :
    List Nat → ActiveWorkflows → ActiveWorkflows × Option WorkflowDeactivationError
  | [], s => (s, none)
  | response :: rest, s =>
    match closeTrigger s workflowId response with
    | (s, some error) => (s, some error)
    | (s, none) => closeTriggers workflowId rest s

/-- Whether the workflow was active, unless a close function throws. -/
def remove (s : ActiveWorkflows) (workflowId : WorkflowId) :
    ActiveWorkflows × Except WorkflowDeactivationError Bool :=
  match s.activeWorkflows.get? workflowId with
  | none => (s, .ok false)
  | some triggerResponses =>
    match closeTriggers workflowId triggerResponses (deregisterCrons s workflowId) with
    | (s, some error) => (s, .error error)
    | (s, none) =>
      ({ s with activeWorkflows := s.activeWorkflows.delete workflowId }, .ok true)

/-! ## What is left of a call -/

/-- Nothing that came about between the two states is left in the second. -/
structure NothingLeft (s s' : ActiveWorkflows) : Prop where
  entry : ∀ workflowId triggerResponses,
    s'.activeWorkflows.get? workflowId = some triggerResponses →
      s.activeWorkflows.get? workflowId = some triggerResponses
  responses : ∀ ref response, s.responses.length ≤ ref →
    s'.responses[ref]? = some response → response.closeFunction ≠ none → ref ∈ s'.closed
  crons : ∀ ctx, s'.hasCron ctx = true → s.hasCron ctx = true

theorem NothingLeft.refl (s : ActiveWorkflows) : NothingLeft s s := by
  refine ⟨fun _ _ h => h, ?_, fun _ h => h⟩
  intro ref response hle hget
  rw [getElem?_eq_none hle] at hget
  cases hget

/-- Activation that leaves nothing behind where it throws. -/
def AllOrNothing (cronJob : String → String → Option String) (s : ActiveWorkflows)
    (workflowId : WorkflowId) (workflow : Workflow) :
    Prop :=
  (add cronJob s workflowId workflow).2 ≠ none → NothingLeft s (add cronJob s workflowId workflow).1

/-- Some trigger node cannot be started. -/
def TriggerFails (workflow : Workflow) : Prop :=
  ∃ triggerNode ∈ workflow.triggerNodes, ∃ message, triggerNode.run = .error message

/-- The responses of the trigger nodes. -/
def responsesOf (triggerNodes : List TriggerNode) : List ITriggerResponse :=
  triggerNodes.filterMap fun triggerNode => triggerNode.run.toOption.join

/-- The places of the responses of a call. -/
def placesOf (s : ActiveWorkflows) (workflow : Workflow) : List Nat :=
  List.range' s.responses.length (responsesOf workflow.triggerNodes).length

/-! ## Only crons are registered -/

/-- Crons of the workflow may be added. -/
structure Registers (workflowId : WorkflowId) (s s' : ActiveWorkflows) :
    Prop where
  active : s'.activeWorkflows = s.activeWorkflows
  responses : s'.responses = s.responses
  closed : s'.closed = s.closed
  crons : ∀ ctx, s'.hasCron ctx = true → s.hasCron ctx = true ∨ ctx.workflowId = workflowId

section

variable {cronJob : String → String → Option String} {workflow : Workflow}
  {workflowId : WorkflowId} {s s' s'' : ActiveWorkflows}

theorem Registers.refl (s : ActiveWorkflows) : Registers workflowId s s :=
  ⟨rfl, rfl, rfl, fun _ h => .inl h⟩

theorem Registers.trans (h : Registers workflowId s s')
    (h' : Registers workflowId s' s'') : Registers workflowId s s'' := by
  refine ⟨h'.active.trans h.active, h'.responses.trans h.responses,
    h'.closed.trans h.closed, fun ctx hctx => ?_⟩
  rcases h'.crons ctx hctx with hold | hown
  · exact h.crons ctx hold
  · exact .inr hown

variable (cronJob) in
theorem registerCron_registers (s : ActiveWorkflows) (ctx : CronContext) :
    Registers ctx.workflowId s (registerCron cronJob s ctx).1 := by
  rw [registerCron]
  split
  · exact Registers.refl s
  · rcases cronJob ctx.expression ctx.timezone with _ | message
    · refine ⟨rfl, rfl, rfl, fun other hother => ?_⟩
      rw [ActiveWorkflows.hasCron, get?_set] at hother
      split at hother
      · next heq => exact .inr heq.symm
      · exact .inl hother
    · exact Registers.refl s

variable (cronJob) (workflow) in
theorem registerCrons_registers (node : INode) (crons : List Cron) (s : ActiveWorkflows) :
    Registers workflow.id s (registerCrons cronJob workflow node s crons) := by
  induction crons generalizing s with
  | nil => exact Registers.refl s
  | cons cron rest ih =>
    exact (registerCron_registers cronJob s
      { workflowId := workflow.id, timezone := workflow.timezone
        nodeId := node.id, expression := cron.expression
        recurrence := cron.recurrence }).trans (ih _)

theorem registerExpressions_registers (node : INode) (expressions : List String)
    (s : ActiveWorkflows) :
    Registers workflow.id s (registerExpressions cronJob workflow node expressions s).1 := by
  induction expressions generalizing s with
  | nil => exact Registers.refl s
  | cons expression rest ih =>
    rw [registerExpressions]
    split
    · exact Registers.refl s
    · have hone := registerCron_registers cronJob s
        { workflowId := workflow.id, timezone := workflow.timezone
          nodeId := node.id, expression, recurrence := none }
      split
      · next heq =>
          rw [heq] at hone
          exact hone
      · next heq =>
          rw [heq] at hone
          exact hone.trans (ih _)

variable (cronJob) (workflow) in
theorem activatePolling_registers (s : ActiveWorkflows) (pollNode : PollNode) :
    Registers workflow.id s (activatePolling cronJob workflow s pollNode).1 := by
  rw [activatePolling]
  rcases pollNode.pollTimes with message | items
  · exact Registers.refl s
  · rcases pollNode.poll with message | _
    · exact Registers.refl s
    · exact registerExpressions_registers pollNode.node _ s

/-! ## The loops -/

/-- Starting trigger nodes returns responses and registers crons. -/
structure Starts (workflowId : WorkflowId) (s s' : ActiveWorkflows) :
    Prop where
  active : s'.activeWorkflows = s.activeWorkflows
  closed : s'.closed = s.closed
  crons : ∀ ctx, s'.hasCron ctx = true → s.hasCron ctx = true ∨ ctx.workflowId = workflowId

theorem Registers.starts (h : Registers workflowId s s') : Starts workflowId s s' :=
  ⟨h.active, h.closed, h.crons⟩

theorem Starts.trans (h : Starts workflowId s s')
    (h' : Starts workflowId s' s'') : Starts workflowId s s'' := by
  refine ⟨h'.active.trans h.active, h'.closed.trans h.closed, fun ctx hctx => ?_⟩
  rcases h'.crons ctx hctx with hold | hown
  · exact h.crons ctx hold
  · exact .inr hown

variable (cronJob) (workflow) in
theorem runTrigger_starts (s : ActiveWorkflows) (triggerNode : TriggerNode) :
    Starts workflow.id s (runTrigger cronJob workflow s triggerNode).1 := by
  have hcrons := (registerCrons_registers cronJob workflow triggerNode.node
    triggerNode.crons s).starts
  rw [runTrigger]
  rcases triggerNode.run with message | (_ | response)
  · exact hcrons
  · exact hcrons
  · exact ⟨hcrons.active, hcrons.closed, hcrons.crons⟩

variable (cronJob) (workflow) in
theorem startTriggers_starts (triggerNodes : List TriggerNode) (s : ActiveWorkflows)
    (refs : List Nat) :
    Starts workflow.id s (startTriggers cronJob workflow triggerNodes s refs).1 := by
  induction triggerNodes generalizing s refs with
  | nil => exact (Registers.refl s).starts
  | cons triggerNode rest ih =>
    have hone := runTrigger_starts cronJob workflow s triggerNode
    rw [startTriggers]
    split
    · next heq =>
        rw [heq] at hone
        exact hone
    · next heq =>
        rw [heq] at hone
        exact hone.trans (ih _ _)

variable (cronJob) (workflow) in
theorem runTrigger_result (s : ActiveWorkflows) (triggerNode : TriggerNode) :
    (∀ message, triggerNode.run = .error message →
      (runTrigger cronJob workflow s triggerNode).2 = .error message)
    ∧ ∀ response, triggerNode.run = .ok response →
      (runTrigger cronJob workflow s triggerNode).1.responses
          = s.responses ++ response.toList
        ∧ (runTrigger cronJob workflow s triggerNode).2
          = .ok (response.map fun _ => s.responses.length) := by
  have hcrons := (registerCrons_registers cronJob workflow triggerNode.node
    triggerNode.crons s).responses
  constructor
  · intro message hrun
    rw [runTrigger, hrun]
  · intro response hrun
    rw [runTrigger, hrun]
    rcases response with _ | response
    · exact ⟨hcrons.trans (append_nil _).symm, rfl⟩
    · rw [hcrons]
      exact ⟨rfl, rfl⟩

variable (cronJob) (workflow) in
theorem startTriggers_fails {triggerNodes : List TriggerNode}
    (hfails : ∃ triggerNode ∈ triggerNodes, ∃ message, triggerNode.run = .error message)
    (s : ActiveWorkflows) (refs : List Nat) :
    (startTriggers cronJob workflow triggerNodes s refs).2.2 ≠ none := by
  induction triggerNodes generalizing s refs with
  | nil =>
    obtain ⟨triggerNode, hmem, -⟩ := hfails
    cases hmem
  | cons triggerNode rest ih =>
    obtain ⟨herror, hok⟩ := runTrigger_result cronJob workflow s triggerNode
    rw [startTriggers]
    rcases hresult : runTrigger cronJob workflow s triggerNode
      with ⟨s', message | response⟩ <;> dsimp only
    · simp
    · refine ih ?_ s' _
      obtain ⟨node, hmem, message, hrun⟩ := hfails
      rcases mem_cons.mp hmem with rfl | hmem
      · have hthrows := herror message hrun
        rw [hresult] at hthrows
        cases hthrows
      · exact ⟨node, hmem, message, hrun⟩

variable (cronJob) (workflow) in
theorem startTriggers_collects {triggerNodes : List TriggerNode}
    (hnone : ∀ triggerNode ∈ triggerNodes, ∀ message, triggerNode.run ≠ .error message)
    (s : ActiveWorkflows) (refs : List Nat) :
    let r := startTriggers cronJob workflow triggerNodes s refs
    r.2.2 = none ∧ r.1.responses = s.responses ++ responsesOf triggerNodes
      ∧ r.2.1 = refs ++ List.range' s.responses.length (responsesOf triggerNodes).length := by
  induction triggerNodes generalizing s refs with
  | nil => simp [startTriggers, responsesOf]
  | cons triggerNode rest ih =>
    obtain ⟨-, hok⟩ := runTrigger_result cronJob workflow s triggerNode
    rw [startTriggers]
    rcases hrun : triggerNode.run with message | response
    · exact absurd hrun (hnone triggerNode (mem_cons_self ..) message)
    · obtain ⟨hresponses, hreturns⟩ := hok response hrun
      rcases hresult : runTrigger cronJob workflow s triggerNode with ⟨s', result⟩
      rw [hresult] at hresponses hreturns
      subst hreturns
      obtain ⟨hthrows, hall, hplaces⟩ := ih
        (fun node hmem => hnone node (mem_cons_of_mem _ hmem)) s'
        (refs ++ (response.map fun _ => s.responses.length).toList)
      refine ⟨hthrows, ?_, ?_⟩
      · rw [hall, hresponses]
        rcases response with _ | response <;>
          simp [responsesOf, hrun, Except.toOption]
      · rw [hplaces, hresponses]
        rcases response with _ | response <;>
          simp [responsesOf, hrun, Except.toOption, range'_succ]

variable (cronJob) (workflow) (workflowId) in
theorem startPolling_result (pollNodes : List PollNode) (s : ActiveWorkflows) (refs : List Nat) :
    let r := startPolling cronJob workflowId workflow refs pollNodes s
    r.1.responses = s.responses ∧ r.1.closed = s.closed
      ∧ (∀ ctx, r.1.hasCron ctx = true → s.hasCron ctx = true ∨ ctx.workflowId = workflow.id)
      ∧ r.1.activeWorkflows = if r.2.isSome ∧ refs.length = 0
          then s.activeWorkflows.delete workflowId else s.activeWorkflows := by
  induction pollNodes generalizing s with
  | nil => exact ⟨rfl, rfl, fun _ h => .inl h, rfl⟩
  | cons pollNode rest ih =>
    have hone := activatePolling_registers cronJob workflow s pollNode
    rw [startPolling]
    rcases hresult : activatePolling cronJob workflow s pollNode
      with ⟨s', _ | message⟩ <;> rw [hresult] at hone <;> dsimp only at hone ⊢
    · obtain ⟨hresponses, hclosed, hcrons, hactive⟩ := ih s'
      refine ⟨hresponses.trans hone.responses, hclosed.trans hone.closed, fun ctx hctx => ?_, ?_⟩
      · rcases hcrons ctx hctx with hold | hown
        · exact hone.crons ctx hold
        · exact .inr hown
      · rw [hactive, hone.active]
    · by_cases hrefs : refs.length = 0
      · rw [if_pos hrefs, if_pos ⟨rfl, hrefs⟩]
        refine ⟨hone.responses, hone.closed, hone.crons, ?_⟩
        rw [hone.active]
      · rw [if_neg hrefs, if_neg fun h => hrefs h.2]
        exact ⟨hone.responses, hone.closed, hone.crons, hone.active⟩

/-! ## Failing before anything was created -/

/-- The trigger node is started, and there is nothing to show for it. -/
def TriggerNode.Quiet (triggerNode : TriggerNode) : Prop :=
  triggerNode.crons = [] ∧ triggerNode.run = .ok none

def PollNode.Quiet (pollNode : PollNode) : Prop :=
  pollNode.pollTimes = .ok [] ∧ pollNode.poll = .ok ()

/-- The cron of the expression cannot be registered. -/
def Refused (cronJob : String → String → Option String) (s : ActiveWorkflows)
    (workflow : Workflow) (node : INode) (expression : String) : Prop :=
  isTooShort expression = true
    ∨ (cronJob expression workflow.timezone ≠ none
      ∧ s.hasCron
        { workflowId := workflow.id, timezone := workflow.timezone
          nodeId := node.id, expression, recurrence := none } = false)

/-- The polling node cannot be read or polled, or its first cron cannot be
    registered. -/
inductive FailsAtOnce (cronJob : String → String → Option String)
    (s : ActiveWorkflows) (workflow : Workflow) (pollNode : PollNode) :
    Prop where
  | pollTimes (message : String) (h : pollNode.pollTimes = .error message)
  | poll (message : String) (h : pollNode.poll = .error message)
  | cron (item : TriggerTime) (rest : List TriggerTime)
      (h : pollNode.pollTimes = .ok (item :: rest))
      (hrefused : Refused cronJob s workflow pollNode.node
        (toCronExpression (pollNode.random 0) item))

/-- The first node that fails does so before anything was created. -/
inductive FailsFirst (cronJob : String → String → Option String)
    (s : ActiveWorkflows) (workflow : Workflow) : Prop where
  | trigger (before after : List TriggerNode) (triggerNode : TriggerNode)
      (message : String) (h : workflow.triggerNodes = before ++ triggerNode :: after)
      (hquiet : ∀ node ∈ before, node.Quiet) (hcrons : triggerNode.crons = [])
      (hfails : triggerNode.run = .error message)
  | poll (before after : List PollNode) (pollNode : PollNode)
      (htriggers : ∀ node ∈ workflow.triggerNodes, node.Quiet)
      (h : workflow.pollNodes = before ++ pollNode :: after)
      (hquiet : ∀ node ∈ before, node.Quiet) (hfails : FailsAtOnce cronJob s workflow pollNode)

variable (cronJob) (workflow) in
theorem startTriggers_quiet {before : List TriggerNode} (hquiet : ∀ node ∈ before, node.Quiet)
    (rest : List TriggerNode) (s : ActiveWorkflows) (refs : List Nat) :
    startTriggers cronJob workflow (before ++ rest) s refs
      = startTriggers cronJob workflow rest s refs := by
  induction before with
  | nil => rfl
  | cons triggerNode before ih =>
    obtain ⟨hcrons, hrun⟩ := hquiet triggerNode (mem_cons_self ..)
    have hone : runTrigger cronJob workflow s triggerNode = (s, .ok none) := by
      rw [runTrigger, hrun, hcrons]
      rfl
    rw [cons_append, startTriggers, hone]
    simp only [Option.toList, append_nil]
    exact ih fun node hmem => hquiet node (mem_cons_of_mem _ hmem)

theorem startPolling_quiet {before : List PollNode} (hquiet : ∀ node ∈ before, node.Quiet)
    (rest : List PollNode) (s : ActiveWorkflows) (refs : List Nat) :
    startPolling cronJob workflowId workflow refs (before ++ rest) s
      = startPolling cronJob workflowId workflow refs rest s := by
  induction before with
  | nil => rfl
  | cons pollNode before ih =>
    obtain ⟨htimes, hpoll⟩ := hquiet pollNode (mem_cons_self ..)
    have hone : activatePolling cronJob workflow s pollNode = (s, none) := by
      rw [activatePolling, htimes, hpoll]
      rfl
    rw [cons_append, startPolling, hone]
    exact ih fun node hmem => hquiet node (mem_cons_of_mem _ hmem)

theorem activatePolling_failsAtOnce {pollNode : PollNode}
    (h : FailsAtOnce cronJob s workflow pollNode) :
    ∃ message, activatePolling cronJob workflow s pollNode = (s, some message) := by
  rw [activatePolling]
  cases h with
  | pollTimes message h =>
    rw [h]
    exact ⟨message, rfl⟩
  | poll message h =>
    rcases pollNode.pollTimes with other | items
    · exact ⟨other, rfl⟩
    · rw [h]
      exact ⟨message, rfl⟩
  | cron item rest h hrefused =>
    rw [h]
    rcases pollNode.poll with message | _
    · exact ⟨message, rfl⟩
    · dsimp only
      rw [mapIdx_cons, registerExpressions]
      rcases hrefused with hshort | ⟨hrefused, hnew⟩
      · rw [if_pos hshort]
        exact ⟨_, rfl⟩
      · split
        · exact ⟨_, rfl⟩
        · obtain ⟨message, hmessage⟩ :=
            Option.ne_none_iff_exists'.mp hrefused
          rw [registerCron, hnew]
          simp only [hmessage]
          exact ⟨message, rfl⟩

variable (cronJob) (workflow) in
theorem nothingLeft_of_failsFirst (workflowId : WorkflowId) (h : FailsFirst cronJob s workflow) :
    NothingLeft s (add cronJob s workflowId workflow).1 := by
  rw [add]
  cases h with
  | trigger before after triggerNode message h hquiet hcrons hfails =>
    have hone : runTrigger cronJob workflow s triggerNode = (s, .error message) := by
      rw [runTrigger, hfails, hcrons]
      rfl
    rw [h, startTriggers_quiet cronJob workflow hquiet, startTriggers, hone]
    exact NothingLeft.refl s
  | poll before after pollNode htriggers h hquiet hfails =>
    have hstart := startTriggers_quiet cronJob workflow htriggers [] s []
    rw [append_nil] at hstart
    rw [hstart, startTriggers]
    dsimp only
    rw [h, startPolling_quiet hquiet, startPolling]
    have hfails' : FailsAtOnce cronJob
        { s with activeWorkflows := s.activeWorkflows.set workflowId [] }
        workflow pollNode := by
      cases hfails with
      | pollTimes message h => exact .pollTimes message h
      | poll message h => exact .poll message h
      | cron item rest h hrefused => exact .cron item rest h hrefused
    obtain ⟨message, hone⟩ := activatePolling_failsAtOnce hfails'
    rw [hone]
    refine ⟨fun id triggerResponses hget => ?_, (NothingLeft.refl s).responses, fun _ hctx => hctx⟩
    dsimp only [length_nil] at hget
    rw [if_pos rfl, get?_delete, get?_set] at hget
    split at hget
    · cases hget
    · next hne =>
        rw [if_neg (Ne.symm hne)] at hget
        exact hget

/-! ## Deactivation -/

/-- The close function of the response does not throw, unless it throws what
    is only reported. -/
def ITriggerResponse.Closes (response : ITriggerResponse) : Prop :=
  ∀ message, response.closeFunction ≠ some (.error message)

theorem hasCron_deregisterCrons (s : ActiveWorkflows)
    (workflowId : WorkflowId) (ctx : CronContext) :
    (deregisterCrons s workflowId).hasCron ctx = true
      ↔ s.hasCron ctx = true ∧ ctx.workflowId ≠ workflowId := by
  rw [deregisterCrons]
  rcases hcrons : s.cronsByWorkflow.get? workflowId with _ | crons
  · constructor
    · intro h
      refine ⟨h, ?_⟩
      rintro rfl
      rw [ActiveWorkflows.hasCron, hcrons] at h
      cases h
    · exact fun h => h.1
  · dsimp only
    split
    · next hempty =>
        constructor
        · intro h
          refine ⟨h, ?_⟩
          rintro rfl
          rw [ActiveWorkflows.hasCron, hcrons] at h
          have hnone : crons.entries = [] := length_eq_zero_iff.mp hempty
          simp [OrderedMap.has, OrderedMap.get?, hnone, findKey] at h
        · exact fun h => h.1
    · rw [ActiveWorkflows.hasCron, get?_delete]
      split
      · next heq => simp [heq]
      · next hne => simp [hne, ActiveWorkflows.hasCron]

theorem deregisterCrons_frame (s : ActiveWorkflows) (workflowId : WorkflowId) :
    (deregisterCrons s workflowId).activeWorkflows = s.activeWorkflows
      ∧ (deregisterCrons s workflowId).responses = s.responses
      ∧ (deregisterCrons s workflowId).closed = s.closed := by
  rw [deregisterCrons]
  rcases s.cronsByWorkflow.get? workflowId with _ | crons
  · exact ⟨rfl, rfl, rfl⟩
  · dsimp only
    split <;> exact ⟨rfl, rfl, rfl⟩

variable (workflowId) in
theorem closeTriggers_closes (refs : List Nat) (s : ActiveWorkflows)
    (hcloses : ∀ ref ∈ refs, ∀ response, s.responses[ref]? = some response → response.Closes) :
    ∃ closed, closeTriggers workflowId refs s
        = ({ s with closed := s.closed ++ closed }, none)
      ∧ ∀ ref ∈ refs, ∀ response, s.responses[ref]? = some response →
          response.closeFunction ≠ none → ref ∈ closed := by
  induction refs generalizing s with
  | nil =>
    refine ⟨[], ?_, fun ref hmem => ?_⟩
    · rw [closeTriggers, append_nil]
    · cases hmem
  | cons first rest ih =>
    have hrest : ∀ ref ∈ rest, ∀ response, s.responses[ref]? = some response → response.Closes :=
      fun ref hmem => hcloses ref (mem_cons_of_mem _ hmem)
    rw [closeTriggers, closeTrigger]
    rcases hfound : (s.responses[first]?).bind ITriggerResponse.closeFunction with _ | result
    · obtain ⟨closed, hclose, hall⟩ := ih s hrest
      refine ⟨closed, hclose, fun ref hmem response hget hfunction => ?_⟩
      rcases mem_cons.mp hmem with rfl | hmem
      · rw [hget] at hfound
        exact absurd hfound hfunction
      · exact hall ref hmem response hget hfunction
    · obtain ⟨closed, hclose, hall⟩ :=
        ih { s with closed := s.closed ++ [first] } hrest
      refine ⟨first :: closed, ?_, fun ref hmem response hget hfunction =>
        ?_⟩
      · -- What is thrown here would be the error of a close function.
        obtain ⟨response, hget, hfunction⟩ := Option.bind_eq_some_iff.mp hfound
        have hone : closeTriggers workflowId rest
            { s with closed := s.closed ++ [first] }
              = ({ s with closed := s.closed ++ first :: closed }, none) := by
          rw [hclose, append_assoc]
          rfl
        rcases result with _ | _ | message
        · exact hone
        · exact hone
        · exact absurd hfunction (hcloses first (mem_cons_self ..) response hget message)
      · rcases mem_cons.mp hmem with rfl | hmem
        · exact mem_cons_self ..
        · exact mem_cons_of_mem _ (hall ref hmem response hget hfunction)

/-! ## The whole call -/

/-- The workflow stays active: its entry has all responses of the call, none
    is closed, and `remove` can take back the whole call. -/
structure StaysActive (workflowId : WorkflowId) (workflow : Workflow)
    (s s' : ActiveWorkflows) : Prop where
  entry : s'.activeWorkflows.get? workflowId = some (placesOf s workflow)
  responses : s'.responses = s.responses ++ responsesOf workflow.triggerNodes
  closed : s'.closed = s.closed
  removable : workflow.id = workflowId →
    (∀ response ∈ responsesOf workflow.triggerNodes, response.Closes) →
      (remove s' workflowId).2 = .ok true
        ∧ (remove s' workflowId).1.activeWorkflows.get? workflowId = none
        ∧ NothingLeft s (remove s' workflowId).1

/-- What holds where `add` throws. -/
structure ActivationFails (cronJob : String → String → Option String)
    (workflowId : WorkflowId) (workflow : Workflow)
    (s s' : ActiveWorkflows) : Prop where
  triggerFailed : TriggerFails workflow → s'.activeWorkflows = s.activeWorkflows
  pollFailed : ¬ TriggerFails workflow → responsesOf workflow.triggerNodes = [] →
      s'.activeWorkflows.get? workflowId = none ∧ s'.responses = s.responses
  nothingLeft : FailsFirst cronJob s workflow → NothingLeft s s'
  staysActive : ¬ TriggerFails workflow → responsesOf workflow.triggerNodes ≠ [] →
      StaysActive workflowId workflow s s'

theorem remove_takesBack {rs : List ITriggerResponse} (hentry : s'.activeWorkflows.get? workflowId
      = some (List.range' s.responses.length rs.length))
    (hothers : ∀ id, id ≠ workflowId → s'.activeWorkflows.get? id = s.activeWorkflows.get? id)
    (hresponses : s'.responses = s.responses ++ rs)
    (hcrons : ∀ ctx, s'.hasCron ctx = true → s.hasCron ctx = true ∨ ctx.workflowId = workflowId)
    (hcloses : ∀ response ∈ rs, response.Closes) :
    (remove s' workflowId).2 = .ok true
      ∧ (remove s' workflowId).1.activeWorkflows.get? workflowId = none
      ∧ NothingLeft s (remove s' workflowId).1 := by
  obtain ⟨hactive, hsame, hclosed⟩ := deregisterCrons_frame s' workflowId
  obtain ⟨closed, hclose, hall⟩ := closeTriggers_closes workflowId
    (List.range' s.responses.length rs.length) (deregisterCrons s' workflowId)
    (by
      intro ref hmem response hget
      rw [hsame, hresponses, getElem?_append_right (mem_range'_1.mp hmem).1] at hget
      exact hcloses response (mem_of_getElem? hget))
  rw [remove, hentry]
  dsimp only
  rw [hclose]
  refine ⟨rfl, ?_, ?_, ?_, ?_⟩
  · rw [get?_delete, if_pos rfl]
  · intro id triggerResponses hget
    rw [get?_delete] at hget
    split at hget
    · cases hget
    · next hne =>
        rw [hactive, hothers id hne] at hget
        exact hget
  · intro ref response hle hget hfunction
    refine mem_append_right _ (hall ref ?_ response hget hfunction)
    rw [hsame, hresponses] at hget
    have hlt := (List.getElem?_eq_some_iff.mp hget).1
    rw [length_append] at hlt
    exact mem_range'_1.mpr ⟨hle, hlt⟩
  · intro ctx hctx
    obtain ⟨hold, hne⟩ := (hasCron_deregisterCrons s' workflowId ctx).mp hctx
    exact (hcrons ctx hold).resolve_right hne

/-- **EVERY FAILING CALL**: a trigger node that fails leaves the entries as
    they were, a polling node that fails leaves no entry without trigger
    responses, and with trigger responses the workflow stays active until it
    is removed. -/
theorem add_throws (s : ActiveWorkflows) (workflowId : WorkflowId) (workflow : Workflow)
    (hthrows : (add cronJob s workflowId workflow).2 ≠ none) :
    ActivationFails cronJob workflowId workflow s (add cronJob s workflowId workflow).1 := by
  have hfirst : FailsFirst cronJob s workflow →
      NothingLeft s (add cronJob s workflowId workflow).1 :=
    nothingLeft_of_failsFirst cronJob workflow workflowId
  have hstarts := startTriggers_starts cronJob workflow workflow.triggerNodes s []
  by_cases hfails : TriggerFails workflow
  · have herror := startTriggers_fails cronJob workflow hfails s []
    refine ⟨fun _ => ?_, fun hnot => absurd hfails hnot, hfirst, fun hnot => absurd hfails hnot⟩
    rw [add]
    rcases hresult : startTriggers cronJob workflow workflow.triggerNodes s []
      with ⟨s', refs, _ | error⟩
    · rw [hresult] at herror
      exact absurd rfl herror
    · rw [hresult] at hstarts
      exact hstarts.active
  · have hnone : ∀ triggerNode ∈ workflow.triggerNodes,
        ∀ message, triggerNode.run ≠ .error message := by
      intro triggerNode hmem message hrun
      exact hfails ⟨triggerNode, hmem, message, hrun⟩
    obtain ⟨hok, hcollected, hplaces⟩ := startTriggers_collects cronJob workflow hnone s []
    rw [nil_append] at hplaces
    rcases hresult : startTriggers cronJob workflow workflow.triggerNodes s []
      with ⟨s₁, refs, error⟩
    rw [hresult] at hstarts hok hcollected hplaces
    dsimp only at hstarts hok hcollected hplaces
    subst hok
    -- The polling nodes begin with the entry of the workflow in place.
    have hadd : add cronJob s workflowId workflow
        = startPolling cronJob workflowId workflow refs workflow.pollNodes
          { s₁ with activeWorkflows :=
              s₁.activeWorkflows.set workflowId refs } := by
      rw [add, hresult]
    rw [hadd] at hthrows hfirst ⊢
    obtain ⟨hsame, hclosed, hcrons, hactive⟩ := startPolling_result cronJob
      workflow workflowId workflow.pollNodes
      { s₁ with activeWorkflows := s₁.activeWorkflows.set workflowId refs }
      refs
    have hlength : refs.length = (responsesOf workflow.triggerNodes).length := by
      rw [hplaces, length_range']
    refine ⟨fun hsome => absurd hsome hfails, fun _ hempty => ?_, hfirst, fun _ hresponded => ?_⟩
    · rw [if_pos ⟨Option.isSome_iff_ne_none.mpr hthrows, by
        rw [hlength, hempty]
        rfl⟩] at hactive
      rw [hactive, get?_delete, if_pos rfl, hsame, hcollected, hempty, append_nil]
      exact ⟨rfl, rfl⟩
    · rw [if_neg fun hnil => hresponded
        (length_eq_zero_iff.mp (hlength.symm.trans hnil.2))] at hactive
      have hentry := congrArg (fun m => m.get? workflowId) hactive
      rw [get?_set, if_pos rfl, congrArg some hplaces] at hentry
      refine ⟨hentry, hsame.trans hcollected, hclosed.trans hstarts.closed, fun hid hcloses => ?_⟩
      refine remove_takesBack hentry ?_ (hsame.trans hcollected) ?_ hcloses
      · intro id hne
        rw [hactive, get?_set, if_neg (Ne.symm hne), hstarts.active]
      · intro ctx hctx
        rw [← hid]
        rcases hcrons ctx hctx with hold | hown
        · exact hstarts.crons ctx hold
        · exact .inr hown

end

/-! ## A workflow with a trigger and a polling node -/

/-- A trigger that can be closed, and a polling node whose first poll
    fails. -/
def mixedWorkflow : Workflow :=
  { id := "1"
    timezone := "UTC"
    triggerNodes :=
      [{ node := { id := "a", name := "Trigger" }
         crons := []
         run := .ok (some { closeFunction := some .closes }) }]
    pollNodes :=
      [{ node := { id := "b", name := "Poll" }
         pollTimes := .ok [.everyMinute]
         random := fun _ => (0, 0)
         poll := .error "no access" }] }

def noWorkflows : ActiveWorkflows :=
  { activeWorkflows := .empty, cronsByWorkflow := .empty
    responses := [], closed := [] }

theorem mixedWorkflow_staysActive :
    StaysActive "1" mixedWorkflow noWorkflows
      (add (fun _ _ => none) noWorkflows "1" mixedWorkflow).1 := by
  have hfails : ¬ TriggerFails mixedWorkflow := by
    rintro ⟨triggerNode, hmem, message, hrun⟩
    cases mem_singleton.mp hmem
    cases hrun
  exact (add_throws noWorkflows "1" mixedWorkflow (by decide)).staysActive hfails (by decide)

/-- The poll fails after the trigger was started: the workflow stays
    active. -/
theorem mixedWorkflow_not_allOrNothing :
    ¬ AllOrNothing (fun _ _ => none) noWorkflows "1" mixedWorkflow := by
  intro hall
  have hentry := (hall (by decide)).entry "1" [0] (by decide)
  cases hentry

end N8nActiveWorkflows
