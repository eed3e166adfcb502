import N8n.OrderedMapProofs
import N8n.ConcurrencyQueueProofs

/-! # Active executions and their concurrency slots

    `add` gets a slot from the concurrency control, awaits an update of the
    database, and only then registers the handler that will give the slot
    back, when the execution's promise is settled.

    A call of `add` and the execution it registers are one record, and
    executions are referred to by the place of their call.  A settled
    promise queues its `finally` in `settled`; that it runs is an event of
    its own.  The last two fields of a call are its history: how often its
    `finally` has released the slot, and whether the execution was finalized
    or cancelled. -/

namespace N8nActiveExecutions

open N8nRun N8nOrderedMap N8nConcurrencyQueue List

/-! ## Executions -/

inductive ExecutionStatus where
  | canceled | crashed | error | new | running | success | unknown | waiting
deriving DecidableEq

inductive PostExecutePromise where
  | pending | resolved | rejected
deriving DecidableEq

structure IExecutingWorkflowData where
  status : ExecutionStatus
  postExecutePromise : PostExecutePromise
deriving DecidableEq

/-- What `add` can throw: another process resumes the execution, or the
    database fails. -/
inductive AddError where
  | alreadyResuming (executionId : ExecutionId)
  | database (message : String)
deriving DecidableEq

/-- Where a call of `add` stands: it awaits the new execution, its slot, or
    the update; it has added the execution; or it has thrown. -/
inductive AddStage where
  | creating
  | queued
  | updating
  | added (execution : IExecutingWorkflowData)
  | failed (error : AddError)
deriving DecidableEq

def AddStage.isAdded : AddStage → Bool
  | .added _ => true
  | _ => false

structure AddCall where
  mode : ExecutionMode
  executionId : Option ExecutionId
  /-- whether an existing execution is resumed -/
  resumed : Bool
  stage : AddStage
  /-- the slot the call was let through with -/
  slot : Option ConcurrencyQueueType
  releases : Nat
  ended : Bool

/-- The call has its slot and goes on. -/
def AddCall.letThrough (slot : Option ConcurrencyQueueType) (call : AddCall) : AddCall :=
  { call with stage := .updating, slot }

/-- The call waits in the queue of the kind under the id. -/
def isQueued (type : ConcurrencyQueueType) (executionId : ExecutionId) (call : AddCall) : Bool :=
  call.stage = .queued && ConcurrencyControlService.queueTypeOf call.mode = some type
    && call.executionId = some executionId

structure ActiveExecutions where
  /-- whether `executionsConfig.mode` is `regular` -/
  regular : Bool
  concurrencyControl : ConcurrencyControlService
  activeExecutions : OrderedMap ExecutionId Nat
  calls : List AddCall
  settled : List Nat

namespace ActiveExecutions

def new (regular : Bool) (concurrencyControl : ConcurrencyControlService) : ActiveExecutions :=
  { regular, concurrencyControl, activeExecutions := .empty
    calls := [], settled := [] }

def updateCall (s : ActiveExecutions) (i : Nat) (f : AddCall → AddCall) : ActiveExecutions :=
  { s with calls := s.calls.modify i f }

/-! ## Concurrency control -/

/-- The queue that counts `mode`, unless the service is disabled or the mode
    unlimited. -/
def limitedQueue (s : ActiveExecutions) (mode : ExecutionMode) :
    Option (ConcurrencyQueueType × ConcurrencyQueue) :=
  if s.concurrencyControl.isEnabled then s.concurrencyControl.getQueue mode
  else none

def setQueue (s : ActiveExecutions) (type : ConcurrencyQueueType)
    (queue : ConcurrencyQueue) : ActiveExecutions :=
  { s with
    concurrencyControl := s.concurrencyControl.setQueue type queue }

/-- The callback of a queued call is called. -/
def resolveQueued (s : ActiveExecutions) (type : ConcurrencyQueueType)
    (released : Option ExecutionId) : ActiveExecutions :=
  match released with
  | none => s
  | some executionId =>
    match s.calls.findIdx? (isQueued type executionId) with
    | none => s
    | some i => s.updateCall i (AddCall.letThrough (some type))

/-- `concurrencyControl.throttle({ mode, executionId })`. -/
def throttle (s : ActiveExecutions) (i : Nat) (mode : ExecutionMode)
    (executionId : ExecutionId) : ActiveExecutions :=
  match s.limitedQueue mode with
  | none => s.updateCall i (AddCall.letThrough none)
  | some (type, queue) =>
    let r := queue.enqueue executionId
    let s := s.setQueue type r.queue
    if r.released.isSome then
      s.updateCall i (AddCall.letThrough (some type))
    else s.updateCall i fun call => { call with stage := .queued }

/-- `concurrencyControl.release({ mode })`. -/
def release (s : ActiveExecutions) (mode : ExecutionMode) : ActiveExecutions :=
  match s.limitedQueue mode with
  | none => s
  | some (type, queue) =>
    let r := queue.dequeue
    (s.setQueue type r.queue).resolveQueued type r.released

/-! ## Adding an execution -/

/-- The call of `add`, up to its first `await`. -/
def add (s : ActiveExecutions) (mode : ExecutionMode)
    (executionId : Option ExecutionId) : ActiveExecutions :=
  let i := s.calls.length
  let call : AddCall :=
    { mode, executionId, resumed := executionId.isSome, stage := .creating
      slot := none, releases := 0, ended := false }
  let s : ActiveExecutions := { s with calls := s.calls ++ [call] }
  match executionId with
  | none => s
  | some executionId => s.throttle i mode executionId

/-- The execution is added, with the handler that will release its slot. -/
def register (s : ActiveExecutions) (i : Nat) (executionId : ExecutionId) : ActiveExecutions :=
  let s : ActiveExecutions :=
    { s with activeExecutions := s.activeExecutions.set executionId i }
  s.updateCall i fun call =>
    { call with
      stage := .added { status := .running, postExecutePromise := .pending } }

def fail (s : ActiveExecutions) (i : Nat) (error : AddError) : ActiveExecutions :=
  s.updateCall i fun call => { call with stage := .failed error }

/-- `add` after `createNewExecution`. -/
def created (s : ActiveExecutions) (i : Nat)
    (result : Except String ExecutionId) : ActiveExecutions :=
  match result with
  | .error message => s.fail i (.database message)
  | .ok executionId =>
    let s := s.updateCall i fun call =>
      { call with executionId := some executionId }
    if s.regular then
      match s.calls[i]? with
      | none => s
      | some call => s.throttle i call.mode executionId
    else s.register i executionId

/-- `add` after `setRunning`, or after `updateExistingExecution` with its
    answer. -/
def updated (s : ActiveExecutions) (i : Nat) (result : Except String Bool) : ActiveExecutions :=
  match (s.calls[i]?).bind AddCall.executionId with
  | none => s
  | some executionId =>
    match result with
    | .error message => s.fail i (.database message)
    | .ok true => s.register i executionId
    | .ok false => s.fail i (.alreadyResuming executionId)

/-! ## Ending an execution -/

/-- Only the first settlement of a promise counts. -/
def settle (s : ActiveExecutions) (i : Nat) (promise : PostExecutePromise) : ActiveExecutions :=
  match (s.calls[i]?).map AddCall.stage with
  | some (.added execution) =>
    if execution.postExecutePromise = .pending then
      let s := s.updateCall i fun call =>
        { call with
          stage := .added
            { execution with postExecutePromise := promise } }
      { s with settled := s.settled ++ [i] }
    else s
  | _ => s

/-- Record that the executions under the id were finalized or cancelled. -/
def markEnded (s : ActiveExecutions) (executionId : ExecutionId) : ActiveExecutions :=
  { s with calls := s.calls.map fun call =>
      { call with ended := call.ended
          || (call.executionId = some executionId && call.stage.isAdded) } }

def finalizeExecution (s : ActiveExecutions) (executionId : ExecutionId) : ActiveExecutions :=
  let s : ActiveExecutions := match s.activeExecutions.get? executionId with
    | none => s
    | some i => s.settle i .resolved
  s.markEnded executionId

def statusOf (s : ActiveExecutions) (i : Nat) : Option ExecutionStatus :=
  match (s.calls[i]?).map AddCall.stage with
  | some (.added execution) => some execution.status
  | _ => none

/-- A waiting execution is only taken out of the map. -/
def stopExecution (s : ActiveExecutions) (executionId : ExecutionId) : ActiveExecutions :=
  let s : ActiveExecutions := match s.activeExecutions.get? executionId with
    | none => s
    | some i =>
      if s.statusOf i = some .waiting then
        { s with
          activeExecutions := s.activeExecutions.delete executionId }
      else s.settle i .rejected
  s.markEnded executionId

def setStatus (s : ActiveExecutions) (executionId : ExecutionId)
    (status : ExecutionStatus) : ActiveExecutions :=
  match s.activeExecutions.get? executionId with
  | none => s
  | some i =>
    s.updateCall i fun call =>
      { call with stage := match call.stage with
          | .added execution => .added { execution with status }
          | stage => stage }

/-- The `finally` of the promise: the slot is released, and the execution is
    taken out of the map unless it waits. -/
def runFinally (s : ActiveExecutions) (i : Nat) : ActiveExecutions :=
  let s : ActiveExecutions := { s with settled := s.settled.erase i }
  match s.calls[i]? with
  | none => s
  | some call =>
    let s := (s.updateCall i fun call =>
      { call with releases := call.releases + 1 }).release call.mode
    match call.executionId with
    | none => s
    | some executionId =>
      if s.statusOf i = some .waiting then s
      else
        { s with
          activeExecutions := s.activeExecutions.delete executionId }

end ActiveExecutions

/-! ## Runs -/

inductive Event where
  | add (mode : ExecutionMode) (executionId : Option ExecutionId)
  | created (call : Nat) (result : Except String ExecutionId)
  | updated (call : Nat) (result : Except String Bool)
  | setStatus (executionId : ExecutionId) (status : ExecutionStatus)
  | finalizeExecution (executionId : ExecutionId)
  | stopExecution (executionId : ExecutionId)
  | settled (call : Nat)

/-- A call goes on once what it awaits is there, and a `finally` runs once
    its promise is settled; `setRunning` has no answer to refuse with. -/
def Enabled (s : ActiveExecutions) : Event → Prop
  | .created i _ => ∃ call, s.calls[i]? = some call ∧ call.stage = .creating
  | .updated i result => ∃ call, s.calls[i]? = some call
      ∧ call.stage = .updating ∧ (call.resumed = false → result ≠ .ok false)
  | .settled i => i ∈ s.settled
  | _ => True

def next (s : ActiveExecutions) : Event → ActiveExecutions
  | .add mode executionId => s.add mode executionId
  | .created i result => s.created i result
  | .updated i result => s.updated i result
  | .setStatus executionId status => s.setStatus executionId status
  | .finalizeExecution executionId => s.finalizeExecution executionId
  | .stopExecution executionId => s.stopExecution executionId
  | .settled i => s.runFinally i

def Step (s : ActiveExecutions) (e : Event) (s' : ActiveExecutions) : Prop :=
  Enabled s e ∧ s' = next s e

/-! ## Slots that are released -/

def AddStage.isFailed : AddStage → Bool
  | .failed _ => true
  | _ => false

/-- The slot of the call is in use: it was not given back, and the call has
    not thrown. -/
def isLive (type : ConcurrencyQueueType) (call : AddCall) : Bool :=
  call.slot = some type && call.releases = 0 && !call.stage.isFailed

/-- Every slot is released once, when its execution has ended, and the
    capacity is what the limit leaves to the calls in the queue and the
    slots in use.  A call that has thrown does not use its slot. -/
structure SlotsReleased (s : ActiveExecutions) : Prop where
  once : ∀ call ∈ s.calls, call.releases ≤ 1
  ended : ∀ (i : Nat) (call : AddCall), s.calls[i]? = some call →
    call.ended = true → call.slot ≠ none → call.releases = 1 ∨ i ∈ s.settled
  capacity : ∀ type queue, s.concurrencyControl.queues type = some queue →
      queue.capacity = s.concurrencyControl.limits type
        - queue.queue.length - s.calls.countP (isLive type)

/-- The execution of the call is added, and its promise is not settled. -/
def AddCall.isPending (call : AddCall) : Bool :=
  match call.stage with
  | .added execution => execution.postExecutePromise = .pending
  | _ => false

/-- An execution under the id that holds a slot and is not settled is the
    one in the map. -/
def OnlyActive (s : ActiveExecutions) (executionId : ExecutionId) : Prop :=
  ∀ (i : Nat) (call : AddCall), s.calls[i]? = some call →
    call.executionId = some executionId → call.isPending = true →
      call.slot ≠ none → s.activeExecutions.get? executionId = some i

/-- The condition on a step. -/
def KeepsSlots (s : ActiveExecutions) : Event → Prop
  | .updated i result => ∀ call, s.calls[i]? = some call → call.slot ≠ none → result = .ok true
  | .finalizeExecution executionId => OnlyActive s executionId
  | .stopExecution executionId => OnlyActive s executionId
      ∧ ∀ i call, s.activeExecutions.get? executionId = some i →
        s.calls[i]? = some call → call.isPending = true → call.slot ≠ none →
          s.statusOf i ≠ some .waiting
  | _ => True

/-! ## The invariant -/

def AddStage.isThrough : AddStage → Bool
  | .updating | .added _ => true
  | _ => false

def AddCall.isSettled (call : AddCall) : Bool :=
  match call.stage with
  | .added execution => execution.postExecutePromise ≠ .pending
  | _ => false

/-- The kind of slot a call of the mode needs. -/
def ActiveExecutions.slotOf (s : ActiveExecutions) (mode : ExecutionMode) :
    Option ConcurrencyQueueType :=
  (s.limitedQueue mode).map Prod.fst

/-- A call holds the slot it needs while it is let through, and its promise
    is settled before its slot is released. -/
structure Fits (slotOf : ExecutionMode → Option ConcurrencyQueueType)
    (settling : Prop) (call : AddCall) : Prop where
  slot : call.slot = if call.stage.isThrough then slotOf call.mode else none
  settling : settling ↔ call.isSettled = true ∧ call.releases = 0
  once : call.releases ≤ if call.isSettled then 1 else 0
  marked : call.ended = true → call.stage.isAdded = true
  ended : call.ended = true → call.slot ≠ none → call.isSettled = true
  identified : call.stage = .updating → call.executionId ≠ none

/-- The state is as it should be, but for slots of a kind that are about to
    be given back. -/
structure Sound (free : ConcurrencyQueueType → Nat) (s : ActiveExecutions) :
    Prop where
  fits : ∀ (i : Nat) (call : AddCall), s.calls[i]? = some call → Fits s.slotOf (i ∈ s.settled) call
  registered : ∀ executionId i, s.activeExecutions.get? executionId = some i →
      ∃ call, s.calls[i]? = some call
        ∧ call.executionId = some executionId ∧ call.stage.isAdded = true
  nodup : s.settled.Nodup
  bounded : ∀ i ∈ s.settled, i < s.calls.length
  queued : ∀ type queue, s.concurrencyControl.queues type = some queue →
    ∀ executionId, queue.queue.count executionId = s.calls.countP (isQueued type executionId)
  capacity : ∀ type queue, s.concurrencyControl.queues type = some queue →
      queue.capacity = s.concurrencyControl.limits type
        - queue.queue.length - s.calls.countP (isLive type) - free type
  regular : s.regular = false → s.concurrencyControl.isEnabled = false

/-- No slot is about to be given back. -/
def settledUp : ConcurrencyQueueType → Nat := fun _ => 0

theorem Sound.slotsReleased {s : ActiveExecutions} (h : Sound settledUp s) : SlotsReleased s := by
  constructor
  · intro call hmem
    obtain ⟨i, hi⟩ := mem_iff_getElem?.mp hmem
    refine Nat.le_trans (h.fits i call hi).once ?_
    split
    · exact Nat.le_refl _
    · exact Nat.zero_le _
  · intro i call hi hended hslot
    have hfits := h.fits i call hi
    have hsettled := hfits.ended hended hslot
    have honce := hfits.once
    rw [if_pos hsettled] at honce
    rcases Nat.eq_zero_or_pos call.releases with hzero | hpos
    · exact .inr (hfits.settling.mpr ⟨hsettled, hzero⟩)
    · exact .inl (Nat.le_antisymm honce hpos)
  · intro type queue hqueue
    have hcapacity := h.capacity type queue hqueue
    rw [settledUp] at hcapacity
    omega

/-! ## Changing one call -/

theorem countP_modify {α : Type} (p : α → Bool) (f : α → α) {l : List α}
    {i : Nat} {a : α} (ha : l[i]? = some a) :
    (l.modify i f).countP p + (p a).toNat = l.countP p + (p (f a)).toNat := by
  induction l generalizing i with
  | nil => cases ha
  | cons x rest ih =>
    cases i with
    | zero =>
      cases ha
      simp only [modify_zero_cons, countP_cons]
      cases p a <;> cases p (f a) <;> simp
    | succ i =>
      have hrest := ih ha
      simp only [modify_succ_cons, countP_cons]
      omega

theorem getElem?_modify_some {α : Type} {f : α → α} {l : List α} {i j : Nat}
    {b : α} (hb : (l.modify i f)[j]? = some b) :
    ∃ a, l[j]? = some a ∧ b = if i = j then f a else a := by
  rw [getElem?_modify] at hb
  obtain ⟨a, ha, rfl⟩ := Option.map_eq_some_iff.mp hb
  refine ⟨a, ha, ?_⟩
  split <;> rfl

theorem getElem?_modify_of_some {α : Type} {f : α → α} {l : List α}
    {i j : Nat} {a : α} (ha : l[j]? = some a) :
    (l.modify i f)[j]? = some (if i = j then f a else a) := by
  rw [getElem?_modify, ha]
  split <;> rfl

section

variable {free : ConcurrencyQueueType → Nat} {s s' : ActiveExecutions}
  {i : Nat} {call : AddCall}

variable {f : AddCall → AddCall} {id : ExecutionId}

theorem Sound.registered_modify (h : Sound free s) (hi : s.calls[i]? = some call)
    (hadded : call.stage.isAdded = true → (f call).executionId = call.executionId
        ∧ (f call).stage.isAdded = true) {j : Nat} (hj : s.activeExecutions.get? id = some j) :
    ∃ c, (s.calls.modify i f)[j]? = some c ∧ c.executionId = some id ∧ c.stage.isAdded = true := by
  obtain ⟨c, hc, hid, hstage⟩ := h.registered id j hj
  refine ⟨_, getElem?_modify_of_some hc, ?_⟩
  by_cases heq : i = j
  · subst heq
    rw [hi] at hc
    cases hc
    obtain ⟨hsame, hyes⟩ := hadded hstage
    rw [if_pos rfl, hsame]
    exact ⟨hid, hyes⟩
  · rw [if_neg heq]
    exact ⟨hid, hstage⟩

variable {free' : ConcurrencyQueueType → Nat}

/-- One call changes outside of the queues. -/
theorem Sound.changeCall (h : Sound free s) (hi : s.calls[i]? = some call)
    (hcalls : s'.calls = s.calls.modify i f)
    (hcontrol : s'.concurrencyControl = s.concurrencyControl) (hregular : s'.regular = s.regular)
    (hothers : ∀ j, j ≠ i → (j ∈ s'.settled ↔ j ∈ s.settled)) (hnodup : s'.settled.Nodup)
    (hfits : Fits s.slotOf (i ∈ s'.settled) (f call))
    (hlive : ∀ type, (isLive type (f call)).toNat + free' type
      = (isLive type call).toNat + free type)
    (hqueued : ∀ type executionId,
      isQueued type executionId (f call) = isQueued type executionId call)
    (hregistered : ∀ executionId j, s'.activeExecutions.get? executionId = some j →
        ∃ c, s'.calls[j]? = some c ∧ c.executionId = some executionId ∧ c.stage.isAdded = true) :
    Sound free' s' := by
  have hslotOf : s'.slotOf = s.slotOf := by
    funext mode
    rw [ActiveExecutions.slotOf, ActiveExecutions.slotOf,
      ActiveExecutions.limitedQueue, ActiveExecutions.limitedQueue, hcontrol]
  refine
    { fits := ?_, registered := hregistered, nodup := hnodup
      bounded := ?_, queued := ?_, capacity := ?_, regular := ?_ }
  · intro j c hc
    rw [hcalls] at hc
    obtain ⟨c, hold, rfl⟩ := getElem?_modify_some hc
    rw [hslotOf]
    by_cases hj : i = j
    · subst hj
      rw [hi] at hold
      cases hold
      rw [if_pos rfl]
      exact hfits
    · rw [if_neg hj]
      have hsame := h.fits j c hold
      exact
        { hsame with
          settling := (hothers j (Ne.symm hj)).trans hsame.settling }
  · intro j hj
    rw [hcalls, length_modify]
    by_cases heq : j = i
    · subst heq
      exact (List.getElem?_eq_some_iff.mp hi).1
    · exact h.bounded j ((hothers j heq).mp hj)
  · intro type queue hqueue executionId
    rw [hcontrol] at hqueue
    rw [h.queued type queue hqueue, hcalls]
    have hcount := countP_modify (isQueued type executionId) f hi
    rw [hqueued] at hcount
    omega
  · intro type queue hqueue
    rw [hcontrol] at hqueue ⊢
    have hcount := countP_modify (isLive type) f hi
    have hfree := hlive type
    have hcapacity := h.capacity type queue hqueue
    rw [hcalls]
    omega
  · rw [hregular, hcontrol]
    exact h.regular

/-! ## The concurrency control -/

variable {queue : ConcurrencyQueue} {type : ConcurrencyQueueType} {mode : ExecutionMode}

theorem limitedQueue_eq_some :
    s.limitedQueue mode = some (type, queue)
      ↔ s.concurrencyControl.isEnabled = true
        ∧ ConcurrencyControlService.queueTypeOf mode = some type
        ∧ s.concurrencyControl.queues type = some queue := by
  rw [ActiveExecutions.limitedQueue]
  constructor
  · intro h
    split at h
    · next henabled =>
        simp only [ConcurrencyControlService.getQueue, Option.bind_eq_bind,
          Option.bind_eq_some_iff, Option.pure_def, Option.some.injEq, Prod.mk.injEq] at h
        obtain ⟨t, ht, q, hq, rfl, rfl⟩ := h
        exact ⟨henabled, ht, hq⟩
    · cases h
  · rintro ⟨henabled, htype, hqueue⟩
    rw [if_pos henabled]
    simp [ConcurrencyControlService.getQueue, htype, hqueue]

theorem slotOf_eq_some :
    s.slotOf mode = some type ↔ ∃ queue, s.limitedQueue mode = some (type, queue) := by
  rw [ActiveExecutions.slotOf, Option.map_eq_some_iff]
  constructor
  · rintro ⟨⟨t, queue⟩, h, rfl⟩
    exact ⟨queue, h⟩
  · rintro ⟨queue, h⟩
    exact ⟨(type, queue), h, rfl⟩

theorem setQueue_queues (s : ActiveExecutions)
    (type t : ConcurrencyQueueType) (queue : ConcurrencyQueue) :
    (s.setQueue type queue).concurrencyControl.queues t
      = if t = type then some queue else s.concurrencyControl.queues t := by
  show Function.update s.concurrencyControl.queues type (some queue) t = _
  by_cases ht : t = type
  · subst ht
    rw [Function.update_self, if_pos rfl]
  · rw [Function.update_of_ne ht, if_neg ht]

theorem slotOf_setQueue (hqueue : s.concurrencyControl.queues type = some queue)
    (queue' : ConcurrencyQueue) :
    (s.setQueue type queue').slotOf = s.slotOf := by
  funext mode
  have hmap : ∀ t, ((s.setQueue type queue').concurrencyControl.queues t).map
      (fun _ => t) = (s.concurrencyControl.queues t).map fun _ => t := by
    intro t
    rw [setQueue_queues]
    split
    · next ht =>
        rw [ht, hqueue]
        rfl
    · rfl
  rw [ActiveExecutions.slotOf, ActiveExecutions.slotOf,
    ActiveExecutions.limitedQueue, ActiveExecutions.limitedQueue]
  show (if s.concurrencyControl.isEnabled then _ else none).map _ = _
  split
  · simp only [ConcurrencyControlService.getQueue]
    rcases ConcurrencyControlService.queueTypeOf mode with _ | t
    · rfl
    · have ht := hmap t
      simp only [Option.bind_eq_bind, Option.bind_some, Option.pure_def]
      rcases hnew : (s.setQueue type queue').concurrencyControl.queues t
        with _ | q <;> rcases hold : s.concurrencyControl.queues t with _ | q'
      · rfl
      · simp [hnew, hold] at ht
      · simp [hnew, hold] at ht
      · rfl
  · rfl

/-- A call changes together with the queue it is counted in. -/
theorem Sound.changeQueue (h : Sound free s) (hi : s.calls[i]? = some call)
    {queue' : ConcurrencyQueue}
    (hqueue : s.concurrencyControl.queues type = some queue)
    (hfits : Fits s.slotOf (i ∈ s.settled) (f call))
    (hadded : call.stage.isAdded = true → (f call).executionId = call.executionId
        ∧ (f call).stage.isAdded = true)
    (hothers : ∀ t, t ≠ type → free' t = free t
      ∧ isLive t (f call) = isLive t call
      ∧ ∀ id, isQueued t id (f call) = isQueued t id call)
    (hqueued : ∀ id, queue'.queue.count id + (isQueued type id call).toNat
      = queue.queue.count id + (isQueued type id (f call)).toNat)
    (hcapacity : queue'.capacity + queue'.queue.length
        + (isLive type (f call)).toNat + free' type
      = queue.capacity + queue.queue.length
        + (isLive type call).toNat + free type) :
    Sound free' ((s.setQueue type queue').updateCall i f) := by
  refine
    { fits := ?_, registered := ?_, nodup := h.nodup, bounded := ?_
      queued := ?_, capacity := ?_, regular := h.regular }
  · intro j c hc
    obtain ⟨c, hold, rfl⟩ := getElem?_modify_some hc
    show Fits (s.setQueue type queue').slotOf (j ∈ s.settled) _
    rw [slotOf_setQueue hqueue]
    by_cases hj : i = j
    · subst hj
      have hsame : s.calls[i]? = some c := hold
      rw [hi] at hsame
      cases hsame
      rw [if_pos rfl]
      exact hfits
    · rw [if_neg hj]
      exact h.fits j c hold
  · intro id j hj
    exact h.registered_modify hi hadded hj
  · intro j hj
    show j < (s.calls.modify i f).length
    rw [length_modify]
    exact h.bounded j hj
  · intro t q hq id
    have hcount := countP_modify (isQueued t id) f hi
    show q.queue.count id = (s.calls.modify i f).countP (isQueued t id)
    have hq' := (setQueue_queues s type t queue').symm.trans hq
    by_cases ht : t = type
    · subst ht
      rw [if_pos rfl] at hq'
      cases hq'
      have hold := h.queued t queue hqueue id
      have hnew := hqueued id
      omega
    · rw [if_neg ht] at hq'
      have hold := h.queued t q hq' id
      rw [(hothers t ht).2.2 id] at hcount
      omega
  · intro t q hq
    have hcount := countP_modify (isLive t) f hi
    show q.capacity = s.concurrencyControl.limits t - q.queue.length
      - (s.calls.modify i f).countP (isLive t) - free' t
    have hq' := (setQueue_queues s type t queue').symm.trans hq
    by_cases ht : t = type
    · subst ht
      rw [if_pos rfl] at hq'
      cases hq'
      have hold := h.capacity t queue hqueue
      omega
    · rw [if_neg ht] at hq'
      have hold := h.capacity t q hq'
      obtain ⟨hfree, hlive, -⟩ := hothers t ht
      rw [hlive] at hcount
      omega

theorem Sound.replaceQueue (h : Sound free s) {queue' : ConcurrencyQueue}
    (hqueue : s.concurrencyControl.queues type = some queue)
    (hothers : ∀ t, t ≠ type → free' t = free t) (hqueued : queue'.queue = queue.queue)
    (hcapacity : queue'.capacity + free' type = queue.capacity + free type) :
    Sound free' (s.setQueue type queue') := by
  refine
    { fits := ?_, registered := h.registered, nodup := h.nodup
      bounded := h.bounded, queued := ?_, capacity := ?_
      regular := h.regular }
  · intro i call hi
    rw [slotOf_setQueue hqueue]
    exact h.fits i call hi
  · intro t q hq id
    rw [setQueue_queues] at hq
    split at hq
    · next ht =>
        cases hq
        rw [hqueued, ht]
        exact h.queued type queue hqueue id
    · exact h.queued t q hq id
  · intro t q hq
    rw [setQueue_queues] at hq
    show q.capacity = s.concurrencyControl.limits t - q.queue.length
      - s.calls.countP (isLive t) - free' t
    split at hq
    · next ht =>
        cases hq
        subst ht
        have hold := h.capacity t queue hqueue
        rw [hqueued]
        omega
    · next ht =>
        rw [hothers t ht]
        exact h.capacity t q hq

/-! ## Calls on their way -/

variable {slotOf : ExecutionMode → Option ConcurrencyQueueType} {settling : Prop}

theorem Fits.unsettled (h : Fits slotOf settling call) (hstage : call.isSettled = false) :
    call.releases = 0 ∧ ¬ settling := by
  have honce := h.once
  rw [hstage] at honce
  refine ⟨Nat.le_zero.mp honce, fun hsettling => ?_⟩
  have hsettled := (h.settling.mp hsettling).1
  rw [hstage] at hsettled
  cases hsettled

theorem Fits.advance (h : Fits slotOf settling call) (hold : call.stage.isAdded = false)
    {stage : AddStage} (hnew : stage.isAdded = false) {slot : Option ConcurrencyQueueType}
    (hslot : slot = if stage.isThrough then slotOf call.mode else none)
    (hid : stage = .updating → call.executionId ≠ none) :
    Fits slotOf settling { call with stage, slot } := by
  have hpending : ∀ c : AddCall, c.stage.isAdded = false → c.isSettled = false := by
    intro c hc
    rw [AddCall.isSettled]
    cases hstage : c.stage with
    | added execution =>
      rw [hstage] at hc
      cases hc
    | _ => rfl
  have hnever : call.ended = false := by
    by_contra hended
    rw [Bool.not_eq_false] at hended
    have hadded := h.marked hended
    rw [hold] at hadded
    cases hadded
  obtain ⟨hreleases, hnot⟩ := h.unsettled (hpending call hold)
  have hsettled := hpending { call with stage, slot } hnew
  refine ⟨hslot, ?_, ?_, ?_, ?_, hid⟩
  · constructor
    · intro hsettling
      exact absurd hsettling hnot
    · rintro ⟨hyes, -⟩
      rw [hsettled] at hyes
      cases hyes
  · rw [hsettled]
    exact Nat.le_of_eq hreleases
  · intro hended
    exact absurd (hnever.symm.trans hended) (by simp)
  · intro hended
    exact absurd (hnever.symm.trans hended) (by simp)

theorem isLive_of_slot_none (hslot : call.slot = none)
    (type : ConcurrencyQueueType) : isLive type call = false := by
  simp [isLive, hslot]

theorem isQueued_of_stage (hstage : call.stage ≠ .queued)
    (type : ConcurrencyQueueType) (id : ExecutionId) :
    isQueued type id call = false := by
  simp [isQueued, hstage]

/-- `throttle` lets the call through or queues it. -/
theorem Sound.throttle (h : Sound free s) (hi : s.calls[i]? = some call)
    (hstage : call.stage = .creating) (hmode : call.mode = mode)
    (hid : call.executionId = some id) :
    Sound free (s.throttle i mode id) := by
  have hfits := h.fits i call hi
  have hnone : call.slot = none := by
    rw [hfits.slot, hstage]
    rfl
  have hnot : call.stage.isAdded = false := by rw [hstage]; rfl
  have hids : call.executionId ≠ none := by simp [hid]
  have hreleases := (hfits.unsettled (by rw [AddCall.isSettled, hstage])).1
  have hqueuing : call.stage ≠ .queued := by simp [hstage]
  have hnever : ¬ call.stage.isAdded = true := by simp [hnot]
  rw [ActiveExecutions.throttle]
  rcases hlimited : s.limitedQueue mode with _ | ⟨type, queue⟩
  · have hslot : s.slotOf call.mode = none := by
      rw [hmode, ActiveExecutions.slotOf, hlimited]
      rfl
    have hthrough : Fits s.slotOf (i ∈ s.settled) (call.letThrough none) :=
      hfits.advance hnot rfl hslot.symm fun _ => hids
    refine h.changeCall hi rfl rfl rfl (fun _ _ => Iff.rfl) h.nodup hthrough ?_ ?_ ?_
    · intro t
      rw [isLive_of_slot_none hnone, isLive_of_slot_none rfl]
    · intro t x
      rw [isQueued_of_stage hqueuing]
      exact isQueued_of_stage (by simp [AddCall.letThrough]) t x
    · intro x j hj
      exact h.registered_modify hi (fun hyes => absurd hyes hnever) hj
  · obtain ⟨henabled, htype, hqueue⟩ := limitedQueue_eq_some.mp hlimited
    have hslot : s.slotOf call.mode = some type := by
      rw [hmode]
      exact slotOf_eq_some.mpr ⟨queue, hlimited⟩
    dsimp only
    rw [ConcurrencyQueue.enqueue]
    split
    · -- No capacity is left, and the call joins the queue.
      have hwaits : Fits s.slotOf (i ∈ s.settled)
          { call with stage := .queued } :=
        hfits.advance hnot rfl hnone fun _ => hids
      refine h.changeQueue hi hqueue hwaits (fun hyes => absurd hyes hnever) ?_ ?_ ?_
      · intro t ht
        refine ⟨rfl, ?_, fun x => ?_⟩
        · simp [isLive, hnone]
        · simp [isQueued, hmode, htype, Ne.symm ht]
      · intro x
        rw [isQueued_of_stage hqueuing]
        by_cases hx : id = x <;>
          simp [isQueued, hmode, htype, hid, hx]
      · have hidle : isLive type { call with stage := .queued } = false := by
          simp [isLive, hnone]
        rw [hidle, isLive_of_slot_none hnone]
        simp only [Bool.toNat_false, length_append, length_singleton]
        omega
    · have hthrough : Fits s.slotOf (i ∈ s.settled) (call.letThrough (some type)) :=
        hfits.advance hnot rfl hslot.symm fun _ => hids
      refine h.changeQueue hi hqueue hthrough (fun hyes => absurd hyes hnever) ?_ ?_ ?_
      · intro t ht
        refine ⟨rfl, ?_, fun x => ?_⟩
        · rw [isLive_of_slot_none hnone]
          simp [isLive, AddCall.letThrough, Ne.symm ht]
        · rw [isQueued_of_stage hqueuing]
          simp [isQueued, AddCall.letThrough]
      · intro x
        rw [isQueued_of_stage hqueuing]
        simp [isQueued, AddCall.letThrough]
      · rw [isLive_of_slot_none hnone]
        simp [isLive, AddCall.letThrough, hreleases, AddStage.isFailed]
        omega

section

variable (h : Sound free s) (mode : ExecutionMode) (executionId : Option ExecutionId)
include h

theorem Sound.append (resumed : Bool) :
    Sound free { s with calls := s.calls ++
      [{ mode, executionId, resumed, stage := .creating
         slot := none, releases := 0, ended := false }] } := by
  have hlast : s.calls.length ∉ s.settled := fun hmem =>
    Nat.lt_irrefl _ (h.bounded _ hmem)
  refine
    { h with
      fits := ?_, registered := ?_, bounded := ?_, queued := ?_
      capacity := ?_ }
  · intro i call hi
    rcases getElem?_concat_some hi with hi | ⟨rfl, rfl⟩
    · exact h.fits i call hi
    · exact
        { slot := rfl
          settling := by
            constructor
            · intro hmem
              exact absurd hmem hlast
            · rintro ⟨hsettled, -⟩
              cases hsettled
          once := Nat.le_refl _
          marked := by intro hended; cases hended
          ended := by intro hended; cases hended
          identified := by intro hstage; cases hstage }
  · intro id i hi
    obtain ⟨call, hcall, hid, hstage⟩ := h.registered id i hi
    exact ⟨call, getElem?_concat_of_some hcall, hid, hstage⟩
  · intro i hi
    rw [length_append]
    exact Nat.lt_add_right _ (h.bounded i hi)
  · intro type queue hqueue id
    rw [h.queued type queue hqueue id, countP_append]
    simp [isQueued]
  · intro type queue hqueue
    rw [h.capacity type queue hqueue, countP_append]
    simp [isLive]

theorem Sound.add : Sound free (s.add mode executionId) := by
  have hnew := h.append mode executionId executionId.isSome
  rcases executionId with _ | id
  · exact hnew
  · exact hnew.throttle getElem?_concat_length rfl rfl rfl

end

section

variable (h : Sound free s) (hi : s.calls[i]? = some call)
  (hold : call.stage = .creating ∨ call.stage = .updating)
include h hi hold

theorem Sound.fail (hslot : call.slot = none) (error : AddError) : Sound free (s.fail i error) := by
  have hnot : call.stage.isAdded = false := by
    rcases hold with hstage | hstage <;> rw [hstage] <;> rfl
  have hqueuing : call.stage ≠ .queued := by
    rcases hold with hstage | hstage <;> simp [hstage]
  have hfails : Fits s.slotOf (i ∈ s.settled)
      { call with stage := .failed error } :=
    (h.fits i call hi).advance hnot rfl hslot (by simp)
  refine h.changeCall hi rfl rfl rfl (fun _ _ => Iff.rfl) h.nodup hfails ?_ ?_ ?_
  · intro type
    simp [isLive, hslot]
  · intro type id
    rw [isQueued_of_stage hqueuing]
    simp [isQueued]
  · intro id j hj
    refine h.registered_modify hi (fun hyes => ?_) hj
    rw [hnot] at hyes
    cases hyes

/-- A call that has the slot it needs adds its execution. -/
theorem Sound.register (hslot : call.slot = s.slotOf call.mode)
    (hid : call.executionId = some id) : Sound free (s.register i id) := by
  have hnot : call.stage.isAdded = false ∧ call.isSettled = false
      ∧ call.stage.isFailed = false ∧ call.stage ≠ .queued := by
    rw [AddCall.isSettled]
    rcases hold with hstage | hstage <;> rw [hstage] <;>
      exact ⟨rfl, rfl, rfl, by simp⟩
  obtain ⟨hadded, hsettled, hfailed, hqueuing⟩ := hnot
  have hfits := h.fits i call hi
  obtain ⟨hreleases, hsettling⟩ := hfits.unsettled hsettled
  have hnever : ¬ call.ended = true := by
    intro hended
    have hyes := hfits.marked hended
    rw [hadded] at hyes
    cases hyes
  refine h.changeCall hi rfl rfl rfl (fun _ _ => Iff.rfl) h.nodup ?_ ?_ ?_ ?_
  · exact
      { slot := hslot
        settling := by
          constructor
          · intro hmem
            exact absurd hmem hsettling
          · rintro ⟨hyes, -⟩
            cases hyes
        once := Nat.le_of_eq hreleases
        marked := fun _ => rfl
        ended := fun hended => absurd hended hnever
        identified := by intro hstage; cases hstage }
  · intro type
    simp only [isLive, hfailed]
    rfl
  · intro type x
    rw [isQueued_of_stage hqueuing]
    simp [isQueued]
  · intro x j hj
    replace hj : (s.activeExecutions.set id i).get? x = some j := hj
    rw [OrderedMap.get?_set] at hj
    split at hj
    · next heq =>
        cases hj
        exact ⟨_, getElem?_modify_of_some hi, by simp [hid, heq], by simp [AddStage.isAdded]⟩
    · refine h.registered_modify hi (fun hyes => ?_) hj
      rw [hadded] at hyes
      cases hyes

end

theorem slotOf_of_disabled (h : s.concurrencyControl.isEnabled = false)
    (mode : ExecutionMode) : s.slotOf mode = none := by
  simp [ActiveExecutions.slotOf, ActiveExecutions.limitedQueue, h]

section

variable (h : Sound free s) (hi : s.calls[i]? = some call)
include h hi

theorem Sound.identify (hstage : call.stage = .creating) (id : ExecutionId) :
    Sound free (s.updateCall i fun call =>
      { call with executionId := some id }) := by
  have hfits := h.fits i call hi
  have hsame : Fits s.slotOf (i ∈ s.settled)
      { call with executionId := some id } :=
    { hfits with identified := fun _ => by simp }
  refine h.changeCall hi rfl rfl rfl (fun _ _ => Iff.rfl) h.nodup hsame (fun _ => rfl) ?_ ?_
  · intro type x
    simp [isQueued, hstage]
  · intro x j hj
    refine h.registered_modify hi (fun hyes => ?_) hj
    rw [hstage] at hyes
    cases hyes

theorem Sound.created (hstage : call.stage = .creating) (result : Except String ExecutionId) :
    Sound free (s.created i result) := by
  have hnone : call.slot = none := by
    rw [(h.fits i call hi).slot, hstage]
    rfl
  rcases result with message | id
  · exact h.fail hi (.inl hstage) hnone _
  · have hnamed := h.identify hi hstage id
    have hi' : (s.updateCall i fun call =>
        { call with executionId := some id }).calls[i]?
          = some { call with executionId := some id } := by
      have hget := getElem?_modify_of_some (f := fun call : AddCall =>
        { call with executionId := some id }) (i := i) hi
      rwa [if_pos rfl] at hget
    unfold ActiveExecutions.created
    dsimp only
    split
    · rw [hi']
      exact hnamed.throttle hi' hstage rfl rfl
    · next hmode =>
        have hdisabled := hnamed.regular ((Bool.not_eq_true _).mp hmode)
        have hslot := slotOf_of_disabled hdisabled call.mode
        exact hnamed.register hi' (.inl hstage) (hnone.trans hslot.symm) rfl

theorem Sound.updated (hstage : call.stage = .updating) {result : Except String Bool}
    (hkeeps : call.slot ≠ none → result = .ok true) :
    Sound free (s.updated i result) := by
  have hslot : call.slot = s.slotOf call.mode := by
    rw [(h.fits i call hi).slot, hstage]
    rfl
  have hlost : result ≠ .ok true → call.slot = none := by
    intro hresult
    by_contra hhas
    exact hresult (hkeeps hhas)
  unfold ActiveExecutions.updated
  rw [hi, Option.bind_some]
  rcases hid : call.executionId with _ | id
  · exact h
  · rcases result with message | ⟨_ | _⟩
    · exact h.fail hi (.inr hstage) (hlost (by simp)) _
    · exact h.fail hi (.inr hstage) (hlost (by simp)) _
    · exact h.register hi (.inr hstage) hslot hid

end

/-! ## Ending an execution -/

/-- An added call changes its execution. -/
theorem Sound.changeExecution (h : Sound free s) (hi : s.calls[i]? = some call)
    {execution : IExecutingWorkflowData} (hstage : call.stage = .added execution)
    {execution' : IExecutingWorkflowData} {settled : List Nat}
    (hothers : ∀ j, j ≠ i → (j ∈ settled ↔ j ∈ s.settled))
    (hnodup : settled.Nodup)
    (hsettling : i ∈ settled ↔ execution'.postExecutePromise ≠ .pending ∧ call.releases = 0)
    (hpromise : execution.postExecutePromise ≠ .pending → execution'.postExecutePromise ≠ .pending)
    (hf : f call = { call with stage := .added execution' }) :
    Sound free
      { s with calls := s.calls.modify i f, settled := settled } := by
  have hfits := h.fits i call hi
  have hsettled : call.isSettled = true → AddCall.isSettled
      { call with stage := .added execution' } = true := by
    intro hyes
    rw [AddCall.isSettled, hstage] at hyes
    exact decide_eq_true (hpromise (of_decide_eq_true hyes))
  refine h.changeCall hi rfl rfl rfl hothers hnodup ?_ ?_ ?_ ?_
  · rw [hf]
    refine
      { slot := ?_, settling := ?_, once := ?_, marked := fun _ => rfl
        ended := ?_, identified := by intro hno; cases hno }
    · have hslot := hfits.slot
      rw [hstage] at hslot
      exact hslot
    · rw [hsettling]
      simp [AddCall.isSettled]
    · refine Nat.le_trans hfits.once ?_
      split
      · next hyes => exact Nat.le_of_eq (if_pos (hsettled hyes)).symm
      · exact Nat.zero_le _
    · intro hended hslot
      exact hsettled (hfits.ended hended hslot)
  · intro type
    rw [hf]
    simp [isLive, hstage, AddStage.isFailed]
  · intro type id
    rw [hf]
    simp [isQueued, hstage]
  · intro id j hj
    refine h.registered_modify hi (fun _ => ?_) hj
    rw [hf]
    exact ⟨rfl, rfl⟩

variable {promise : PostExecutePromise}

theorem Sound.settle (h : Sound free s) (i : Nat) (hpromise : promise ≠ .pending) :
    Sound free (s.settle i promise) := by
  unfold ActiveExecutions.settle
  rcases hi : s.calls[i]? with _ | call
  · exact h
  · rw [Option.map_some]
    rcases hstage : call.stage with _ | _ | _ | execution | _
    case added =>
      dsimp only
      split
      · next hpending =>
          have hunsettled : call.isSettled = false := by
            simp [AddCall.isSettled, hstage, hpending]
          obtain ⟨hreleases, hnew⟩ := (h.fits i call hi).unsettled hunsettled
          refine h.changeExecution hi hstage ?_ ?_ ?_ (fun _ => hpromise) rfl
          · intro j hj
            simp [ActiveExecutions.updateCall, hj]
          · refine nodup_append.mpr ⟨h.nodup, by simp, ?_⟩
            rintro j hj k hk rfl
            rw [mem_singleton.mp hk] at hj
            exact hnew hj
          · simp [hpromise, hreleases]
      · exact h
    all_goals exact h

theorem Sound.setStatus (h : Sound free s) (id : ExecutionId)
    (status : ExecutionStatus) : Sound free (s.setStatus id status) := by
  unfold ActiveExecutions.setStatus
  rcases hget : s.activeExecutions.get? id with _ | i
  · exact h
  · obtain ⟨call, hi, -, hadded⟩ := h.registered id i hget
    rcases hstage : call.stage with _ | _ | _ | execution | _
    case added =>
      have hpromise : execution.postExecutePromise ≠ .pending →
          IExecutingWorkflowData.postExecutePromise { execution with status }
            ≠ .pending := fun hsame => hsame
      refine h.changeExecution hi hstage (fun _ _ => Iff.rfl) h.nodup ?_ hpromise (by rw [hstage])
      rw [(h.fits i call hi).settling, AddCall.isSettled, hstage]
      simp
    all_goals
      rw [hstage] at hadded
      cases hadded

theorem Sound.deleteExecution (h : Sound free s) (id : ExecutionId) :
    Sound free
      { s with activeExecutions := s.activeExecutions.delete id } := by
  refine { h with registered := ?_ }
  intro x i hi
  refine h.registered x i ?_
  rw [OrderedMap.get?_delete] at hi
  split at hi
  · cases hi
  · exact hi

theorem isPending_of_unsettled (hadded : call.stage.isAdded = true)
    (hunsettled : ¬ call.isSettled = true) : call.isPending = true := by
  rw [AddCall.isSettled] at hunsettled
  rw [AddCall.isPending]
  rcases hstage : call.stage with _ | _ | _ | execution | _
  case added =>
    rw [hstage] at hunsettled
    simpa using hunsettled
  all_goals
    rw [hstage] at hadded
    cases hadded

theorem getElem?_markEnded (id : ExecutionId) (hi : s.calls[i]? = some call) :
    (s.markEnded id).calls[i]? = some
      { call with ended := call.ended
          || (call.executionId = some id && call.stage.isAdded) } := by
  rw [ActiveExecutions.markEnded, getElem?_map, hi]
  rfl

theorem Sound.markEnded (h : Sound free s)
    (hsettled : ∀ (i : Nat) (call : AddCall), s.calls[i]? = some call →
      call.executionId = some id → call.isPending = true → call.slot = none) :
    Sound free (s.markEnded id) := by
  refine
    { h with
      fits := ?_, registered := ?_, bounded := ?_, queued := ?_
      capacity := ?_ }
  · intro i c hc
    replace hc := (getElem?_map ..).symm.trans hc
    obtain ⟨call, hi, rfl⟩ := Option.map_eq_some_iff.mp hc
    have hfits := h.fits i call hi
    refine { hfits with marked := ?_, ended := ?_ }
    · intro hended
      rcases Bool.or_eq_true _ _ ▸ hended with hold | hnew
      · exact hfits.marked hold
      · exact (Bool.and_eq_true _ _ ▸ hnew).2
    · intro hended hslot
      rcases Bool.or_eq_true _ _ ▸ hended with hold | hnew
      · exact hfits.ended hold hslot
      · obtain ⟨hid, hadded⟩ := Bool.and_eq_true _ _ ▸ hnew
        by_contra hpending
        refine hslot (hsettled i call hi (of_decide_eq_true hid) ?_)
        exact isPending_of_unsettled hadded hpending
  · intro x i hi
    obtain ⟨call, hcall, hid, hadded⟩ := h.registered x i hi
    exact ⟨_, getElem?_markEnded id hcall, hid, hadded⟩
  · intro i hi
    exact Nat.lt_of_lt_of_eq (h.bounded i hi) (length_map _).symm
  · intro type queue hqueue x
    rw [h.queued type queue hqueue x]
    have hcount : (s.markEnded id).calls.countP (isQueued type x)
        = s.calls.countP (isQueued type x) := countP_map ..
    exact hcount.symm
  · intro type queue hqueue
    rw [h.capacity type queue hqueue]
    have hcount : (s.markEnded id).calls.countP (isLive type)
        = s.calls.countP (isLive type) := countP_map ..
    rw [hcount]
    rfl

theorem getElem?_settle (hpromise : promise ≠ .pending)
    {j : Nat} {c : AddCall} (hc : (s.settle i promise).calls[j]? = some c)
    (hpending : c.isPending = true) : i ≠ j ∧ s.calls[j]? = some c := by
  unfold ActiveExecutions.settle at hc
  rcases hi : s.calls[i]? with _ | call
  · rw [hi] at hc
    refine ⟨?_, hc⟩
    rintro rfl
    rw [Option.map_none] at hc
    rw [hi] at hc
    cases hc
  · rw [hi, Option.map_some] at hc
    rcases hstage : call.stage with _ | _ | _ | execution | _
    case added =>
      rw [hstage] at hc
      dsimp only at hc
      split at hc
      · obtain ⟨c', hold, rfl⟩ := getElem?_modify_some hc
        by_cases hij : i = j
        · rw [if_pos hij] at hpending
          simp [AddCall.isPending, hpromise] at hpending
        · rw [if_neg hij]
          exact ⟨hij, hold⟩
      · next hsettled =>
          refine ⟨?_, hc⟩
          rintro rfl
          rw [hi] at hc
          cases hc
          rw [AddCall.isPending, hstage] at hpending
          exact hsettled (of_decide_eq_true hpending)
    all_goals
      rw [hstage] at hc
      refine ⟨?_, hc⟩
      rintro rfl
      rw [show s.calls[i]? = some c from hc] at hi
      cases hi
      rw [AddCall.isPending, hstage] at hpending
      cases hpending

section

variable (h : Sound free s) (honly : OnlyActive s id)
include h honly

theorem Sound.settleMapped
    (hi : s.activeExecutions.get? id = some i) (hpromise : promise ≠ .pending) :
    Sound free ((s.settle i promise).markEnded id) := by
  refine (h.settle i hpromise).markEnded ?_
  intro j c hc hid hpending
  by_contra hslot
  obtain ⟨hne, hold⟩ := getElem?_settle hpromise hc hpending
  have hmapped := honly j c hold hid hpending hslot
  rw [hi] at hmapped
  cases hmapped
  exact hne rfl

theorem Sound.endUnmapped (hnone : s.activeExecutions.get? id = none) :
    Sound free (s.markEnded id) := by
  refine h.markEnded ?_
  intro j c hc hid hpending
  by_contra hslot
  have hmapped := honly j c hc hid hpending hslot
  rw [hnone] at hmapped
  cases hmapped

theorem Sound.finalizeExecution : Sound free (s.finalizeExecution id) := by
  unfold ActiveExecutions.finalizeExecution
  rcases hget : s.activeExecutions.get? id with _ | i
  · exact h.endUnmapped honly hget
  · exact h.settleMapped honly hget (by simp)

theorem Sound.stopExecution (hwaiting : ∀ i call, s.activeExecutions.get? id = some i →
      s.calls[i]? = some call → call.isPending = true → call.slot ≠ none →
        s.statusOf i ≠ some .waiting) :
    Sound free (s.stopExecution id) := by
  unfold ActiveExecutions.stopExecution
  rcases hget : s.activeExecutions.get? id with _ | i
  · exact h.endUnmapped honly hget
  · dsimp only
    split
    · next hstatus =>
        -- The execution that is only taken out of the map has no slot.
        refine (h.deleteExecution id).markEnded ?_
        intro j c hc hid hpending
        by_contra hslot
        have hmapped := honly j c hc hid hpending hslot
        rw [hget] at hmapped
        cases hmapped
        exact hwaiting i c hget hc hpending hslot hstatus
    · exact h.settleMapped honly hget (by simp)

end

/-! ## Releasing a slot -/

/-- The slot a call of the mode held is about to be given back. -/
def ActiveExecutions.freed (s : ActiveExecutions) (mode : ExecutionMode)
    (type : ConcurrencyQueueType) : Nat :=
  if s.slotOf mode = some type then 1 else 0

theorem Sound.exists_queued (h : Sound free s)
    (hqueue : s.concurrencyControl.queues type = some queue) (hid : id ∈ queue.queue) :
    ∃ i call, s.calls.findIdx? (isQueued type id) = some i
      ∧ s.calls[i]? = some call ∧ isQueued type id call = true := by
  have hcount := h.queued type queue hqueue id
  have hpos := count_pos_iff.mpr hid
  rw [hcount] at hpos
  obtain ⟨c, hc, hq⟩ := countP_pos_iff.mp hpos
  rcases hfind : s.calls.findIdx? (isQueued type id) with _ | i
  · rw [findIdx?_eq_none_iff] at hfind
    rw [hfind c hc] at hq
    cases hq
  · obtain ⟨hlt, hfound, -⟩ := findIdx?_eq_some_iff_getElem.mp hfind
    exact ⟨i, _, rfl, getElem?_eq_getElem hlt, hfound⟩

theorem resolveQueued_of_findIdx? (hfind : s.calls.findIdx? (isQueued type id) = some i) :
    s.resolveQueued type (some id) = s.updateCall i (AddCall.letThrough (some type)) := by
  simp [ActiveExecutions.resolveQueued, hfind]

/-- `release` hands the slot to the next call in the queue, or back. -/
theorem Sound.release (h : Sound (s.freed mode) s) : Sound settledUp (s.release mode) := by
  unfold ActiveExecutions.release
  rcases hlimited : s.limitedQueue mode with _ | ⟨type, queue⟩
  · have hnone : s.freed mode = settledUp := by
      funext t
      simp [ActiveExecutions.freed, ActiveExecutions.slotOf, hlimited, settledUp]
    rw [hnone] at h
    exact h
  · obtain ⟨henabled, htype, hqueue⟩ := limitedQueue_eq_some.mp hlimited
    have hfreed : ∀ t, s.freed mode t = if type = t then 1 else 0 := by
      intro t
      simp [ActiveExecutions.freed, ActiveExecutions.slotOf, hlimited]
    have hothers : ∀ t, t ≠ type → settledUp t = s.freed mode t := by
      intro t ht
      rw [hfreed, if_neg (Ne.symm ht)]
      rfl
    dsimp only
    rw [ConcurrencyQueue.dequeue, ConcurrencyQueue.resolveNext]
    rcases hids : queue.queue with _ | ⟨id, rest⟩
    · -- Nobody waits, and the capacity grows.
      refine h.replaceQueue hqueue hothers hids.symm ?_
      rw [hfreed, if_pos rfl]
      show queue.capacity + 1 + ((0 : Nat) : Int) = queue.capacity + 1
      omega
    · have hmem : id ∈ queue.queue := by simp [hids]
      obtain ⟨i, call, hfind, hi, hwaits⟩ := h.exists_queued hqueue hmem
      have hfits := h.fits i call hi
      simp only [isQueued, Bool.and_eq_true, decide_eq_true_eq] at hwaits
      obtain ⟨⟨hstage, hmode⟩, hid⟩ := hwaits
      have hslot : s.slotOf call.mode = some type :=
        slotOf_eq_some.mpr ⟨queue, limitedQueue_eq_some.mpr ⟨henabled, hmode, hqueue⟩⟩
      have hnone : call.slot = none := by
        rw [hfits.slot, hstage]
        rfl
      have hreleases := (hfits.unsettled (by rw [AddCall.isSettled, hstage])).1
      have hnot : call.stage.isAdded = false := by rw [hstage]; rfl
      have hthrough : Fits s.slotOf (i ∈ s.settled) (call.letThrough (some type)) :=
        hfits.advance hnot rfl hslot.symm (by simp [hid])
      have hfound : ∀ q, (s.setQueue type q).calls.findIdx?
          (isQueued type id) = some i := fun _ => hfind
      rw [resolveQueued_of_findIdx? (hfound _)]
      refine h.changeQueue hi hqueue hthrough (by simp [hnot]) ?_ ?_ ?_
      · intro t ht
        refine ⟨hothers t ht, ?_, fun x => ?_⟩
        · rw [isLive_of_slot_none hnone]
          simp [isLive, AddCall.letThrough, Ne.symm ht]
        · simp [isQueued, AddCall.letThrough, hmode, Ne.symm ht]
      · intro x
        by_cases hx : id = x <;>
          simp [isQueued, AddCall.letThrough, hstage, hmode, hid, hids, hx]
      · rw [isLive_of_slot_none hnone, hfreed, if_pos rfl, hids]
        simp [isLive, AddCall.letThrough, hreleases, AddStage.isFailed, settledUp]
        omega

/-- The `finally` of a settled promise. -/
theorem Sound.runFinally (h : Sound settledUp s) (hi : i ∈ s.settled) :
    Sound settledUp (s.runFinally i) := by
  obtain ⟨call, hcall⟩ : ∃ call, s.calls[i]? = some call :=
    ⟨_, getElem?_eq_getElem (h.bounded i hi)⟩
  have hfits := h.fits i call hcall
  obtain ⟨hsettled, hreleases⟩ := hfits.settling.mp hi
  have hstage : ∃ execution, call.stage = .added execution := by
    rw [AddCall.isSettled] at hsettled
    rcases hstage : call.stage with _ | _ | _ | execution | _
    case added => exact ⟨execution, rfl⟩
    all_goals
      rw [hstage] at hsettled
      cases hsettled
  obtain ⟨execution, hstage⟩ := hstage
  have hslot : call.slot = s.slotOf call.mode := by
    rw [hfits.slot, hstage]
    rfl
  let s₁ : ActiveExecutions :=
    { s with
      calls := s.calls.modify i fun call =>
        { call with releases := call.releases + 1 }
      settled := s.settled.erase i }
  have hgone : i ∉ s.settled.erase i := h.nodup.not_mem_erase
  have hgiven : Sound (s₁.freed call.mode) s₁ := by
    refine h.changeCall hcall rfl rfl rfl ?_ (h.nodup.erase i) ?_ ?_ ?_ ?_
    · intro j hj
      exact mem_erase_of_ne hj
    · refine { hfits with settling := ?_, once := ?_ }
      · constructor
        · intro hmem
          exact absurd hmem hgone
        · rintro ⟨-, hzero⟩
          cases hzero
      · show call.releases + 1 ≤ if call.isSettled then 1 else 0
        rw [hsettled, hreleases]
        exact Nat.le_refl 1
    · intro type
      show _ + (if s.slotOf call.mode = some type then 1 else 0) = _
      rw [← hslot]
      simp only [isLive, hreleases, hstage, AddStage.isFailed, settledUp]
      by_cases htype : call.slot = some type <;> simp [htype]
    · intro type id
      rfl
    · intro id j hj
      exact h.registered_modify hcall (fun hadded => ⟨rfl, hadded⟩) hj
  have hreleased := hgiven.release
  unfold ActiveExecutions.runFinally
  dsimp only
  rw [hcall]
  dsimp only
  rcases call.executionId with _ | id
  · exact hreleased
  · dsimp only
    split
    · exact hreleased
    · exact hreleased.deleteExecution id

/-! ## Runs -/

theorem Sound.next {e : Event} (h : Sound settledUp s) (henabled : Enabled s e)
    (hkeeps : KeepsSlots s e) : Sound settledUp (next s e) := by
  cases e with
  | add mode executionId => exact h.add mode executionId
  | created j result =>
    obtain ⟨c, hc, hstage⟩ := henabled
    exact h.created hc hstage result
  | updated j result =>
    obtain ⟨c, hc, hstage, -⟩ := henabled
    exact h.updated hc hstage (hkeeps c hc)
  | setStatus id status => exact h.setStatus id status
  | finalizeExecution id => exact h.finalizeExecution hkeeps
  | stopExecution id => exact h.stopExecution hkeeps.1 hkeeps.2
  | settled j => exact h.runFinally henabled

theorem Sound.loses_slot (h : Sound settledUp s) (hi : s.calls[i]? = some call)
    (hstage : call.stage = .updating) (hslot : call.slot ≠ none) {result : Except String Bool}
    (hresult : result ≠ .ok true) : ¬ SlotsReleased (s.updated i result) := by
  intro hreleased
  have hfits := h.fits i call hi
  obtain ⟨type, htype⟩ := Option.ne_none_iff_exists'.mp hslot
  have hneeds : s.slotOf call.mode = some type := by
    rw [← htype, hfits.slot, hstage]
    rfl
  obtain ⟨queue, hlimited⟩ := slotOf_eq_some.mp hneeds
  obtain ⟨-, -, hqueue⟩ := limitedQueue_eq_some.mp hlimited
  have hfails : ∃ error, s.updated i result = s.fail i error := by
    obtain ⟨id, hid⟩ := Option.ne_none_iff_exists'.mp (hfits.identified hstage)
    unfold ActiveExecutions.updated
    rw [hi, Option.bind_some, hid]
    rcases result with message | ⟨_ | _⟩
    · exact ⟨_, rfl⟩
    · exact ⟨_, rfl⟩
    · exact absurd rfl hresult
  obtain ⟨error, hfail⟩ := hfails
  rw [hfail] at hreleased
  have hreleases := (hfits.unsettled (by rw [AddCall.isSettled, hstage])).1
  have hcapacity := h.capacity type queue hqueue
  have hlost := hreleased.capacity type queue hqueue
  have hcount := countP_modify (isLive type) (fun call => { call with stage := .failed error }) hi
  have hlive : isLive type call = true := by
    simp [isLive, htype, hreleases, hstage, AddStage.isFailed]
  have hdead : isLive type { call with stage := .failed error } = false := by
    simp [isLive, AddStage.isFailed]
  rw [hlive, hdead] at hcount
  replace hlost : queue.capacity = s.concurrencyControl.limits type
      - queue.queue.length - (s.calls.modify i fun call =>
        { call with stage := .failed error }).countP (isLive type) := hlost
  simp only [Bool.toNat_true, Bool.toNat_false] at hcount
  omega

theorem not_slotsReleased_of_marked (hi : s.calls[i]? = some call)
    (hid : call.executionId = some id) (hadded : call.stage.isAdded = true)
    (hslot : call.slot ≠ none) (hreleases : call.releases = 0) (hsettled : i ∉ s.settled) :
    ¬ SlotsReleased (s.markEnded id) := by
  intro hreleased
  have hended := hreleased.ended i _ (getElem?_markEnded id hi) (by simp [hid, hadded]) hslot
  rcases hended with hone | hmem
  · rw [hreleases] at hone
    cases hone
  · exact hsettled hmem

theorem settle_other (i : Nat) (promise : PostExecutePromise) {j : Nat} (hne : i ≠ j) :
    (s.settle i promise).calls[j]? = s.calls[j]?
      ∧ (j ∈ (s.settle i promise).settled → j ∈ s.settled) := by
  unfold ActiveExecutions.settle
  split
  · split
    · constructor
      · show (s.calls.modify i _)[j]? = _
        simp [hne]
      · intro hmem
        rcases mem_append.mp hmem with hold | hnew
        · exact hold
        · exact absurd (mem_singleton.mp hnew).symm hne
    · exact ⟨rfl, fun hmem => hmem⟩
  · exact ⟨rfl, fun hmem => hmem⟩

theorem Fits.pending (h : Fits slotOf settling call) (hpending : call.isPending = true) :
    call.stage.isAdded = true ∧ call.releases = 0 ∧ ¬ settling := by
  rcases hstage : call.stage with _ | _ | _ | execution | _
  case added =>
    refine ⟨rfl, h.unsettled ?_⟩
    rw [AddCall.isPending, hstage] at hpending
    simpa [AddCall.isSettled, hstage] using hpending
  all_goals
    rw [AddCall.isPending, hstage] at hpending
    cases hpending

theorem Sound.leaves_slot (h : Sound settledUp s) (hleft : ¬ OnlyActive s id) :
    ¬ SlotsReleased (s.finalizeExecution id) ∧ ¬ SlotsReleased (s.stopExecution id) := by
  simp only [OnlyActive, not_forall] at hleft
  obtain ⟨j, c, hc, hid, hpending, hslot, hother⟩ := hleft
  obtain ⟨hadded, hreleases, hsettled⟩ := (h.fits j c hc).pending hpending
  have hlost : ∀ s' : ActiveExecutions, s'.calls[j]? = s.calls[j]? →
      (j ∈ s'.settled → j ∈ s.settled) → ¬ SlotsReleased (s'.markEnded id) := by
    intro s' hcalls hmem
    exact not_slotsReleased_of_marked (hcalls.trans hc) hid hadded hslot
      hreleases fun hj => hsettled (hmem hj)
  unfold ActiveExecutions.finalizeExecution ActiveExecutions.stopExecution
  rcases hget : s.activeExecutions.get? id with _ | i
  · exact ⟨hlost s rfl fun hj => hj, hlost s rfl fun hj => hj⟩
  · have hne : i ≠ j := by
      rintro rfl
      exact hother hget
    have hsettle : ∀ promise, ¬ SlotsReleased ((s.settle i promise).markEnded id) := by
      intro promise
      obtain ⟨hcalls, hmem⟩ := settle_other i promise hne
      exact hlost _ hcalls hmem
    refine ⟨hsettle _, ?_⟩
    dsimp only
    split
    · exact hlost _ rfl fun hj => hj
    · exact hsettle _

theorem Sound.bad_step {e : Event} (h : Sound settledUp s)
    (henabled : Enabled s e) (hbad : ¬ KeepsSlots s e) :
    ¬ SlotsReleased (N8nActiveExecutions.next s e) := by
  cases e with
  | updated j result =>
    obtain ⟨c, hc, hstage, -⟩ := henabled
    simp only [KeepsSlots, not_forall] at hbad
    obtain ⟨c', hc', hslot, hresult⟩ := hbad
    rw [hc] at hc'
    cases hc'
    exact h.loses_slot hc hstage hslot hresult
  | finalizeExecution id => exact (h.leaves_slot hbad).1
  | stopExecution id =>
    by_cases honly : OnlyActive s id
    · simp only [KeepsSlots, honly, true_and, not_forall] at hbad
      obtain ⟨j, c, hget, hc, hpending, hslot, hstatus⟩ := hbad
      rw [not_not] at hstatus
      obtain ⟨hadded, hreleases, hsettled⟩ := (h.fits j c hc).pending hpending
      obtain ⟨c', hc', hid, -⟩ := h.registered id j hget
      rw [hc] at hc'
      cases hc'
      show ¬ SlotsReleased (s.stopExecution id)
      unfold ActiveExecutions.stopExecution
      rw [hget]
      dsimp only
      rw [if_pos hstatus]
      exact not_slotsReleased_of_marked hc hid hadded hslot hreleases hsettled
    · exact (h.leaves_slot honly).2
  | _ => exact absurd trivial hbad

end

theorem service_new {p q : Int} {queueMode : Bool} {service : ConcurrencyControlService}
    (h : ConcurrencyControlService.new p q queueMode = .ok service) :
    (∀ type queue, service.queues type = some queue → queue = .new (service.limits type))
      ∧ (queueMode = true → service.isEnabled = false) := by
  unfold ConcurrencyControlService.new at h
  split at h
  · cases h
  · split at h
    · cases h
    · dsimp only at h
      split at h
      · cases h
        refine ⟨?_, fun _ => rfl⟩
        intro type queue hqueue
        cases hqueue
      · next henabled =>
          cases h
          refine ⟨?_, fun hmode => absurd (.inr hmode) henabled⟩
          intro type queue hqueue
          dsimp only at hqueue
          split at hqueue
          · exact (Option.some.inj hqueue).symm
          · cases hqueue

theorem sound_new {p q : Int} {regular : Bool} {service : ConcurrencyControlService}
    (h : ConcurrencyControlService.new p q (!regular) = .ok service) :
    Sound settledUp (.new regular service) := by
  refine
    { fits := ?_, registered := ?_, nodup := nodup_nil
      bounded := ?_, queued := ?_, capacity := ?_, regular := ?_ }
  · intro i call hi
    cases hi
  · intro id i hi
    cases hi
  · intro i hi
    cases hi
  · intro type queue hqueue id
    rw [(service_new h).1 type queue hqueue]
    rfl
  · intro type queue hqueue
    rw [(service_new h).1 type queue hqueue]
    simp [ActiveExecutions.new, settledUp, ConcurrencyQueue.new]
  · rintro rfl
    exact (service_new h).2 rfl

/-- **RELEASE OF CONCURRENCY SLOTS**: along a run from a fresh service, every
    slot is released once, when its execution has ended, and a call of `add`
    that throws leaves the capacity as it was, exactly when no call throws
    with its slot in hand, and no execution that is finalized or cancelled
    is left waiting or was pushed out of the map. -/
theorem slotsReleased_iff_keepsSlots {p q : Int} {regular : Bool}
    {service : ConcurrencyControlService}
    (hnew : ConcurrencyControlService.new p q (!regular) = .ok service)
    {path : List (Event × ActiveExecutions)}
    (hrun : IsRun Step (.new regular service) path) :
    EveryState SlotsReleased (.new regular service) path
      ↔ EveryStep KeepsSlots (.new regular service) path := by
  refine everyState_iff_everyStep hrun (sound_new hnew) (fun s h => h.slotsReleased) ?_ ?_
  · rintro s e t hsound ⟨henabled, rfl⟩ hkeeps
    exact hsound.next henabled hkeeps
  · rintro s e t hsound ⟨henabled, rfl⟩ hbad
    exact hsound.bad_step henabled hbad

/-- With a production limit of one: a new execution is let through, runs,
    and gives its slot back when it is finalized. -/
theorem slotsReleased_of_finalizeExecution :
    ∃ (service : ConcurrencyControlService) (path : List (Event × ActiveExecutions)),
      ConcurrencyControlService.new 1 (-1) (!true) = .ok service ∧
      path = pathOf next (.new true service)
        [.add .webhook none, .created 0 (.ok "1"), .updated 0 (.ok true),
          .finalizeExecution "1", .settled 0] ∧
      EveryState SlotsReleased (.new true service) path := by
  refine ⟨_, _, rfl, rfl, ?_⟩
  refine (slotsReleased_iff_keepsSlots
    (show ConcurrencyControlService.new 1 (-1) (!true) = .ok _ from rfl)
    ?_).mpr ⟨trivial, trivial, fun _ _ _ => rfl, ?_, trivial, trivial⟩
  · exact ⟨⟨trivial, rfl⟩, ⟨⟨_, rfl, rfl⟩, rfl⟩,
      ⟨⟨_, rfl, rfl, by simp⟩, rfl⟩, ⟨trivial, rfl⟩, ⟨mem_cons_self .., rfl⟩, trivial⟩
  · intro i call hi _ _ _
    rcases i with _ | i
    · rfl
    · cases hi

/-- With a production limit of one: an execution that another process has
    resumed already takes the only slot along when `add` throws. -/
theorem alreadyResuming_keeps_slot :
    ∃ (service : ConcurrencyControlService) (path : List (Event × ActiveExecutions)),
      ConcurrencyControlService.new 1 (-1) (!true) = .ok service ∧
      path = pathOf next (.new true service) [.add .webhook (some "1"), .updated 0 (.ok false)] ∧
      IsRun Step (.new true service) path ∧
      (lastState (.new true service) path).calls.map AddCall.stage
        = [.failed (.alreadyResuming "1")] ∧ service.queues .production = some ⟨1, []⟩ ∧
      (lastState (.new true service) path).concurrencyControl.queues .production = some ⟨0, []⟩ ∧
      ¬ EveryState SlotsReleased (.new true service) path := by
  refine ⟨_, _, rfl, rfl, ⟨⟨trivial, rfl⟩,
    ⟨⟨_, rfl, rfl, by decide⟩, rfl⟩, trivial⟩, by decide, by decide, by decide, ?_⟩
  intro hall
  have hcapacity := hall.last.capacity .production ⟨0, []⟩ (by decide)
  exact absurd hcapacity (by decide)

end N8nActiveExecutions
