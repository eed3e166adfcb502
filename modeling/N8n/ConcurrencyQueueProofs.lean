import Mathlib.Data.List.Basic
import N8n.RunProofs

/-! # The production concurrency limit

    `ConcurrencyQueue` keeps a counter `capacity` and a FIFO of throttled
    executions; `ConcurrencyControlService` owns one queue per limited kind
    of execution.  The counter always accounts for both groups:
    `capacity = limit - running - queued`.

    The limit itself rests on `resolveNext` being called only when a running
    execution has ended.  `dequeue` does that, but `remove` calls it too:
    taking a *waiting* execution out of the queue wakes the next waiting one
    although no slot became free.  So the limit holds along a run exactly
    when no step removes a queued execution that others queue with. -/

namespace N8nConcurrencyQueue

open N8nRun List

abbrev ExecutionId := String

/-! ## The queue -/

/-- The state of one `ConcurrencyQueue`; a queued `resolve` callback is
    represented by the execution it lets through. -/
structure ConcurrencyQueue where
  capacity : Int
  queue : List ExecutionId
deriving DecidableEq

/-- The queue after a call, and the execution the call lets through: the
    caller of `enqueue` itself, or the one whose promise gets resolved. -/
structure QueueResult where
  queue : ConcurrencyQueue
  released : Option ExecutionId

namespace ConcurrencyQueue

/-- `new ConcurrencyQueue(capacity)`. -/
def new (capacity : Int) : ConcurrencyQueue := { capacity, queue := [] }

/-- Resolve the promise of the execution at the head of the queue. -/
def resolveNext (q : ConcurrencyQueue) : QueueResult :=
  match q.queue with
  | [] => { queue := q, released := none }
  | executionId :: rest =>
    { queue := { q with queue := rest }, released := some executionId }

/-- `enqueue` returns at once while capacity is left; otherwise it returns a
    promise that stays pending in the queue. -/
def enqueue (q : ConcurrencyQueue) (executionId : ExecutionId) : QueueResult :=
  let capacity := q.capacity - 1
  if capacity < 0 then
    { queue := { capacity, queue := q.queue ++ [executionId] }
      released := none }
  else
    { queue := { q with capacity }, released := some executionId }

def dequeue (q : ConcurrencyQueue) : QueueResult :=
  resolveNext { q with capacity := q.capacity + 1 }

/-- `remove` splices the first entry of the execution out of the queue and
    gives its capacity back; an unknown id changes nothing. -/
def remove (q : ConcurrencyQueue) (executionId : ExecutionId) : QueueResult :=
  if executionId ∈ q.queue then
    resolveNext
      { capacity := q.capacity + 1, queue := q.queue.erase executionId }
  else { queue := q, released := none }

/-- The ids in the queue, each once, in queue order (a JavaScript `Set`). -/
def getAll (q : ConcurrencyQueue) : List ExecutionId := q.queue.eraseDups

def has (q : ConcurrencyQueue) (executionId : ExecutionId) : Bool := q.queue.contains executionId

end ConcurrencyQueue

/-! ## The service -/

inductive ConcurrencyQueueType where
  | production
  | evaluation
deriving DecidableEq

inductive ExecutionMode where
  | cli | error | integrated | internal | manual | retry
  | trigger | webhook | chat | evaluation
deriving DecidableEq

/-- `this.limits` and `this.queues` are keyed by the kind of execution; a
    kind without a limit has no queue. -/
structure ConcurrencyControlService where
  isEnabled : Bool
  limits : ConcurrencyQueueType → Int
  queues : ConcurrencyQueueType → Option ConcurrencyQueue

/-- Raised by the constructor when a limit is zero. -/
structure InvalidConcurrencyLimitError where
  limit : Int

namespace ConcurrencyControlService

/-- A limit below `-1` is read as `-1`, which means unlimited. -/
def normalizeLimit (limit : Int) : Int := if limit < -1 then -1 else limit

/-- `this.limits` after normalisation. -/
def configuredLimits (productionLimit evaluationLimit : Int) :
    ConcurrencyQueueType → Int
  | .production => normalizeLimit productionLimit
  | .evaluation => normalizeLimit evaluationLimit

/-- The constructor: zero is refused, and nothing is limited in queue mode
    or when both limits are `-1`. -/
def new (productionLimit evaluationLimit : Int) (queueMode : Bool) :
    Except InvalidConcurrencyLimitError ConcurrencyControlService :=
  if productionLimit = 0 then .error ⟨productionLimit⟩
  else if evaluationLimit = 0 then .error ⟨evaluationLimit⟩
  else
    let limits := configuredLimits productionLimit evaluationLimit
    if (limits .production = -1 ∧ limits .evaluation = -1) ∨ queueMode then
      .ok { isEnabled := false, limits, queues := fun _ => none }
    else
      .ok { isEnabled := true, limits
            queues := fun type =>
              if 0 < limits type then some (.new (limits type)) else none }

/-- The kind of queue an execution mode is counted in. -/
def queueTypeOf : ExecutionMode → Option ConcurrencyQueueType
  | .error | .integrated | .cli | .internal | .manual | .retry => none
  | .webhook | .trigger | .chat => some .production
  | .evaluation => some .evaluation

/-- `getQueue(mode)`, with the kind under which the queue is stored. -/
def getQueue (svc : ConcurrencyControlService) (mode : ExecutionMode) :
    Option (ConcurrencyQueueType × ConcurrencyQueue) := do
  let type ← queueTypeOf mode
  let queue ← svc.queues type
  return (type, queue)

def isUnlimited (svc : ConcurrencyControlService) (mode : ExecutionMode) : Bool :=
  (svc.getQueue mode).isNone

def has (svc : ConcurrencyControlService) (executionId : ExecutionId) : Bool :=
  svc.isEnabled && [ConcurrencyQueueType.production, .evaluation].any fun type =>
      match svc.queues type with
      | some queue => queue.has executionId
      | none => false

/-- Store the queue of one kind back. -/
def setQueue (svc : ConcurrencyControlService) (type : ConcurrencyQueueType)
    (queue : ConcurrencyQueue) : ConcurrencyControlService :=
  { svc with queues := Function.update svc.queues type (some queue) }

end ConcurrencyControlService

/-! ## The service and the executions it has let through -/

/-- The service together with what its callers see: for every kind, the
    executions that were let through and have not been released. -/
structure World where
  service : ConcurrencyControlService
  running : ConcurrencyQueueType → List ExecutionId

namespace World

/-- The queue that counts `mode`, unless the service is disabled or the mode
    unlimited (in both cases every method returns at once). -/
def limitedQueue (w : World) (mode : ExecutionMode) :
    Option (ConcurrencyQueueType × ConcurrencyQueue) :=
  if w.service.isEnabled then w.service.getQueue mode else none

/-- Record the outcome of a queue call: the queue, and an execution whose
    promise resolved as running. -/
def settle (w : World) (type : ConcurrencyQueueType) (r : QueueResult) : World :=
  { service := w.service.setQueue type r.queue
    running := Function.update w.running type
      (w.running type ++ r.released.toList) }

/-- `throttle({ mode, executionId })`. -/
def throttle (w : World) (mode : ExecutionMode) (id : ExecutionId) : World :=
  match w.limitedQueue mode with
  | some (type, queue) => w.settle type (queue.enqueue id)
  | none => w

/-- `release({ mode })`, called when the running execution `id` has ended. -/
def release (w : World) (mode : ExecutionMode) (id : ExecutionId) : World :=
  match w.limitedQueue mode with
  | some (type, queue) =>
    let running := Function.update w.running type ((w.running type).erase id)
    { w with running }.settle type queue.dequeue
  | none => w

/-- `remove({ mode, executionId })`. -/
def remove (w : World) (mode : ExecutionMode) (id : ExecutionId) : World :=
  match w.limitedQueue mode with
  | some (type, queue) => w.settle type (queue.remove id)
  | none => w

/-- `queue.remove(id)` for every id of a list, on the queue of one kind. -/
def removeEach (w : World) (type : ConcurrencyQueueType) :
    List ExecutionId → World
  | [] => w
  | id :: rest =>
    match w.service.queues type with
    | some queue => removeEach (w.settle type (queue.remove id)) type rest
    | none => w

/-- The loop body of `removeAll` for one kind. -/
def removeQueued (w : World) (type : ConcurrencyQueueType) : World :=
  match w.service.queues type with
  | some queue => w.removeEach type queue.getAll
  | none => w

/-- `removeAll`: empty the queues.  Cancelling the given executions in the
    database does not touch them. -/
def removeAll (w : World) : World :=
  if w.service.isEnabled then
    (w.removeQueued .production).removeQueued .evaluation
  else w

end World

/-- The calls made by the service. -/
inductive Event where
  | throttle (mode : ExecutionMode) (id : ExecutionId)
  | release (mode : ExecutionMode) (id : ExecutionId)
  | remove (mode : ExecutionMode) (id : ExecutionId)
  | removeAll

/-- The effect of one call. -/
def World.perform (w : World) : Event → World
  | .throttle mode id => w.throttle mode id
  | .release mode id => w.release mode id
  | .remove mode id => w.remove mode id
  | .removeAll => w.removeAll

/-- A slot is given back only by an execution that is running. -/
def World.Possible (w : World) : Event → Prop
  | .release mode id =>
    ∀ type queue, w.limitedQueue mode = some (type, queue) → id ∈ w.running type
  | _ => True

/-- One call. -/
def Step (w : World) (e : Event) (w' : World) : Prop := w.Possible e ∧ w' = w.perform e

/-- The service right after its construction, with nothing running. -/
def World.start (svc : ConcurrencyControlService) : World :=
  { service := svc, running := fun _ => [] }

/-! ## The accounting of one queue -/

/-- A queue with limit `limit` and the given running executions is balanced:
    the limit is kept, the counter accounts for running and queued
    executions, and nobody waits while a slot is free. -/
structure Balanced (limit : Int) (running : List ExecutionId)
    (q : ConcurrencyQueue) : Prop where
  within : (running.length : Int) ≤ limit
  accounted : q.capacity = limit - running.length - q.queue.length
  saturated : q.queue ≠ [] → (running.length : Int) = limit

namespace ConcurrencyQueue

@[simp] theorem resolveNext_nil (capacity : Int) :
    resolveNext { capacity, queue := [] }
      = { queue := { capacity, queue := [] }, released := none } := rfl

@[simp] theorem resolveNext_cons (capacity : Int) (id : ExecutionId) (rest : List ExecutionId) :
    resolveNext { capacity, queue := id :: rest }
      = { queue := { capacity, queue := rest }, released := some id } := rfl

variable {q : ConcurrencyQueue} {limit : Int} {running : List ExecutionId}

theorem resolveNext_accounted (h : q.capacity = limit - running.length - q.queue.length) :
    q.resolveNext.queue.capacity
      = limit - (running ++ q.resolveNext.released.toList).length
        - q.resolveNext.queue.queue.length := by
  obtain ⟨capacity, queue⟩ := q
  cases queue with
  | nil => simpa using h
  | cons id rest =>
    simp only [resolveNext_cons, Option.toList_some, length_append, length_cons, length_nil] at h ⊢
    omega

theorem resolveNext_balanced (hwithin : (running.length : Int) ≤ limit)
    (hacc : q.capacity = limit - running.length - q.queue.length)
    (hfree : q.queue ≠ [] → (running.length : Int) + 1 = limit) :
    Balanced limit (running ++ q.resolveNext.released.toList) q.resolveNext.queue := by
  refine ⟨?_, resolveNext_accounted hacc, ?_⟩
  all_goals obtain ⟨capacity, queue⟩ := q
  · cases queue with
    | nil => simpa using hwithin
    | cons id rest =>
      have := hfree (cons_ne_nil id rest)
      simp only [resolveNext_cons, Option.toList_some, length_append, length_cons, length_nil]
      omega
  · cases queue with
    | nil => intro hne; exact absurd rfl hne
    | cons id rest =>
      have := hfree (cons_ne_nil id rest)
      intro _
      simp only [resolveNext_cons, Option.toList_some, length_append, length_cons, length_nil]
      omega

theorem enqueue_accounted (id : ExecutionId)
    (h : q.capacity = limit - running.length - q.queue.length) :
    (q.enqueue id).queue.capacity
      = limit - (running ++ (q.enqueue id).released.toList).length
        - (q.enqueue id).queue.queue.length := by
  unfold enqueue
  by_cases hneg : q.capacity - 1 < 0
  · simp only [if_pos hneg, Option.toList_none, append_nil, length_append, length_cons, length_nil]
    omega
  · simp only [if_neg hneg, Option.toList_some, length_append, length_cons, length_nil]
    omega

theorem enqueue_balanced (id : ExecutionId) (h : Balanced limit running q) :
    Balanced limit (running ++ (q.enqueue id).released.toList) (q.enqueue id).queue := by
  have hacc := h.accounted
  have hwithin := h.within
  refine ⟨?_, enqueue_accounted id hacc, ?_⟩ <;> unfold enqueue
  · by_cases hneg : q.capacity - 1 < 0
    · simpa only [if_pos hneg, Option.toList_none, append_nil] using hwithin
    · simp only [if_neg hneg, Option.toList_some, length_append, length_cons, length_nil]
      omega
  · by_cases hneg : q.capacity - 1 < 0
    · simp only [if_pos hneg, Option.toList_none, append_nil]
      intro _
      by_cases hq : q.queue = []
      · rw [hq] at hacc
        simp only [length_nil] at hacc
        omega
      · exact h.saturated hq
    · simp only [if_neg hneg]
      intro hq
      -- somebody queued means the limit is reached, so no slot was free
      have hsat := h.saturated hq
      omega

variable {id : ExecutionId}

theorem dequeue_balanced (hid : id ∈ running) (h : Balanced limit running q) :
    Balanced limit (running.erase id ++ q.dequeue.released.toList) q.dequeue.queue := by
  have hlen := length_erase_of_mem hid
  have hpos := length_pos_of_mem hid
  have hwithin := h.within
  have hacc := h.accounted
  refine resolveNext_balanced (by omega) ?_ ?_
  · show q.capacity + 1 = limit - (running.erase id).length - q.queue.length
    omega
  · intro hne
    have hsat := h.saturated hne
    omega

theorem remove_balanced (honly : id ∈ q.queue → q.queue.length ≤ 1) (h : Balanced limit running q) :
    Balanced limit (running ++ (q.remove id).released.toList) (q.remove id).queue := by
  unfold remove
  by_cases hid : id ∈ q.queue
  · rw [if_pos hid]
    have hlen := length_erase_of_mem hid
    have hpos := length_pos_of_mem hid
    have hacc := h.accounted
    have hone := honly hid
    refine resolveNext_balanced h.within ?_ ?_
    · show q.capacity + 1
        = limit - running.length - (q.queue.erase id).length
      omega
    · intro hne
      have hempty : q.queue.erase id = [] := eq_nil_of_length_eq_zero (by omega)
      exact absurd hempty hne
  · rw [if_neg hid]
    simpa using h

theorem remove_releases (hid : id ∈ q.queue) (hlen : 1 < q.queue.length) :
    (q.remove id).released.toList.length = 1 := by
  have herase := length_erase_of_mem hid
  unfold remove
  rw [if_pos hid]
  cases hq : q.queue.erase id with
  | nil =>
    rw [hq] at herase
    simp only [length_nil] at herase
    omega
  | cons next rest => rfl

end ConcurrencyQueue

/-! ## The service over whole runs -/

/-- A statement about limit, running executions and queue holds of every
    limited kind. -/
def ForEachQueue (P : Int → List ExecutionId → ConcurrencyQueue → Prop) (w : World) : Prop :=
  ∀ type q, w.service.queues type = some q → P (w.service.limits type) (w.running type) q

/-- The counter is the limit less the running and the queued executions. -/
def AccountedFor (limit : Int) (running : List ExecutionId) (q : ConcurrencyQueue) : Prop :=
  q.capacity = limit - running.length - q.queue.length

/-- At most `limit` executions run, and the counter accounts for them. -/
def WithinLimit (limit : Int) (running : List ExecutionId) (q : ConcurrencyQueue) : Prop :=
  (running.length : Int) ≤ limit ∧ AccountedFor limit running q

/-- The calls that wake nobody but the successor of an ended execution: a
    queued execution is removed only while it is the only one queued. -/
def WakesNobody (w : World) : Event → Prop
  | .remove mode id =>
    ∀ type q, w.limitedQueue mode = some (type, q) → id ∈ q.queue → q.queue.length ≤ 1
  | .removeAll =>
    w.service.isEnabled → ∀ type q, w.service.queues type = some q → q.queue.length ≤ 1
  | _ => True

theorem withinLimit_of_balanced {w : World} (h : ForEachQueue Balanced w) :
    ForEachQueue WithinLimit w := by
  intro type q hq
  exact ⟨(h type q hq).within, (h type q hq).accounted⟩

theorem start_balanced {productionLimit evaluationLimit : Int}
    {queueMode : Bool} {svc : ConcurrencyControlService}
    (h : ConcurrencyControlService.new productionLimit evaluationLimit
      queueMode = .ok svc) : ForEachQueue Balanced (.start svc) := by
  unfold ConcurrencyControlService.new at h
  by_cases hp : productionLimit = 0
  · rw [if_pos hp] at h
    cases h
  by_cases he : evaluationLimit = 0
  · rw [if_neg hp, if_pos he] at h
    cases h
  rw [if_neg hp, if_neg he] at h
  dsimp only at h
  split at h
  · cases h
    intro type q hq
    cases hq
  · cases h
    intro type q hq
    dsimp only [World.start] at hq ⊢
    split at hq
    · rename_i hpos
      cases hq
      refine ⟨?_, ?_, ?_⟩
      · simpa using Int.le_of_lt hpos
      · simp [ConcurrencyQueue.new]
      · intro hne
        exact absurd rfl hne
    · cases hq

namespace World

variable {q : ConcurrencyQueue} {type : ConcurrencyQueueType} {w : World}

theorem limitedQueue_some {mode : ExecutionMode} (h : w.limitedQueue mode = some (type, q)) :
    w.service.isEnabled = true ∧ w.service.queues type = some q := by
  unfold limitedQueue at h
  split at h
  · rename_i hen
    unfold ConcurrencyControlService.getQueue at h
    cases ht : ConcurrencyControlService.queueTypeOf mode with
    | none => rw [ht] at h; cases h
    | some type' =>
      cases hq : w.service.queues type' with
      | none => simp [ht, hq] at h
      | some q' =>
        simp [ht, hq] at h
        obtain ⟨rfl, rfl⟩ := h
        exact ⟨hen, hq⟩
  · cases h

section

variable (w : World) (type : ConcurrencyQueueType) (r : QueueResult)

@[simp] theorem settle_limits : (w.settle type r).service.limits = w.service.limits := rfl

@[simp] theorem settle_queues_self : (w.settle type r).service.queues type = some r.queue :=
  Function.update_self ..

end

variable {other : ConcurrencyQueueType}

theorem settle_queues_of_ne (w : World) (r : QueueResult) (h : other ≠ type) :
    (w.settle type r).service.queues other = w.service.queues other :=
  Function.update_of_ne h ..

@[simp] theorem settle_running_self (w : World) (type : ConcurrencyQueueType) (r : QueueResult) :
    (w.settle type r).running type = w.running type ++ r.released.toList :=
  Function.update_self ..

theorem settle_running_of_ne (w : World) (r : QueueResult) (h : other ≠ type) :
    (w.settle type r).running other = w.running other :=
  Function.update_of_ne h ..

theorem settle_forEach {r : QueueResult} {P : Int → List ExecutionId → ConcurrencyQueue → Prop}
    (hothers : ∀ other q, other ≠ type → w.service.queues other = some q →
      P (w.service.limits other) (w.running other) q)
    (hself : P (w.service.limits type) (w.running type ++ r.released.toList) r.queue) :
    ForEachQueue P (w.settle type r) := by
  intro other q hq
  by_cases hne : other = type
  · subst hne
    rw [settle_queues_self] at hq
    cases hq
    rw [settle_running_self, settle_limits]
    exact hself
  · rw [settle_queues_of_ne w r hne] at hq
    rw [settle_running_of_ne w r hne, settle_limits]
    exact hothers other q hne hq

section

variable {P : Int → List ExecutionId → ConcurrencyQueue → Prop}

theorem throttle_forEach (henqueue : ∀ limit running q id, P limit running q →
      P limit (running ++ (q.enqueue id).released.toList) (q.enqueue id).queue)
    {w : World} (mode : ExecutionMode) (id : ExecutionId)
    (h : ForEachQueue P w) : ForEachQueue P (w.throttle mode id) := by
  unfold throttle
  cases hq : w.limitedQueue mode with
  | none => exact h
  | some p =>
    obtain ⟨type, q⟩ := p
    have hsvc := (limitedQueue_some hq).2
    exact settle_forEach (fun other q _ hother => h other q hother)
      (henqueue _ _ _ id (h type q hsvc))

theorem release_forEach (hdequeue : ∀ limit running q id, id ∈ running → P limit running q →
      P limit (running.erase id ++ q.dequeue.released.toList) q.dequeue.queue)
    {w : World} {mode : ExecutionMode} {id : ExecutionId}
    (hrunning : ∀ type q, w.limitedQueue mode = some (type, q) → id ∈ w.running type)
    (h : ForEachQueue P w) : ForEachQueue P (w.release mode id) := by
  unfold release
  cases hq : w.limitedQueue mode with
  | none => exact h
  | some p =>
    obtain ⟨type, q⟩ := p
    have hsvc := (limitedQueue_some hq).2
    refine settle_forEach (fun other q hne hother => ?_) ?_
    · dsimp only
      rw [Function.update_of_ne hne]
      exact h other q hother
    · dsimp only
      rw [Function.update_self]
      exact hdequeue _ _ _ id (hrunning type q hq) (h type q hsvc)

theorem remove_forEach {w : World} {mode : ExecutionMode} {id : ExecutionId}
    (hremove : ∀ limit running type q, w.limitedQueue mode = some (type, q) →
      P limit running q → P limit (running ++ (q.remove id).released.toList) (q.remove id).queue)
    (h : ForEachQueue P w) : ForEachQueue P (w.remove mode id) := by
  unfold remove
  cases hq : w.limitedQueue mode with
  | none => exact h
  | some p =>
    obtain ⟨type, q⟩ := p
    have hsvc := (limitedQueue_some hq).2
    exact settle_forEach (fun other q _ hother => h other q hother)
      (hremove _ _ type q hq (h type q hsvc))

end

theorem removeEach_of_ne (hne : other ≠ type) :
    ∀ (ids : List ExecutionId) (w : World),
      (w.removeEach type ids).service.queues other = w.service.queues other ∧
      (w.removeEach type ids).running other = w.running other := by
  intro ids
  induction ids with
  | nil => intro w; exact ⟨rfl, rfl⟩
  | cons id rest ih =>
    intro w
    unfold removeEach
    cases hq : w.service.queues type with
    | none => exact ⟨rfl, rfl⟩
    | some q =>
      obtain ⟨h1, h2⟩ := ih (w.settle type (q.remove id))
      exact ⟨h1.trans (settle_queues_of_ne w _ hne), h2.trans (settle_running_of_ne w _ hne)⟩

theorem removeEach_running_le (type : ConcurrencyQueueType) :
    ∀ (ids : List ExecutionId) (w : World),
      (w.running type).length ≤ ((w.removeEach type ids).running type).length
        := by
  intro ids
  induction ids with
  | nil => intro w; exact Nat.le_refl _
  | cons id rest ih =>
    intro w
    unfold removeEach
    cases hq : w.service.queues type with
    | none => exact Nat.le_refl _
    | some q =>
      have h := ih (w.settle type (q.remove id))
      rw [settle_running_self, length_append] at h
      show _ ≤ ((removeEach (w.settle type (q.remove id)) type rest).running type).length
      omega

theorem removeEach_limits (type : ConcurrencyQueueType) :
    ∀ (ids : List ExecutionId) (w : World),
      (w.removeEach type ids).service.limits = w.service.limits := by
  intro ids
  induction ids with
  | nil => intro w; rfl
  | cons id rest ih =>
    intro w
    unfold removeEach
    cases w.service.queues type with
    | none => rfl
    | some q => exact ih (w.settle type (q.remove id))

theorem removeQueued_of_ne (w : World) (type other : ConcurrencyQueueType) (hne : other ≠ type) :
    (w.removeQueued type).service.queues other = w.service.queues other ∧
    (w.removeQueued type).running other = w.running other := by
  unfold removeQueued
  cases w.service.queues type with
  | none => exact ⟨rfl, rfl⟩
  | some q => exact removeEach_of_ne hne q.getAll w

theorem removeQueued_limits (w : World) (type : ConcurrencyQueueType) :
    (w.removeQueued type).service.limits = w.service.limits := by
  unfold removeQueued
  cases w.service.queues type with
  | none => rfl
  | some q => exact removeEach_limits type q.getAll w

theorem removeQueued_balanced (hshort : ∀ q, w.service.queues type = some q → q.queue.length ≤ 1)
    (h : ForEachQueue Balanced w) :
    ForEachQueue Balanced (w.removeQueued type) := by
  unfold removeQueued
  cases hq : w.service.queues type with
  | none => exact h
  | some q =>
    obtain ⟨capacity, queue⟩ := q
    match queue, hshort _ hq with
    | [], _ => exact h
    | [id], _ =>
      show ForEachQueue Balanced (removeEach w type [id])
      unfold removeEach
      rw [hq]
      exact settle_forEach (fun other q _ hother => h other q hother)
        (ConcurrencyQueue.remove_balanced (fun _ => hshort _ hq) (h type _ hq))

theorem removeQueued_overcommits (hq : w.service.queues type = some q)
    (hlong : 1 < q.queue.length) :
    (w.running type).length < ((w.removeQueued type).running type).length := by
  unfold removeQueued
  rw [hq]
  obtain ⟨capacity, queue⟩ := q
  match queue, hlong with
  | id :: next :: rest, hlong =>
    -- the head is the first id of the set, so it is removed first
    show _ < ((removeEach w type
      (ConcurrencyQueue.getAll ⟨capacity, id :: next :: rest⟩)).running type).length
    unfold ConcurrencyQueue.getAll
    rw [eraseDups_cons]
    unfold removeEach
    rw [hq]
    have hone := ConcurrencyQueue.remove_releases
      (q := ⟨capacity, id :: next :: rest⟩) (mem_cons_self ..) hlong
    have hle := removeEach_running_le type ((next :: rest).filter fun b => !b == id).eraseDups
      (w.settle type (ConcurrencyQueue.remove ⟨capacity, id :: next :: rest⟩ id))
    rw [settle_running_self, length_append, hone] at hle
    exact hle

theorem removeEach_queues_some (type other : ConcurrencyQueueType) :
    ∀ (ids : List ExecutionId) (w : World) (q : ConcurrencyQueue), w.service.queues other = some q →
      ∃ q', (w.removeEach type ids).service.queues other = some q' := by
  intro ids
  induction ids with
  | nil => intro w q hq; exact ⟨q, hq⟩
  | cons id rest ih =>
    intro w q hq
    unfold removeEach
    cases htype : w.service.queues type with
    | none => exact ⟨q, hq⟩
    | some q₀ =>
      by_cases hne : other = type
      · subst hne
        exact ih _ _ (settle_queues_self ..)
      · exact ih _ q ((settle_queues_of_ne w _ hne).trans hq)

theorem removeQueued_queues_some (w : World) (type : ConcurrencyQueueType)
    (hq : w.service.queues other = some q) :
    ∃ q', (w.removeQueued type).service.queues other = some q' := by
  unfold removeQueued
  cases w.service.queues type with
  | none => exact ⟨q, hq⟩
  | some q₀ => exact removeEach_queues_some type other q₀.getAll w q hq

theorem removeAll_overcommits (hen : w.service.isEnabled = true)
    (hq : w.service.queues type = some q) (hlong : 1 < q.queue.length) :
    (w.running type).length < (w.removeAll.running type).length := by
  unfold removeAll
  rw [if_pos hen]
  cases type with
  | production =>
    rw [(removeQueued_of_ne _ .evaluation .production (by decide)).2]
    exact removeQueued_overcommits hq hlong
  | evaluation =>
    obtain ⟨hqueue, hrunning⟩ := removeQueued_of_ne w .production .evaluation (by decide)
    rw [← hrunning]
    exact removeQueued_overcommits (hqueue.trans hq) hlong

end World

/-! ## One call -/

section

variable {e : Event} {w w' : World} (h : ForEachQueue Balanced w) (hst : Step w e w')
include h hst

theorem step_balanced (hwakes : WakesNobody w e) : ForEachQueue Balanced w' := by
  obtain ⟨hpossible, rfl⟩ := hst
  cases e with
  | throttle mode id =>
    exact World.throttle_forEach
      (fun _ _ _ id h => ConcurrencyQueue.enqueue_balanced id h) mode id h
  | release mode id =>
    exact World.release_forEach
      (fun _ _ _ _ hid h => ConcurrencyQueue.dequeue_balanced hid h) hpossible h
  | remove mode id =>
    exact World.remove_forEach
      (fun _ _ type q hq h =>
        ConcurrencyQueue.remove_balanced (hwakes type q hq) h) h
  | removeAll =>
    show ForEachQueue _ w.removeAll
    unfold World.removeAll
    by_cases hen : w.service.isEnabled = true
    · rw [if_pos hen]
      have hshort := hwakes hen
      refine World.removeQueued_balanced ?_ (World.removeQueued_balanced (hshort _) h)
      intro q hq
      rw [(World.removeQueued_of_ne w .production .evaluation (by decide)).1] at hq
      exact hshort _ q hq
    · rw [if_neg hen]
      exact h

theorem step_overcommits (hwakes : ¬ WakesNobody w e) : ¬ ForEachQueue WithinLimit w' := by
  obtain ⟨-, rfl⟩ := hst
  intro hkept
  cases e with
  | throttle mode id => exact hwakes trivial
  | release mode id => exact hwakes trivial
  | remove mode id =>
    refine hwakes ?_
    intro type q hq hid
    refine Decidable.byContradiction fun hlong => ?_
    have hsvc := (World.limitedQueue_some hq).2
    have hone := ConcurrencyQueue.remove_releases hid (by omega)
    have hsat := (h type q hsvc).saturated (ne_nil_of_mem hid)
    change ForEachQueue WithinLimit (w.remove mode id) at hkept
    unfold World.remove at hkept
    rw [hq] at hkept
    have hle := (hkept type _ (World.settle_queues_self ..)).1
    rw [World.settle_running_self, World.settle_limits, length_append, hone] at hle
    omega
  | removeAll =>
    refine hwakes ?_
    intro hen type q hq
    refine Decidable.byContradiction fun hlong => ?_
    have hsat := (h type q hq).saturated (by
      intro hnil
      rw [hnil] at hlong
      exact hlong (Nat.zero_le _))
    have hmore := World.removeAll_overcommits hen hq (by omega)
    obtain ⟨q₁, hq₁⟩ := World.removeQueued_queues_some w .production hq
    obtain ⟨q₂, hq₂⟩ := World.removeQueued_queues_some _ .evaluation hq₁
    change ForEachQueue WithinLimit w.removeAll at hkept
    unfold World.removeAll at hkept
    unfold World.removeAll at hmore
    rw [if_pos hen] at hkept hmore
    have hle := (hkept type q₂ hq₂).1
    rw [World.removeQueued_limits, World.removeQueued_limits] at hle
    omega

end

/-! ## Whole runs -/

/-- **THE CONCURRENCY LIMIT**: along a run the limit is kept exactly when no
    call removes a queued execution that others queue with. -/
theorem withinLimit_iff_wakesNobody {productionLimit evaluationLimit : Int}
    {queueMode : Bool} {svc : ConcurrencyControlService}
    (hnew : ConcurrencyControlService.new productionLimit evaluationLimit queueMode = .ok svc)
    {path : List (Event × World)} (hrun : IsRun Step (.start svc) path) :
    EveryState (ForEachQueue WithinLimit) (.start svc) path
      ↔ EveryStep WakesNobody (.start svc) path :=
  everyState_iff_everyStep hrun (start_balanced hnew) (fun _ h => withinLimit_of_balanced h)
    (fun _ _ _ h hst hwakes => step_balanced h hst hwakes)
    (fun _ _ _ h hst hwakes => step_overcommits h hst hwakes)

/-- With a production limit of one: the second execution waits for the first
    one's slot and the limit is kept throughout. -/
theorem withinLimit_of_release :
    ∃ (svc : ConcurrencyControlService) (path : List (Event × World)),
      ConcurrencyControlService.new 1 (-1) false = .ok svc ∧
      path = pathOf World.perform (.start svc)
        [.throttle .webhook "1", .throttle .trigger "2", .release .webhook "1"] ∧
      EveryState (ForEachQueue WithinLimit) (.start svc) path := by
  refine ⟨_, _, rfl, rfl, ?_⟩
  refine (withinLimit_iff_wakesNobody
    (show ConcurrencyControlService.new 1 (-1) false = .ok _ from rfl)
    ?_).mpr ⟨trivial, trivial, trivial, trivial⟩
  refine ⟨⟨trivial, rfl⟩, ⟨trivial, rfl⟩, ⟨?_, rfl⟩, trivial⟩
  intro type q hq
  cases hq
  decide

/-- With a production limit of one and three throttled executions, removing
    the second one starts the third while the first still runs. -/
theorem remove_exceeds_limit :
    ∃ (svc : ConcurrencyControlService) (path : List (Event × World)),
      ConcurrencyControlService.new 1 (-1) false = .ok svc ∧
      path = pathOf World.perform (.start svc)
        [.throttle .webhook "1", .throttle .webhook "2",
          .throttle .webhook "3", .remove .webhook "2"] ∧ IsRun Step (.start svc) path ∧
      (lastState (.start svc) path).running .production = ["1", "3"] ∧
      ¬ EveryState (ForEachQueue WithinLimit) (.start svc) path := by
  refine ⟨_, _, rfl, rfl, ⟨⟨trivial, rfl⟩, ⟨trivial, rfl⟩,
    ⟨trivial, rfl⟩, ⟨trivial, rfl⟩, trivial⟩, by decide, ?_⟩
  intro hall
  have hle := (hall.last .production ⟨-1, []⟩ (by decide)).1
  exact absurd hle (by decide)

/-! ## Nobody waits for a slot that is free -/

/-- The counter is right, and who queues finds the limit reached. -/
structure Served (limit : Int) (running : List ExecutionId) (q : ConcurrencyQueue) : Prop where
  accounted : AccountedFor limit running q
  busy : q.queue ≠ [] → limit ≤ running.length

section

variable {q : ConcurrencyQueue} {limit : Int} {running : List ExecutionId} {id : ExecutionId}

theorem served_resolveNext (hacc : AccountedFor limit running q)
    (hbusy : q.queue ≠ [] → limit ≤ running.length + 1) :
    Served limit (running ++ q.resolveNext.released.toList) q.resolveNext.queue := by
  refine ⟨ConcurrencyQueue.resolveNext_accounted hacc, ?_⟩
  obtain ⟨capacity, queue⟩ := q
  cases queue with
  | nil => exact fun hne => absurd rfl hne
  | cons id rest =>
    have := hbusy (cons_ne_nil id rest)
    intro _
    simp only [ConcurrencyQueue.resolveNext_cons, Option.toList_some, length_append, length_cons,
      length_nil]
    omega

variable (h : Served limit running q)
include h

theorem Served.parked (hq : q.queue ≠ []) (id : ExecutionId) :
    q.enqueue id = ⟨⟨q.capacity - 1, q.queue ++ [id]⟩, none⟩ := by
  have hacc : q.capacity = limit - running.length - q.queue.length := h.accounted
  have hbusy := h.busy hq
  exact if_pos (by omega)

theorem Served.enqueue (id : ExecutionId) :
    Served limit (running ++ (q.enqueue id).released.toList) (q.enqueue id).queue := by
  refine ⟨ConcurrencyQueue.enqueue_accounted id h.accounted, ?_⟩
  by_cases hq : q.queue = []
  · have hacc : q.capacity = limit - running.length - q.queue.length := h.accounted
    rw [ConcurrencyQueue.enqueue]
    split
    · intro _
      rw [hq, length_nil] at hacc
      simp only [Option.toList_none, append_nil]
      omega
    · exact fun hne => absurd hq hne
  · rw [h.parked hq, Option.toList_none, append_nil]
    exact fun _ => h.busy hq

theorem Served.dequeue (hid : id ∈ running) :
    Served limit (running.erase id ++ q.dequeue.released.toList) q.dequeue.queue := by
  have hlen := length_erase_of_mem hid
  have hpos := length_pos_of_mem hid
  have hacc : q.capacity = limit - running.length - q.queue.length := h.accounted
  refine served_resolveNext ?_ fun hne => ?_
  · show q.capacity + 1 = limit - (running.erase id).length - q.queue.length
    omega
  · have hbusy := h.busy hne
    omega

theorem Served.remove (id : ExecutionId) :
    Served limit (running ++ (q.remove id).released.toList) (q.remove id).queue := by
  rw [ConcurrencyQueue.remove]
  by_cases hid : id ∈ q.queue
  · have hlen := length_erase_of_mem hid
    have hpos := length_pos_of_mem hid
    have hacc : q.capacity = limit - running.length - q.queue.length := h.accounted
    have hbusy := h.busy (ne_nil_of_mem hid)
    rw [if_pos hid]
    refine served_resolveNext ?_ fun _ => by omega
    show q.capacity + 1 = limit - running.length - (q.queue.erase id).length
    omega
  · rw [if_neg hid, Option.toList_none, append_nil]
    exact h

end

theorem served_removeEach (type : ConcurrencyQueueType) (ids : List ExecutionId) {w : World}
    (h : ForEachQueue Served w) : ForEachQueue Served (w.removeEach type ids) := by
  induction ids generalizing w with
  | nil => exact h
  | cons id rest ih =>
    rw [World.removeEach]
    split
    · next q hq =>
      exact ih (World.settle_forEach (fun other q _ hother => h other q hother)
        ((h type q hq).remove id))
    · exact h

theorem served_removeQueued (type : ConcurrencyQueueType) {w : World}
    (h : ForEachQueue Served w) : ForEachQueue Served (w.removeQueued type) := by
  rw [World.removeQueued]
  split
  · exact served_removeEach type _ h
  · exact h

theorem served_step {e : Event} {w w' : World} (h : ForEachQueue Served w) (hst : Step w e w') :
    ForEachQueue Served w' := by
  obtain ⟨hpossible, rfl⟩ := hst
  cases e with
  | throttle mode id =>
    exact World.throttle_forEach (fun _ _ _ id h => h.enqueue id) mode id h
  | release mode id =>
    exact World.release_forEach (fun _ _ _ _ hid h => h.dequeue hid) hpossible h
  | remove mode id => exact World.remove_forEach (fun _ _ _ _ _ h => h.remove id) h
  | removeAll =>
    show ForEachQueue Served w.removeAll
    rw [World.removeAll]
    split
    · exact served_removeQueued _ (served_removeQueued _ h)
    · exact h

/-- **NO IDLE SLOT**: whatever is removed, in every run an execution queues
    only while the limit is reached, and who comes then queues behind it. -/
theorem queued_of_busy {productionLimit evaluationLimit : Int} {queueMode : Bool}
    {svc : ConcurrencyControlService}
    (hnew : ConcurrencyControlService.new productionLimit evaluationLimit queueMode = .ok svc)
    {path : List (Event × World)} (hrun : IsRun Step (.start svc) path) :
    EveryState (ForEachQueue fun limit running q => q.queue ≠ [] →
      limit ≤ running.length
        ∧ ∀ id, q.enqueue id = ⟨⟨q.capacity - 1, q.queue ++ [id]⟩, none⟩) (.start svc) path := by
  have hstart : ForEachQueue Served (.start svc) := fun type q hq =>
    have hbalanced := start_balanced hnew type q hq
    ⟨hbalanced.accounted, fun hne => Int.le_of_eq (hbalanced.saturated hne).symm⟩
  exact (everyState_of_preserved hrun hstart fun _ _ _ h hst => served_step h hst).mono
    fun w h type q hq hne => ⟨(h type q hq).busy hne, (h type q hq).parked hne⟩

theorem queued_of_busy_throttled : ∃ svc, ConcurrencyControlService.new 1 (-1) false = .ok svc ∧
    EveryState (ForEachQueue fun limit running q => q.queue ≠ [] →
      limit ≤ running.length
        ∧ ∀ id, q.enqueue id = ⟨⟨q.capacity - 1, q.queue ++ [id]⟩, none⟩) (.start svc)
      (pathOf World.perform (.start svc) [.throttle .webhook "1", .throttle .webhook "2"]) :=
  ⟨_, rfl, queued_of_busy (show ConcurrencyControlService.new 1 (-1) false = .ok _ from rfl)
    ⟨⟨trivial, rfl⟩, ⟨trivial, rfl⟩, trivial⟩⟩

end N8nConcurrencyQueue
