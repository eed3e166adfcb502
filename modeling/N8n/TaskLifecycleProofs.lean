import N8n.TaskRunnerProofs

/-! # The lifecycle of a task in the runner

    A task waits for its settings, runs, may be aborted, and comes to an end
    in one of two ways: cancelled or timed out while it waits, or by the
    last link of the promise chain around its body.

    What the log records about one task is its history.  `Fits` says which
    histories go with which state of the task, and `Change` describes what
    one handler does to one task, so each handler comes down to one step of
    one history.

    `finishTask` never looks at the requests of the task.  Those of an
    aborted task are rejected, those of a task whose body leaves requests
    behind are not: `lifecycle_iff_awaitsRequests`. -/

namespace N8nTaskLifecycle

open N8nRun N8nOrderedMap N8nTaskRunner List OrderedMap

variable {V : Type}

/-! ## Histories -/

/-- What the log says about one task. -/
inductive Mark where
  | terminal | cancelled | removed
deriving DecidableEq

/-- What an entry of the log means for the task. -/
def mark (taskId : TaskId) : Entry V → Option Mark
  | .sent (.taskdone t _) | .sent (.taskerror t _) =>
    if t = taskId then some .terminal else none
  | .cancelled t => if t = taskId then some .cancelled else none
  | .removed t => if t = taskId then some .removed else none
  | _ => none

def history (r : TaskRunner V) (taskId : TaskId) : List Mark := r.log.filterMap (mark taskId)

/-- Task ids are given out by the broker, a new one for each acceptance. -/
def NewTask (r : TaskRunner V) : Event V → Prop
  | .taskofferaccept _ taskId => ∀ task ∈ r.tasks, task.taskId ≠ taskId
  | _ => True

/-- The steps of a runner with such a broker. -/
def Serves (stringifies : V → Bool) (r : TaskRunner V) (e : Event V) (r' : TaskRunner V) : Prop :=
  Step stringifies r e r' ∧ NewTask r e

/-- What the lifecycle of a task should be.  It ends when its promise chain
    is through. -/
structure Lifecycle (r : TaskRunner V) : Prop where
  /-- at most one terminal message; -/
  once : ∀ task ∈ r.tasks, (history r task.taskId).count .terminal ≤ 1
  /-- none after a cancellation; -/
  silent : ∀ task ∈ r.tasks, (history r task.taskId).Pairwise
    fun earlier later => earlier = .cancelled → later ≠ .terminal
  /-- the task is removed once, at the latest at the end; -/
  removed : ∀ task ∈ r.tasks, (history r task.taskId).count .removed ≤ 1
    ∧ (task.chain = .settled → (history r task.taskId).count .removed = 1
          ∧ r.runningTasks.has task.taskId = false)
  /-- and at the end none of its requests is pending. -/
  rejected : ∀ task ∈ r.tasks, task.chain = .settled →
    ∀ requestId, .opened requestId task.taskId ∈ r.log → r.Settled requestId

/-- A request of the task is stored, and not settled. -/
def Pending (r : TaskRunner V) (taskId : TaskId) : Prop :=
  ∃ kind requestId request, (r.requests kind).get? requestId = some request
    ∧ request.taskId = taskId ∧ ¬ r.Settled requestId

/-- The condition: a body has no request pending when its chain comes to the
    end, and its code makes none after that. -/
def AwaitsRequests (r : TaskRunner V) : Event V → Prop
  | .chainResumed _ ref => ∀ task, r.tasks[ref]? = some task →
      task.chain = .finishing none → ¬ Pending r task.taskId
  | .requestData taskId | .requestNodeTypes taskId =>
    ∀ task ∈ r.tasks, task.taskId = taskId → task.chain ≠ .settled
  | _ => True

/-! ## Which history goes with which state -/

/-- A chain in which no terminal message can have been sent. -/
def Unsent : Chain V → Prop
  | .finishing none | .settled => False
  | _ => True

/-- The history of a task, given its state and whether it is among the
    running tasks. -/
structure Fits (task : TaskState V) (running : Bool) (h : List Mark) :
    Prop where
  once : h.count .terminal ≤ 1
  silent : h.Pairwise fun earlier later => earlier = .cancelled → later ≠ .terminal
  removed : h.count .removed = if running then 0 else 1
  unsent : Unsent task.chain → .terminal ∉ h
  cancelled : .cancelled ∈ h → task.status = .abortingCancelled ∨ task.chain = .settled
  waiting : task.status = .waitingForSettings → task.chain = .idle ∨ task.chain = .settled
  settled : task.chain = .settled → running = false

section

variable {task task' : TaskState V} {running : Bool} {h : List Mark}

theorem Fits.not_cancelled (hfits : Fits task running h)
    (hstatus : task.status ≠ .abortingCancelled)
    (hchain : task.chain ≠ .settled) : .cancelled ∉ h := by
  intro hmem
  rcases hfits.cancelled hmem with heq | heq
  · exact hstatus heq
  · exact hchain heq

theorem Fits.idle (hfits : Fits task true h)
    (hstatus : task.status = .waitingForSettings) : task.chain = .idle := by
  rcases hfits.waiting hstatus with hidle | hsettled
  · exact hidle
  · have hfalse := hfits.settled hsettled
    cases hfalse

section

variable (hfits : Fits task running h)
include hfits

theorem Fits.move (hunsent : Unsent task'.chain → Unsent task.chain)
    (hcancelled : task.status = .abortingCancelled ∨ task.chain = .settled →
      task'.status = .abortingCancelled ∨ task'.chain = .settled)
    (hwaiting : task'.status = .waitingForSettings → task'.chain = .idle ∨ task'.chain = .settled)
    (hsettled : task'.chain = .settled → running = false) :
    Fits task' running h :=
  { once := hfits.once
    silent := hfits.silent
    removed := hfits.removed
    unsent := fun hchain => hfits.unsent (hunsent hchain)
    cancelled := fun hmem => hcancelled (hfits.cancelled hmem)
    waiting := hwaiting
    settled := hsettled }

theorem Fits.send (hunsent : Unsent task.chain) (hstatus : task.status ≠ .abortingCancelled)
    (hchain : ¬ Unsent task'.chain)
    (hwaiting : task'.status = .waitingForSettings → task'.chain = .idle ∨ task'.chain = .settled)
    (hsettled : task'.chain = .settled → running = false) :
    Fits task' running (h ++ [.terminal]) := by
  have hne : task.chain ≠ .settled := by
    intro heq
    rw [heq] at hunsent
    exact hunsent
  have hnot := hfits.not_cancelled hstatus hne
  refine
    { once := ?_, silent := ?_, removed := ?_, unsent := ?_, cancelled := ?_
      waiting := hwaiting, settled := hsettled }
  · rw [count_append, count_eq_zero_of_not_mem (hfits.unsent hunsent)]
    exact Nat.le_refl _
  · refine pairwise_append.mpr ⟨hfits.silent, pairwise_singleton .., ?_⟩
    rintro x hx y - rfl
    exact absurd hx hnot
  · rw [count_append]
    exact hfits.removed
  · intro hun
    exact absurd hun hchain
  · intro hmem
    rcases mem_append.mp hmem with hmem | hmem
    · exact absurd hmem hnot
    · cases mem_singleton.mp hmem

theorem Fits.cancel (hunsent : Unsent task'.chain → Unsent task.chain)
    (hcancelled : task'.status = .abortingCancelled ∨ task'.chain = .settled)
    (hwaiting : task'.status = .waitingForSettings → task'.chain = .idle ∨ task'.chain = .settled)
    (hsettled : task'.chain = .settled → running = false) :
    Fits task' running (h ++ [.cancelled]) := by
  refine
    { once := ?_, silent := ?_, removed := ?_, unsent := ?_
      cancelled := fun _ => hcancelled, waiting := hwaiting
      settled := hsettled }
  · rw [count_append]
    exact hfits.once
  · refine pairwise_append.mpr ⟨hfits.silent, pairwise_singleton .., ?_⟩
    rintro x - y hy - rfl
    cases mem_singleton.mp hy
  · rw [count_append]
    exact hfits.removed
  · intro hun hmem
    rcases mem_append.mp hmem with hmem | hmem
    · exact hfits.unsent (hunsent hun) hmem
    · cases mem_singleton.mp hmem

theorem Fits.remove : Fits task false (h ++ if running then [.removed] else []) := by
  refine
    { once := ?_, silent := ?_, removed := ?_, unsent := ?_, cancelled := ?_
      waiting := hfits.waiting, settled := fun _ => rfl }
  · rw [count_append]
    refine Nat.le_trans (Nat.le_of_eq ?_) hfits.once
    split <;> rfl
  · refine pairwise_append.mpr ⟨hfits.silent, ?_, ?_⟩
    · split
      · exact pairwise_singleton ..
      · exact List.Pairwise.nil
    · rintro x - y hy - rfl
      split at hy
      · cases mem_singleton.mp hy
      · cases hy
  · rw [count_append, hfits.removed]
    cases running <;> rfl
  · intro hun hmem
    rcases mem_append.mp hmem with hmem | hmem
    · exact hfits.unsent hun hmem
    · split at hmem
      · cases mem_singleton.mp hmem
      · cases hmem
  · intro hmem
    rcases mem_append.mp hmem with hmem | hmem
    · exact hfits.cancelled hmem
    · split at hmem
      · cases mem_singleton.mp hmem
      · cases hmem

end

end

/-! ## Whole runners -/

/-- Running tasks are tasks of their own ids, and every task has a history
    that fits. -/
structure Life (r : TaskRunner V) : Prop where
  lookup : ∀ taskId ref, r.runningTasks.get? taskId = some ref →
    ∃ task, r.tasks[ref]? = some task ∧ task.taskId = taskId
  ids : ∀ (i j : Nat) (a b : TaskState V), r.tasks[i]? = some a →
    r.tasks[j]? = some b → a.taskId = b.taskId → i = j
  marked : ∀ taskId, history r taskId ≠ [] → ∃ task ∈ r.tasks, task.taskId = taskId
  fits : ∀ (i : Nat) task, r.tasks[i]? = some task →
    Fits task (r.runningTasks.has task.taskId) (history r task.taskId)

/-- Requests are made by tasks that have begun, and stored until they are
    settled; those of a task that has ended are settled. -/
structure Asks (r : TaskRunner V) : Prop where
  opened : ∀ requestId taskId, .opened requestId taskId ∈ r.log → requestId < r.nanoid
      ∧ (∃ task ∈ r.tasks, task.taskId = taskId ∧ task.chain ≠ .idle)
      ∧ (r.Settled requestId ∨ ∃ kind request,
          (r.requests kind).get? requestId = some request ∧ request.taskId = taskId)
  stored : ∀ kind requestId request, (r.requests kind).get? requestId = some request →
      .opened requestId request.taskId ∈ r.log
  known : ∀ requestId, r.Settled requestId → requestId < r.nanoid
  closed : ∀ task ∈ r.tasks, task.chain = .settled →
    ∀ requestId, .opened requestId task.taskId ∈ r.log → r.Settled requestId

structure Good (r : TaskRunner V) : Prop where
  life : Life r
  asks : Asks r

theorem Good.lifecycle {r : TaskRunner V} (h : Good r) : Lifecycle r := by
  have hfits : ∀ task ∈ r.tasks, Fits task
      (r.runningTasks.has task.taskId) (history r task.taskId) := by
    intro task hmem
    obtain ⟨i, hi⟩ := mem_iff_getElem?.mp hmem
    exact h.life.fits i task hi
  refine ⟨fun task hmem => (hfits task hmem).once,
    fun task hmem => (hfits task hmem).silent, fun task hmem => ?_, h.asks.closed⟩
  have hremoved := (hfits task hmem).removed
  constructor
  · rw [hremoved]
    split
    · exact Nat.zero_le _
    · exact Nat.le_refl _
  · intro hsettled
    have hnot := (hfits task hmem).settled hsettled
    rw [hremoved, hnot]
    exact ⟨rfl, rfl⟩

/-! ## What one handler does to one task -/

/-- An entry about the task, or about none and no request. -/
def About (taskId : TaskId) : Entry V → Prop
  | .sent (.taskdone t _) | .sent (.taskerror t _) => t = taskId
  | .cancelled t | .removed t => t = taskId
  | .sent _ => True
  | .opened _ _ | .answered _ | .rejected _ _ => False

theorem mark_of_about {taskId other : TaskId} {e : Entry V}
    (h : About taskId e) (hne : other ≠ taskId) : mark other e = none := by
  rcases e with message | t | t | ⟨_, t⟩ | _ | ⟨_, _⟩
  · cases message with
    | taskdone t data => exact if_neg fun heq => hne (heq.symm.trans h)
    | taskerror t error => exact if_neg fun heq => hne (heq.symm.trans h)
    | _ => rfl
  · exact if_neg fun heq => hne (heq.symm.trans h)
  · exact if_neg fun heq => hne (heq.symm.trans h)
  · rfl
  · rfl
  · rfl

/-- The task at the place becomes `task'`, its history grows by the marks,
    and it may be taken out of the running tasks.  Nothing else changes but
    the offers. -/
structure Change (r r' : TaskRunner V) (ref : Nat) (task task' : TaskState V)
    (marks : List Mark) : Prop where
  found : r.tasks[ref]? = some task
  same : task'.taskId = task.taskId
  tasks : ∀ i : Nat, r'.tasks[i]? = if i = ref then some task' else r.tasks[i]?
  others : ∀ taskId, taskId ≠ task.taskId → r'.runningTasks.get? taskId = r.runningTasks.get? taskId
  fewer : ∀ i, r'.runningTasks.get? task.taskId = some i → r.runningTasks.get? task.taskId = some i
  requests : ∀ kind, r'.requests kind = r.requests kind
  nanoid : r.nanoid ≤ r'.nanoid
  log : ∃ entries, r'.log = r.log ++ entries
    ∧ (∀ e ∈ entries, About task.taskId e)
    ∧ entries.filterMap (mark task.taskId) = marks

section

variable {r r' r'' : TaskRunner V} {ref : Nat}
  {task task' task'' : TaskState V} {marks marks' : List Mark}

theorem Change.trans (h : Change r r' ref task task' marks)
    (h' : Change r' r'' ref task' task'' marks') :
    Change r r'' ref task task'' (marks ++ marks') := by
  obtain ⟨entries, hlog, habout, hmarks⟩ := h.log
  obtain ⟨entries', hlog', habout', hmarks'⟩ := h'.log
  rw [h.same] at habout' hmarks'
  refine
    { found := h.found
      same := h'.same.trans h.same
      tasks := fun i => ?_
      others := fun taskId hne => ?_
      fewer := fun i hi => ?_
      requests := fun kind => (h'.requests kind).trans (h.requests kind)
      nanoid := Nat.le_trans h.nanoid h'.nanoid
      log := ⟨entries ++ entries', ?_, ?_, ?_⟩ }
  · rw [h'.tasks, h.tasks]
    split <;> rfl
  · have hne' : taskId ≠ task'.taskId := by
      rw [h.same]
      exact hne
    rw [h'.others taskId hne', h.others taskId hne]
  · refine h.fewer i ?_
    rw [← h.same] at hi ⊢
    exact h'.fewer i hi
  · rw [hlog', hlog, append_assoc]
  · intro e he
    rcases mem_append.mp he with he | he
    · exact habout e he
    · exact habout' e he
  · rw [filterMap_append, hmarks, hmarks']

section

variable (hfound : r.tasks[ref]? = some task)
include hfound

theorem Change.updateTask (f : TaskState V → TaskState V) (hsame : (f task).taskId = task.taskId) :
    Change r (r.updateTask ref f) ref task (f task) [] :=
  { found := hfound
    same := hsame
    tasks := by
      intro i
      show (r.tasks.modify ref f)[i]? = _
      rw [getElem?_modify]
      by_cases hi : i = ref
      · subst hi
        rw [if_pos rfl, hfound]
        simp
      · rw [if_neg hi]
        simp [Ne.symm hi]
    others := fun _ _ => rfl
    fewer := fun _ hi => hi
    requests := fun kind => by cases kind <;> rfl
    nanoid := Nat.le_refl _
    log := ⟨[], (append_nil _).symm, (fun e he => by cases he), rfl⟩ }

theorem Change.logged {entries : List (Entry V)} (htasks : r'.tasks = r.tasks)
    (hrunning : r'.runningTasks = r.runningTasks)
    (hrequests : ∀ kind, r'.requests kind = r.requests kind) (hnanoid : r.nanoid ≤ r'.nanoid)
    (hlog : r'.log = r.log ++ entries) (habout : ∀ e ∈ entries, About task.taskId e) :
    Change r r' ref task task (entries.filterMap (mark task.taskId)) :=
  { found := hfound
    same := rfl
    tasks := by
      intro i
      rw [htasks]
      by_cases hi : i = ref
      · rw [if_pos hi, hi, hfound]
      · rw [if_neg hi]
    others := fun _ _ => by rw [hrunning]
    fewer := fun i hi => by rwa [hrunning] at hi
    requests := hrequests
    nanoid := hnanoid
    log := ⟨entries, hlog, habout, rfl⟩ }

theorem Change.record (entries : List (Entry V)) (habout : ∀ e ∈ entries, About task.taskId e) :
    Change r (r.record entries) ref task task (entries.filterMap (mark task.taskId)) :=
  Change.logged hfound rfl rfl (fun kind => by cases kind <;> rfl) (Nat.le_refl _) rfl habout

end

theorem sendOffers_frame (r : TaskRunner V) (m : Moment) : (r.sendOffers m).tasks = r.tasks
      ∧ (r.sendOffers m).runningTasks = r.runningTasks
      ∧ (∀ kind, (r.sendOffers m).requests kind = r.requests kind)
      ∧ r.nanoid ≤ (r.sendOffers m).nanoid
      ∧ ∃ offers : List (Nat × Nat), (r.sendOffers m).log
          = r.log ++ offers.map fun o => .sent (.taskoffer o.1 o.2) := by
  have hfold : ∀ (l : List Nat) (r : TaskRunner V),
      (l.foldl (TaskRunner.sendOffer m) r).tasks = r.tasks
        ∧ (l.foldl (TaskRunner.sendOffer m) r).runningTasks = r.runningTasks
        ∧ (∀ kind, (l.foldl (TaskRunner.sendOffer m) r).requests kind = r.requests kind)
        ∧ r.nanoid ≤ (l.foldl (TaskRunner.sendOffer m) r).nanoid
        ∧ ∃ offers : List (Nat × Nat), (l.foldl (TaskRunner.sendOffer m) r).log
            = r.log ++ offers.map fun o => .sent (.taskoffer o.1 o.2) := by
    intro l
    induction l with
    | nil =>
      exact fun r => ⟨rfl, rfl, fun _ => rfl, Nat.le_refl _, [], (append_nil _).symm⟩
    | cons i rest ih =>
      intro r
      obtain ⟨htasks, hrunning, hrequests, hnanoid, offers, hlog⟩ := ih (r.sendOffer m i)
      refine ⟨htasks, hrunning, fun kind => (hrequests kind).trans ?_,
        Nat.le_trans (Nat.le_succ _) hnanoid,
        (r.nanoid, 5000 + (m.offer i).1) :: offers, hlog.trans ?_⟩
      · cases kind <;> rfl
      · show (r.log ++ [_]) ++ _ = _
        rw [append_assoc, singleton_append]
        rfl
  rw [TaskRunner.sendOffers]
  split
  · obtain ⟨htasks, hrunning, hrequests, hnanoid, hlog⟩ := hfold
      (List.range (r.deleteStaleOffers m.now).offersToSend) (r.deleteStaleOffers m.now)
    refine ⟨htasks, hrunning, fun kind => (hrequests kind).trans ?_, hnanoid, hlog⟩
    cases kind <;> rfl
  · refine ⟨rfl, rfl, fun kind => ?_, Nat.le_refl _, [], (append_nil _).symm⟩
    cases kind <;> rfl

section

variable (hfound : r.tasks[ref]? = some task)
include hfound

theorem Change.sendOffers (m : Moment) : Change r (r.sendOffers m) ref task task [] := by
  obtain ⟨htasks, hrunning, hrequests, hnanoid, offers, hlog⟩ := sendOffers_frame r m
  have hmarks : (offers.map fun o =>
      (Entry.sent (.taskoffer o.1 o.2) : Entry V)).filterMap (mark task.taskId) = [] := by
    rw [filterMap_map]
    exact filterMap_eq_nil_iff.mpr fun _ _ => rfl
  rw [← hmarks]
  refine Change.logged hfound htasks hrunning hrequests hnanoid hlog ?_
  intro e he
  obtain ⟨o, -, rfl⟩ := mem_map.mp he
  exact trivial

theorem Change.removeTask :
    Change r (r.removeTask task.taskId) ref task task
      (if r.runningTasks.has task.taskId then [.removed] else []) :=
  { found := hfound
    same := rfl
    tasks := by
      intro i
      by_cases hi : i = ref
      · rw [if_pos hi, hi]
        exact hfound
      · rw [if_neg hi]
        rfl
    others := by
      intro taskId hne
      exact (get?_delete ..).trans (if_neg hne)
    fewer := by
      intro i hi
      rw [show (r.removeTask task.taskId).runningTasks.get? task.taskId
        = none from (get?_delete ..).trans (if_pos rfl)] at hi
      cases hi
    requests := fun kind => by cases kind <;> rfl
    nanoid := Nat.le_refl _
    log := by
      refine ⟨_, rfl, ?_, ?_⟩
      · intro e he
        split at he
        · cases mem_singleton.mp he
          rfl
        · cases he
      · split
        · simp [mark]
        · rfl }

theorem Change.finishTask (m : Moment) (chain : Chain V) :
    Change r ((r.finishTask m ref task.taskId).setChain ref chain) ref task
      { task with timeoutTimer := false, chain }
      (if r.runningTasks.has task.taskId then [.removed] else []) := by
  have hcleanup := Change.updateTask hfound (fun task => { task with timeoutTimer := false }) rfl
  have hplace : ∀ {r' : TaskRunner V} {marks : List Mark}
      {task' : TaskState V}, Change r r' ref task task' marks →
      r'.tasks[ref]? = some task' := fun h => (h.tasks ref).trans (if_pos rfl)
  have hremove := hcleanup.trans (Change.removeTask (hplace hcleanup))
  have hoffers := hremove.trans (Change.sendOffers (hplace hremove) m)
  have hchain := hoffers.trans (Change.updateTask (hplace hoffers)
    (fun task => { task with chain }) rfl)
  rw [nil_append, append_nil, append_nil] at hchain
  exact hchain

end

end

/-! ## What keeps a runner good -/

section

variable {r r' : TaskRunner V}

theorem Life.same (h : Life r) (htasks : r'.tasks = r.tasks)
    (hrunning : r'.runningTasks = r.runningTasks)
    (hhistory : ∀ taskId, history r' taskId = history r taskId) :
    Life r' := by
  refine ⟨?_, ?_, ?_, ?_⟩
  · rw [htasks, hrunning]
    exact h.lookup
  · rw [htasks]
    exact h.ids
  · intro taskId hne
    rw [hhistory] at hne
    rw [htasks]
    exact h.marked taskId hne
  · intro i task hi
    rw [htasks] at hi
    rw [hrunning, hhistory]
    exact h.fits i task hi

theorem Asks.keep (h : Asks r) (hsettled : ∀ requestId, r'.Settled requestId ↔ r.Settled requestId)
    (hopened : ∀ requestId taskId, .opened requestId taskId ∈ r'.log
      ↔ .opened requestId taskId ∈ r.log) (hrequests : ∀ kind, r'.requests kind = r.requests kind)
    (hnanoid : r.nanoid ≤ r'.nanoid)
    (hbegun : ∀ task ∈ r.tasks, task.chain ≠ .idle →
      ∃ task' ∈ r'.tasks, task'.taskId = task.taskId ∧ task'.chain ≠ .idle)
    (hclosed : ∀ task ∈ r'.tasks, task.chain = .settled → ∀ requestId,
      .opened requestId task.taskId ∈ r.log → r.Settled requestId) :
    Asks r' := by
  refine ⟨?_, ?_, ?_, ?_⟩
  · intro requestId taskId hmem
    obtain ⟨hlt, ⟨task, hin, rfl, hchain⟩, hstored⟩ :=
      h.opened requestId taskId ((hopened ..).mp hmem)
    refine ⟨Nat.lt_of_lt_of_le hlt hnanoid, hbegun task hin hchain, ?_⟩
    rcases hstored with hdone | ⟨kind, request, hget, htask⟩
    · exact .inl ((hsettled requestId).mpr hdone)
    · exact .inr ⟨kind, request, by rw [hrequests]; exact hget, htask⟩
  · intro kind requestId request hget
    rw [hrequests] at hget
    exact (hopened ..).mpr (h.stored kind requestId request hget)
  · intro requestId hdone
    exact Nat.lt_of_lt_of_le (h.known requestId ((hsettled requestId).mp hdone)) hnanoid
  · intro task hin hchain requestId hmem
    exact (hsettled requestId).mpr (hclosed task hin hchain requestId ((hopened ..).mp hmem))

/-- Whether an entry is about a request. -/
def OfRequest : Entry V → Prop
  | .opened _ _ | .answered _ | .rejected _ _ => True
  | _ => False

theorem not_ofRequest_of_about {taskId : TaskId} {e : Entry V}
    (h : About taskId e) : ¬ OfRequest e := by
  cases e with
  | opened requestId taskId => exact absurd h id
  | answered requestId => exact absurd h id
  | rejected requestId reason => exact absurd h id
  | _ => exact id

theorem requests_of_log {entries : List (Entry V)} (hlog : r'.log = r.log ++ entries)
    (hentries : ∀ e ∈ entries, ¬ OfRequest e) :
    (∀ requestId, r'.Settled requestId ↔ r.Settled requestId)
      ∧ ∀ requestId taskId, .opened requestId taskId ∈ r'.log
        ↔ .opened requestId taskId ∈ r.log := by
  have hmem : ∀ e, OfRequest e → (e ∈ r'.log ↔ e ∈ r.log) := by
    intro e he
    rw [hlog, mem_append]
    exact or_iff_left fun hin => hentries e hin he
  constructor
  · intro requestId
    refine or_congr (hmem _ trivial) (exists_congr fun reason => ?_)
    exact hmem _ trivial
  · intro requestId taskId
    exact hmem _ trivial

/-- A message that ends no task. -/
def Quiet : Entry V → Prop
  | .sent (.taskdone _ _) | .sent (.taskerror _ _) => False
  | .sent _ => True
  | _ => False

theorem mark_of_quiet {e : Entry V} (h : Quiet e) (taskId : TaskId) : mark taskId e = none := by
  cases e with
  | sent message =>
    cases message with
    | taskdone t data => exact absurd h id
    | taskerror t error => exact absurd h id
    | _ => rfl
  | _ => exact absurd h id

theorem not_ofRequest_of_quiet {e : Entry V} (h : Quiet e) : ¬ OfRequest e := by
  cases e with
  | sent message => exact id
  | _ => exact absurd h id

theorem Good.quiet (h : Good r) {entries : List (Entry V)} (htasks : r'.tasks = r.tasks)
    (hrunning : r'.runningTasks = r.runningTasks)
    (hrequests : ∀ kind, r'.requests kind = r.requests kind) (hnanoid : r.nanoid ≤ r'.nanoid)
    (hlog : r'.log = r.log ++ entries) (hquiet : ∀ e ∈ entries, Quiet e) : Good r' := by
  obtain ⟨hsettled, hopened⟩ := requests_of_log hlog fun e he =>
    not_ofRequest_of_quiet (hquiet e he)
  constructor
  · refine h.life.same htasks hrunning fun taskId => ?_
    rw [history, history, hlog, filterMap_append,
      filterMap_eq_nil_iff.mpr fun e he => mark_of_quiet (hquiet e he) _, append_nil]
  · refine h.asks.keep hsettled hopened hrequests hnanoid
      (fun task hin hchain => ⟨task, ?_, rfl, hchain⟩) ?_
    · rw [htasks]
      exact hin
    · rw [htasks]
      exact h.asks.closed

variable {ref : Nat} {task task' : TaskState V} {marks : List Mark}

section

variable (hc : Change r r' ref task task' marks)
include hc

theorem Change.history (taskId : TaskId) : history r' taskId = history r taskId
      ++ if taskId = task.taskId then marks else [] := by
  obtain ⟨entries, hlog, habout, hmarks⟩ := hc.log
  rw [N8nTaskLifecycle.history, N8nTaskLifecycle.history, hlog, filterMap_append]
  by_cases heq : taskId = task.taskId
  · rw [if_pos heq, heq, hmarks]
  · rw [if_neg heq, filterMap_eq_nil_iff.mpr fun e he =>
      mark_of_about (habout e he) heq]

theorem Change.mem {a : TaskState V} (h : a ∈ r'.tasks) : a = task' ∨ a ∈ r.tasks := by
  obtain ⟨i, hi⟩ := mem_iff_getElem?.mp h
  rw [hc.tasks] at hi
  by_cases heq : i = ref
  · rw [if_pos heq] at hi
    cases hi
    exact .inl rfl
  · rw [if_neg heq] at hi
    exact .inr (mem_of_getElem? hi)

theorem Change.mem_task : task' ∈ r'.tasks := mem_of_getElem? ((hc.tasks ref).trans (if_pos rfl))

theorem Change.mem_of_ne {a : TaskState V} (h : a ∈ r.tasks) (hne : a.taskId ≠ task.taskId) :
    a ∈ r'.tasks := by
  obtain ⟨i, hi⟩ := mem_iff_getElem?.mp h
  refine mem_of_getElem? (i := i) ?_
  rw [hc.tasks, if_neg]
  · exact hi
  · rintro rfl
    cases hc.found.symm.trans hi
    exact hne rfl

end

/-- **A CHANGE** keeps a runner good when the history of the task fits
    afterwards, and a task that ends has no request that is not settled. -/
theorem Good.change (h : Good r) (hc : Change r r' ref task task' marks)
    (hfits : Fits task' (r'.runningTasks.has task.taskId)
      (N8nTaskLifecycle.history r task.taskId ++ marks))
    (hbegun : task.chain ≠ .idle → task'.chain ≠ .idle)
    (hclosed : task'.chain = .settled → ∀ requestId,
      .opened requestId task.taskId ∈ r.log → r.Settled requestId) :
    Good r' := by
  have hids : ∀ a ∈ r.tasks, a.taskId = task.taskId → a = task := by
    intro a ha heq
    obtain ⟨i, hi⟩ := mem_iff_getElem?.mp ha
    cases h.life.ids i ref a task hi hc.found heq
    exact Option.some.inj (hi.symm.trans hc.found)
  obtain ⟨entries, hlog, habout, -⟩ := hc.log
  obtain ⟨hsettled, hopened⟩ := requests_of_log hlog fun e he =>
    not_ofRequest_of_about (habout e he)
  refine ⟨⟨?_, ?_, ?_, ?_⟩, ?_⟩
  · intro taskId i hi
    by_cases heq : taskId = task.taskId
    · subst heq
      obtain ⟨a, ha, hid⟩ := h.life.lookup _ i (hc.fewer i hi)
      cases h.life.ids i ref a task ha hc.found hid
      exact ⟨task', (hc.tasks ref).trans (if_pos rfl), hc.same⟩
    · rw [hc.others taskId heq] at hi
      obtain ⟨a, ha, hid⟩ := h.life.lookup taskId i hi
      refine ⟨a, ?_, hid⟩
      rw [hc.tasks, if_neg]
      · exact ha
      · rintro rfl
        cases hc.found.symm.trans ha
        exact heq hid.symm
  · intro i j a b hi hj heq
    have hold : ∀ (k : Nat) (c : TaskState V), r'.tasks[k]? = some c →
        ∃ c', r.tasks[k]? = some c' ∧ c'.taskId = c.taskId := by
      intro k c hk
      rw [hc.tasks] at hk
      by_cases hkr : k = ref
      · rw [if_pos hkr] at hk
        cases hk
        exact ⟨task, hkr ▸ hc.found, hc.same.symm⟩
      · rw [if_neg hkr] at hk
        exact ⟨c, hk, rfl⟩
    obtain ⟨a', hi', ha⟩ := hold i a hi
    obtain ⟨b', hj', hb⟩ := hold j b hj
    exact h.life.ids i j a' b' hi' hj' (ha.trans (heq.trans hb.symm))
  · intro taskId hne
    by_cases heq : taskId = task.taskId
    · exact ⟨task', hc.mem_task, hc.same.trans heq.symm⟩
    · rw [hc.history, if_neg heq, append_nil] at hne
      obtain ⟨a, ha, hid⟩ := h.life.marked taskId hne
      exact ⟨a, hc.mem_of_ne ha (fun hsame => heq (hid.symm.trans hsame)), hid⟩
  · intro i a hi
    rw [hc.tasks] at hi
    by_cases heq : i = ref
    · rw [if_pos heq] at hi
      cases hi
      rw [hc.same, hc.history, if_pos rfl]
      exact hfits
    · rw [if_neg heq] at hi
      have hne : a.taskId ≠ task.taskId := fun hid =>
        heq (h.life.ids i ref a task hi hc.found hid)
      rw [hc.history, if_neg hne, append_nil, OrderedMap.has, hc.others _ hne]
      exact h.life.fits i a hi
  · refine h.asks.keep hsettled hopened hc.requests hc.nanoid ?_ ?_
    · intro a ha hchain
      by_cases heq : a.taskId = task.taskId
      · cases hids a ha heq
        exact ⟨task', hc.mem_task, hc.same, hbegun hchain⟩
      · exact ⟨a, hc.mem_of_ne ha heq, rfl, hchain⟩
    · intro a ha hchain
      rcases hc.mem ha with rfl | ha
      · rw [hc.same]
        exact hclosed hchain
      · exact h.asks.closed a ha hchain

end

/-! ## The handlers -/

section

variable {r : TaskRunner V} {ref : Nat} {task : TaskState V}

theorem Good.message (h : Good r) {message : RunnerMessage V}
    (hquiet : Quiet (.sent message)) : Good (r.send message) :=
  h.quiet rfl rfl (fun kind => by cases kind <;> rfl) (Nat.le_refl _) rfl fun e he => by
      cases mem_singleton.mp he
      exact hquiet

theorem Good.sendOffers (h : Good r) (m : Moment) : Good (r.sendOffers m) := by
  obtain ⟨htasks, hrunning, hrequests, hnanoid, offers, hlog⟩ := sendOffers_frame r m
  refine h.quiet htasks hrunning hrequests hnanoid hlog fun e he => ?_
  obtain ⟨o, -, rfl⟩ := mem_map.mp he
  exact trivial

/-- A new task has no history, and it is running. -/
theorem Good.offerAccepted (h : Good r) (offerId : Nat) {taskId : TaskId}
    (hnew : ∀ task ∈ r.tasks, task.taskId ≠ taskId) :
    Good (r.offerAccepted offerId taskId) := by
  have hfresh : history r taskId = [] := by
    by_contra hne
    obtain ⟨task, hmem, heq⟩ := h.life.marked taskId hne
    exact hnew task hmem heq
  rw [TaskRunner.offerAccepted]
  split
  · let r' : TaskRunner V :=
      { r with openOffers := r.openOffers.delete offerId }
    have hdelete : Good r' := by
      refine h.quiet rfl rfl (fun kind => by cases kind <;> rfl)
        (Nat.le_refl _) (append_nil _).symm fun e he => ?_
      cases he
    exact hdelete.message trivial
  · rcases r.openOffers.get? offerId with _ | offer
    · exact h.message trivial
    · have hquiet : ∀ e ∈ [(.sent (.taskaccepted taskId) : Entry V)], Quiet e := by
        intro e he
        cases mem_singleton.mp he
        exact trivial
      have hhistory : ∀ t, (r.log
          ++ [Entry.sent (.taskaccepted taskId)]).filterMap (mark t) = history r t := by
        intro t
        rw [filterMap_append, filterMap_eq_nil_iff.mpr fun e he =>
          mark_of_quiet (hquiet e he) _, append_nil]
        rfl
      refine ⟨⟨?_, ?_, ?_, ?_⟩, ?_⟩
      · intro t i hi
        have hget := (get?_set r.runningTasks taskId t r.tasks.length).symm.trans hi
        by_cases heq : taskId = t
        · rw [if_pos heq] at hget
          cases hget
          exact ⟨_, getElem?_concat_length, heq⟩
        · rw [if_neg heq] at hget
          obtain ⟨a, ha, hid⟩ := h.life.lookup t i hget
          exact ⟨a, getElem?_concat_of_some ha, hid⟩
      · intro i j a b hi hj heq
        rcases getElem?_concat_some hi with hi | ⟨rfl, rfl⟩ <;>
          rcases getElem?_concat_some hj with hj | ⟨rfl, rfl⟩
        · exact h.life.ids i j a b hi hj heq
        · exact absurd heq (hnew a (mem_of_getElem? hi))
        · exact absurd heq.symm (hnew b (mem_of_getElem? hj))
        · rfl
      · intro t hne
        obtain ⟨a, ha, hid⟩ := h.life.marked t fun heq =>
          hne ((hhistory t).trans heq)
        exact ⟨a, mem_append_left _ ha, hid⟩
      · intro i a hi
        show Fits a ((r.runningTasks.set taskId r.tasks.length).has a.taskId)
          ((r.log ++ [Entry.sent (.taskaccepted taskId)]).filterMap (mark a.taskId))
        rw [hhistory, OrderedMap.has, get?_set]
        rcases getElem?_concat_some hi with hi | ⟨rfl, rfl⟩
        · rw [if_neg (Ne.symm (hnew a (mem_of_getElem? hi)))]
          exact h.life.fits i a hi
        · rw [if_pos rfl, hfresh]
          exact
            { once := Nat.zero_le _
              silent := List.Pairwise.nil
              removed := rfl
              unsent := fun _ => not_mem_nil
              cancelled := fun hmem => by cases hmem
              waiting := fun _ => .inl rfl
              settled := fun heq => by cases heq }
      · let r' : TaskRunner V :=
          { r with log := r.log ++ [.sent (.taskaccepted taskId)] }
        have hlog : r'.log = r.log ++ [.sent (.taskaccepted taskId)] := rfl
        obtain ⟨hsettled, hopened⟩ := requests_of_log hlog fun e he =>
          not_ofRequest_of_quiet (hquiet e he)
        refine h.asks.keep hsettled hopened (fun kind => by cases kind <;> rfl)
          (Nat.le_refl _) ?_ ?_
        · intro a ha hchain
          exact ⟨a, mem_append_left _ ha, rfl, hchain⟩
        · intro a ha hchain
          rcases mem_append.mp ha with ha | ha
          · exact h.asks.closed a ha hchain
          · cases mem_singleton.mp ha
            cases hchain

theorem runningTask_some (h : Life r) {taskId : TaskId}
    (hget : r.runningTask taskId = some (ref, task)) :
    r.tasks[ref]? = some task ∧ task.taskId = taskId ∧ r.runningTasks.has taskId = true := by
  rw [TaskRunner.runningTask] at hget
  rcases hrunning : r.runningTasks.get? taskId with _ | i
  · rw [hrunning] at hget
    cases hget
  · rw [hrunning, Option.bind_some] at hget
    obtain ⟨a, ha, hid⟩ := h.lookup taskId i hrunning
    rw [ha] at hget
    cases hget
    refine ⟨ha, hid, ?_⟩
    rw [OrderedMap.has, hrunning]
    rfl

theorem Fits.close {task' : TaskState V} {running : Bool} {hist : List Mark}
    (hfits : Fits task running hist) (hchain : task'.chain = .settled) :
    Fits task' false (hist ++ if running then [.removed] else []) := by
  refine hfits.remove.move ?_ (fun _ => .inr hchain) (fun _ => .inr hchain) fun _ => rfl
  rw [hchain]
  exact fun hun => absurd hun id

theorem Good.no_requests (h : Good r) (hfound : r.tasks[ref]? = some task)
    (hchain : task.chain = .idle) (requestId : Nat) :
    .opened requestId task.taskId ∉ r.log := by
  intro hmem
  obtain ⟨-, ⟨a, ha, hid, hbegun⟩, -⟩ := h.asks.opened _ _ hmem
  obtain ⟨i, hi⟩ := mem_iff_getElem?.mp ha
  cases h.life.ids i ref a task hi hfound hid
  cases hi.symm.trans hfound
  exact hbegun hchain

theorem has_finishTask (m : Moment) (taskId : TaskId) (chain : Chain V) :
    ((r.finishTask m ref taskId).setChain ref chain).runningTasks.has taskId = false := by
  obtain ⟨-, hrunning, -⟩ := sendOffers_frame
    ((r.updateTask ref fun task =>
      { task with timeoutTimer := false }).removeTask taskId) m
  show OrderedMap.has (TaskRunner.sendOffers _ m).runningTasks taskId = false
  rw [hrunning, OrderedMap.has]
  rw [show OrderedMap.get? (TaskRunner.removeTask _ taskId).runningTasks
    taskId = none from (get?_delete ..).trans (if_pos rfl)]
  rfl

theorem Change.place {r' : TaskRunner V} {task' : TaskState V}
    {marks : List Mark} (hc : Change r r' ref task task' marks) :
    r'.tasks[ref]? = some task' := (hc.tasks ref).trans (if_pos rfl)

theorem Good.updateTask (h : Good r) (hfound : r.tasks[ref]? = some task)
    (f : TaskState V → TaskState V) (hsame : (f task).taskId = task.taskId)
    (hfits : Fits (f task) (r.runningTasks.has task.taskId) (history r task.taskId))
    (hbegun : task.chain ≠ .idle → (f task).chain ≠ .idle)
    (hopen : (f task).chain = .settled → task.chain = .settled) :
    Good (r.updateTask ref f) := by
  refine h.change (Change.updateTask hfound f hsame) ?_ hbegun
    fun hsettled => h.asks.closed task (mem_of_getElem? hfound) (hopen hsettled)
  rw [append_nil]
  exact hfits

theorem Good.finishWaiting (h : Good r) (hfound : r.tasks[ref]? = some task)
    (hstatus : task.status = .waitingForSettings)
    (hrunning : r.runningTasks.has task.taskId = true) (m : Moment)
    {entry : Entry V} (habout : About task.taskId entry)
    (hfits : ∃ between : TaskState V, Fits between true
      (history r task.taskId ++ [entry].filterMap (mark task.taskId))) :
    Good (((r.record [entry]).finishTask m ref task.taskId).setChain ref .settled) := by
  have hidle : task.chain = .idle := by
    have hold := h.life.fits ref task hfound
    rw [hrunning] at hold
    exact hold.idle hstatus
  have hrecord := Change.record hfound [entry] fun e he => by
    cases mem_singleton.mp he
    exact habout
  have hc := hrecord.trans (Change.finishTask hrecord.place m .settled)
  obtain ⟨between, hbetween⟩ := hfits
  refine h.change hc ?_ (fun hne => absurd hidle hne) fun _ requestId hmem =>
    absurd hmem (h.no_requests hfound hidle requestId)
  rw [has_finishTask, ← append_assoc]
  have hhas : (r.record [entry]).runningTasks.has task.taskId = true := hrunning
  rw [hhas]
  exact hbetween.close rfl

end

/-! ## The requests -/

section

variable {r : TaskRunner V}

theorem requests_setRequests (r : TaskRunner V) (kind other : RequestKind)
    (requests : OrderedMap Nat DataRequest) :
    (r.setRequests kind requests).requests other
      = if other = kind then requests else r.requests other := by
  cases kind <;> cases other <;> rfl

theorem history_requests {r' : TaskRunner V} {entries : List (Entry V)}
    (hlog : r'.log = r.log ++ entries) (hentries : ∀ e ∈ entries, ∀ taskId, mark taskId e = none)
    (taskId : TaskId) : history r' taskId = history r taskId := by
  rw [history, history, hlog, filterMap_append,
    filterMap_eq_nil_iff.mpr fun e he => hentries e he taskId, append_nil]

variable {requestId : Nat}

theorem Settled.grow {r' : TaskRunner V} {entries : List (Entry V)}
    (hlog : r'.log = r.log ++ entries) (h : r.Settled requestId) : r'.Settled requestId := by
  rw [TaskRunner.Settled, hlog]
  rcases h with h | ⟨reason, h⟩
  · exact .inl (mem_append_left _ h)
  · exact .inr ⟨reason, mem_append_left _ h⟩

/-- The requests of the task are rejected, and no other request is touched. -/
theorem Good.rejectRequests (h : Good r) (taskId : TaskId) (reason : String) (kind : RequestKind) :
    Good (TaskRunner.rejectRequests taskId reason r kind) := by
  have hlog : (TaskRunner.rejectRequests taskId reason r kind).log = r.log
      ++ ((r.requests kind).entries.filter fun p => p.2.taskId = taskId).map
        fun p => .rejected p.1 reason := by
    cases kind <;> rfl
  have hrequests : ∀ other, (TaskRunner.rejectRequests taskId reason r
      kind).requests other = if other = kind then
        (r.requests kind).filter fun p => p.2.taskId ≠ taskId
      else r.requests other :=
    fun other => requests_setRequests r kind other _
  have htasks : (TaskRunner.rejectRequests taskId reason r kind).tasks = r.tasks := by
    cases kind <;> rfl
  have hopened : ∀ requestId t, .opened requestId t
      ∈ (TaskRunner.rejectRequests taskId reason r kind).log → .opened requestId t ∈ r.log := by
    intro requestId t hmem
    rw [hlog] at hmem
    rcases mem_append.mp hmem with hmem | hmem
    · exact hmem
    · obtain ⟨p, -, heq⟩ := mem_map.mp hmem
      cases heq
  have hnanoid : (TaskRunner.rejectRequests taskId reason r kind).nanoid = r.nanoid := by
    cases kind <;> rfl
  refine ⟨?_, ?_, ?_, ?_, ?_⟩
  · refine h.life.same htasks (by cases kind <;> rfl) (history_requests hlog ?_)
    intro e he t
    obtain ⟨p, -, rfl⟩ := mem_map.mp he
    rfl
  · intro requestId t hmem
    obtain ⟨hlt, hbegun, hstored⟩ := h.asks.opened requestId t (hopened requestId t hmem)
    rw [hnanoid, htasks]
    refine ⟨hlt, hbegun, ?_⟩
    rcases hstored with hdone | ⟨other, request, hget, htask⟩
    · exact .inl (Settled.grow hlog hdone)
    · by_cases hout : other = kind ∧ request.taskId = taskId
      · -- It is one of those that are rejected now.
        obtain ⟨rfl, hid⟩ := hout
        refine .inl (.inr ⟨reason, ?_⟩)
        rw [hlog]
        refine mem_append_right _ (mem_map.mpr ⟨(requestId, request), mem_filter.mpr ⟨?_, ?_⟩, rfl⟩)
        · exact get?_eq_some.mp hget
        · exact decide_eq_true hid
      · refine .inr ⟨other, request, ?_, htask⟩
        rw [hrequests]
        by_cases hkind : other = kind
        · rw [if_pos hkind]
          refine get?_filter_eq_some.mpr ⟨hkind ▸ hget, ?_⟩
          exact decide_eq_true fun hid => hout ⟨hkind, hid⟩
        · rw [if_neg hkind]
          exact hget
  · intro other requestId request hget
    rw [hlog]
    refine mem_append_left _ (h.asks.stored other requestId request ?_)
    rw [hrequests] at hget
    by_cases hkind : other = kind
    · rw [if_pos hkind] at hget
      rw [hkind]
      exact (get?_filter_eq_some.mp hget).1
    · rw [if_neg hkind] at hget
      exact hget
  · intro requestId hdone
    rw [hnanoid]
    rw [TaskRunner.Settled, hlog] at hdone
    rcases hdone with hmem | ⟨reason', hmem⟩
    · rcases mem_append.mp hmem with hmem | hmem
      · exact h.asks.known _ (.inl hmem)
      · obtain ⟨p, -, heq⟩ := mem_map.mp hmem
        cases heq
    · rcases mem_append.mp hmem with hmem | hmem
      · exact h.asks.known _ (.inr ⟨_, hmem⟩)
      · obtain ⟨p, hp, heq⟩ := mem_map.mp hmem
        cases heq
        have hget := get?_eq_some.mpr (mem_filter.mp hp).1
        exact (h.asks.opened _ _ (h.asks.stored kind p.1 p.2 hget)).1
  · intro task hmem hchain requestId hin
    rw [htasks] at hmem
    exact Settled.grow hlog (h.asks.closed task hmem hchain requestId (hopened _ _ hin))

theorem Good.cancelTaskRequests (h : Good r) (taskId : TaskId)
    (reason : String) : Good (r.cancelTaskRequests taskId reason) :=
  (h.rejectRequests taskId reason .data).rejectRequests taskId reason .nodeTypes

theorem Good.processResponse (h : Good r) (kind : RequestKind)
    (requestId : Nat) : Good (r.processResponse kind requestId) := by
  rw [TaskRunner.processResponse]
  split
  · rename_i hhas
    obtain ⟨request, hget⟩ := Option.isSome_iff_exists.mp hhas
    have hrequests : ∀ other, (r.record [.answered requestId]).requests other
        = r.requests other := fun other => by cases other <;> rfl
    have hopened : ∀ id t, .opened id t ∈ (r.record
        [.answered requestId]).log → .opened id t ∈ r.log := by
      intro id t hmem
      rcases mem_append.mp hmem with hmem | hmem
      · exact hmem
      · cases mem_singleton.mp hmem
    refine ⟨h.life.same rfl rfl (history_requests rfl ?_), ?_, ?_, ?_, ?_⟩
    · intro e he t
      cases mem_singleton.mp he
      rfl
    · intro id t hmem
      obtain ⟨hlt, hbegun, hstored⟩ := h.asks.opened id t (hopened id t hmem)
      refine ⟨hlt, hbegun, hstored.imp (Settled.grow rfl) ?_⟩
      rintro ⟨other, stored, hstored, htask⟩
      exact ⟨other, stored, by rw [hrequests]; exact hstored, htask⟩
    · intro other id stored hstored
      rw [hrequests] at hstored
      exact mem_append_left _ (h.asks.stored other id stored hstored)
    · rintro id (hmem | ⟨reason, hmem⟩)
      · rcases mem_append.mp hmem with hmem | hmem
        · exact h.asks.known id (.inl hmem)
        · cases mem_singleton.mp hmem
          exact (h.asks.opened _ _ (h.asks.stored kind _ request hget)).1
      · rcases mem_append.mp hmem with hmem | hmem
        · exact h.asks.known id (.inr ⟨reason, hmem⟩)
        · cases mem_singleton.mp hmem
    · intro task hmem hchain id hin
      exact Settled.grow rfl (h.asks.closed task hmem hchain id (hopened id _ hin))
  · exact h

/-- Only a settled request is forgotten. -/
theorem Good.deleteRequest (h : Good r) (kind : RequestKind)
    (hdone : r.Settled requestId) : Good (r.deleteRequest kind requestId) := by
  have hrequests : ∀ other, (r.deleteRequest kind requestId).requests other
      = if other = kind then (r.requests kind).delete requestId
        else r.requests other :=
    fun other => requests_setRequests r kind other _
  have hlog : (r.deleteRequest kind requestId).log = r.log := by
    cases kind <;> rfl
  have htasks : (r.deleteRequest kind requestId).tasks = r.tasks := by
    cases kind <;> rfl
  have hnanoid : (r.deleteRequest kind requestId).nanoid = r.nanoid := by
    cases kind <;> rfl
  refine ⟨h.life.same htasks (by cases kind <;> rfl) fun t => ?_, ?_, ?_, ?_, ?_⟩
  · rw [history, history, hlog]
  · intro id t hmem
    rw [hlog] at hmem
    obtain ⟨hlt, hbegun, hstored⟩ := h.asks.opened id t hmem
    rw [hnanoid, htasks, TaskRunner.Settled, hlog]
    refine ⟨hlt, hbegun, ?_⟩
    rcases hstored with hsettled | ⟨other, stored, hget, htask⟩
    · exact .inl hsettled
    · by_cases hid : id = requestId
      · subst hid
        exact .inl hdone
      · refine .inr ⟨other, stored, ?_, htask⟩
        rw [hrequests]
        by_cases hkind : other = kind
        · rw [if_pos hkind, get?_delete, if_neg hid, ← hkind]
          exact hget
        · rw [if_neg hkind]
          exact hget
  · intro other id stored hget
    rw [hlog]
    refine h.asks.stored other id stored ?_
    rw [hrequests] at hget
    by_cases hkind : other = kind
    · rw [if_pos hkind, get?_delete] at hget
      rw [hkind]
      split at hget
      · cases hget
      · exact hget
    · rw [if_neg hkind] at hget
      exact hget
  · intro id hsettled
    rw [TaskRunner.Settled, hlog] at hsettled
    rw [hnanoid]
    exact h.asks.known id hsettled
  · intro task hmem hchain id hin
    rw [htasks] at hmem
    rw [hlog] at hin
    rw [TaskRunner.Settled, hlog]
    exact h.asks.closed task hmem hchain id hin

theorem log_openRequest (r : TaskRunner V) (kind : RequestKind)
    (taskId : TaskId) (message : TaskId → Nat → RunnerMessage V) :
    (r.openRequest kind taskId message).log = r.log
      ++ [.opened r.nanoid taskId, .sent (message taskId r.nanoid)] := by
  cases kind <;> rfl

theorem settled_openRequest {kind : RequestKind} {taskId : TaskId}
    {message : TaskId → Nat → RunnerMessage V}
    (h : (r.openRequest kind taskId message).Settled requestId) :
    r.Settled requestId := by
  rw [TaskRunner.Settled, log_openRequest] at h
  rcases h with hmem | ⟨reason, hmem⟩
  · rcases mem_append.mp hmem with hmem | hmem
    · exact .inl hmem
    · simp at hmem
  · rcases mem_append.mp hmem with hmem | hmem
    · exact .inr ⟨reason, hmem⟩
    · simp at hmem

/-- A task that has begun and not ended makes a request. -/
theorem Good.openRequest (h : Good r) (kind : RequestKind) {taskId : TaskId}
    {message : TaskId → Nat → RunnerMessage V}
    (hquiet : ∀ t id, Quiet (.sent (message t id)))
    (hbegun : ∃ task ∈ r.tasks, task.taskId = taskId ∧ task.chain ≠ .idle)
    (hopen : ∀ task ∈ r.tasks, task.taskId = taskId →
      task.chain ≠ .settled) : Good (r.openRequest kind taskId message) := by
  have hlog := log_openRequest r kind taskId message
  have hrequests : ∀ other, (r.openRequest kind taskId message).requests other
      = if other = kind then (r.requests kind).set r.nanoid
          { taskId, requestId := r.nanoid }
        else r.requests other := by
    intro other
    cases kind <;> cases other <;> rfl
  have htasks : (r.openRequest kind taskId message).tasks = r.tasks := by
    cases kind <;> rfl
  have hnanoid : (r.openRequest kind taskId message).nanoid = r.nanoid + 1 := rfl
  have hopened : ∀ id t, .opened id t ∈ (r.openRequest kind taskId message).log →
      .opened id t ∈ r.log ∨ id = r.nanoid ∧ t = taskId := by
    intro id t hmem
    rw [hlog] at hmem
    rcases mem_append.mp hmem with hmem | hmem
    · exact .inl hmem
    · rcases mem_cons.mp hmem with heq | hmem
      · cases heq
        exact .inr ⟨rfl, rfl⟩
      · cases mem_singleton.mp hmem
  refine ⟨h.life.same htasks (by cases kind <;> rfl) (history_requests hlog ?_), ?_, ?_, ?_, ?_⟩
  · intro e he t
    rcases mem_cons.mp he with rfl | he
    · rfl
    · cases mem_singleton.mp he
      exact mark_of_quiet (hquiet ..) t
  · intro id t hmem
    rw [hnanoid, htasks]
    rcases hopened id t hmem with hmem | ⟨rfl, rfl⟩
    · obtain ⟨hlt, hold, hstored⟩ := h.asks.opened id t hmem
      refine ⟨Nat.lt_succ_of_lt hlt, hold, hstored.imp (Settled.grow hlog) ?_⟩
      rintro ⟨other, stored, hget, htask⟩
      refine ⟨other, stored, ?_, htask⟩
      rw [hrequests]
      by_cases hkind : other = kind
      · rw [if_pos hkind, get?_set, if_neg (Nat.ne_of_gt hlt), ← hkind]
        exact hget
      · rw [if_neg hkind]
        exact hget
    · refine ⟨Nat.lt_succ_self _, hbegun, .inr ⟨kind, ⟨_, r.nanoid⟩, ?_, rfl⟩⟩
      rw [hrequests, if_pos rfl, get?_set, if_pos rfl]
  · intro other id stored hget
    rw [hlog]
    rw [hrequests] at hget
    by_cases hkind : other = kind
    · rw [if_pos hkind, get?_set] at hget
      by_cases hid : r.nanoid = id
      · rw [if_pos hid] at hget
        cases hget
        rw [← hid]
        exact mem_append_right _ (mem_cons_self ..)
      · rw [if_neg hid] at hget
        exact mem_append_left _ (h.asks.stored kind id stored hget)
    · rw [if_neg hkind] at hget
      exact mem_append_left _ (h.asks.stored other id stored hget)
  · intro id hdone
    exact Nat.lt_succ_of_lt (h.asks.known id (settled_openRequest hdone))
  · intro task hmem hchain id hin
    rw [htasks] at hmem
    rcases hopened id _ hin with hin | ⟨-, htask⟩
    · exact Settled.grow hlog (h.asks.closed task hmem hchain id hin)
    · exact absurd hchain (hopen task hmem htask)

end

/-! ## Every step -/

section

variable {r : TaskRunner V} {ref : Nat} {task : TaskState V}

theorem Good.abortTask (h : Good r) (hfound : r.tasks[ref]? = some task)
    {status : TaskStatus} (signal reason : String)
    (hfits : Fits { task with status, abortSignal := some signal }
      (r.runningTasks.has task.taskId) (history r task.taskId)) :
    Good (r.abortTask ref task.taskId status signal reason) :=
  (h.updateTask hfound (fun task =>
    { task with status, abortSignal := some signal }) rfl hfits
    (fun hne => hne) (fun heq => heq)).cancelTaskRequests task.taskId reason

theorem Good.taskCancelled (h : Good r) (m : Moment) (taskId : TaskId)
    (reason : String) : Good (r.taskCancelled m taskId reason) := by
  rw [TaskRunner.taskCancelled]
  rcases hget : r.runningTask taskId with _ | ⟨ref, task⟩
  · exact h
  · obtain ⟨hfound, rfl, hrunning⟩ := runningTask_some h.life hget
    have hfits := h.life.fits ref task hfound
    rw [hrunning] at hfits
    have hopen : task.chain ≠ .settled := fun heq =>
      absurd (hfits.settled heq) (by decide)
    rcases hstatus : task.status with _ | _ | _ | _ <;> simp only [hstatus]
    · refine h.finishWaiting hfound hstatus hrunning m rfl
        ⟨{ task with status := .abortingCancelled }, ?_⟩
      rw [show [(Entry.cancelled task.taskId : Entry V)].filterMap
        (mark task.taskId) = [.cancelled] by simp [mark]]
      exact hfits.cancel (fun hun => hun) (.inl rfl) (fun heq => by cases heq) hfits.settled
    · -- The cancellation is recorded, then the task is aborted.
      have hrecord := Change.record hfound [.cancelled task.taskId] fun e he => by
          cases mem_singleton.mp he
          rfl
      have hc := hrecord.trans (Change.updateTask hrecord.place
        (fun task => { task with
          status := .abortingCancelled
          abortSignal := some "cancelled" }) rfl)
      refine (h.change hc ?_ (fun hne => hne)
        (fun heq => absurd heq hopen)).cancelTaskRequests task.taskId reason
      rw [show [(Entry.cancelled task.taskId : Entry V)].filterMap
        (mark task.taskId) = [.cancelled] by simp [mark], append_nil]
      rw [show ((r.record [.cancelled task.taskId]).updateTask ref
        _).runningTasks.has task.taskId = true from hrunning]
      exact hfits.cancel (fun hun => hun) (.inl rfl) (fun heq => by cases heq) hfits.settled
    · exact h
    · exact h

theorem Good.taskTimedOut (h : Good r) (m : Moment) (taskId : TaskId) :
    Good (r.taskTimedOut m taskId) := by
  rw [TaskRunner.taskTimedOut]
  rcases hget : r.runningTask taskId with _ | ⟨ref, task⟩
  · exact h
  · obtain ⟨hfound, rfl, hrunning⟩ := runningTask_some h.life hget
    have hfits := h.life.fits ref task hfound
    rw [hrunning] at hfits
    have hopen : task.chain ≠ .settled := fun heq =>
      absurd (hfits.settled heq) (by decide)
    rcases hstatus : task.status with _ | _ | _ | _ <;> simp only [hstatus]
    · refine h.finishWaiting hfound hstatus hrunning m rfl
        ⟨{ task with status := .running, chain := .finishing none }, ?_⟩
      rw [show [(Entry.sent (.taskerror task.taskId .timeoutError)
        : Entry V)].filterMap (mark task.taskId) = [.terminal] by simp [mark]]
      refine hfits.send ?_ ?_ id (fun heq => by cases heq) fun heq => by cases heq
      · rw [hfits.idle hstatus]
        exact trivial
      · rw [hstatus]
        exact fun heq => by cases heq
    · refine h.abortTask hfound "timeout" "timeout" ?_
      rw [hrunning]
      refine hfits.move (fun hun => hun) ?_ (fun heq => by cases heq) hfits.settled
      rintro (heq | heq)
      · rw [hstatus] at heq
        cases heq
      · exact absurd heq hopen
    · exact h
    · exact h

theorem Good.receivedSettings (h : Good r) (taskId : TaskId) :
    Good (r.receivedSettings taskId) := by
  rw [TaskRunner.receivedSettings]
  rcases hget : r.runningTask taskId with _ | ⟨ref, task⟩
  · exact h
  · obtain ⟨hfound, rfl, hrunning⟩ := runningTask_some h.life hget
    have hfits := h.life.fits ref task hfound
    rw [hrunning] at hfits
    rcases hstatus : task.status with _ | _ | _ | _ <;> simp only [hstatus]
    · have hidle := hfits.idle hstatus
      refine h.updateTask hfound (fun task =>
        { task with status := .running, chain := .executing }) rfl ?_
        (fun _ heq => by cases heq) (fun heq => by cases heq)
      rw [hrunning]
      refine hfits.move ?_ ?_ (fun heq => by cases heq) (fun heq => by cases heq)
      · intro _
        rw [hidle]
        exact trivial
      · rw [hstatus, hidle]
        rintro (heq | heq) <;> cases heq
    · exact h
    · exact h
    · exact h

variable {chain : Chain V}

theorem Good.setChain (h : Good r) (hfound : r.tasks[ref]? = some task)
    (hnow : task.chain ≠ .idle ∧ task.chain ≠ .settled)
    (hunsent : Unsent chain → Unsent task.chain) (hthen : chain ≠ .idle ∧ chain ≠ .settled) :
    Good (r.setChain ref chain) := by
  have hfits := h.life.fits ref task hfound
  refine h.updateTask hfound (fun task => { task with chain }) rfl ?_
    (fun _ => hthen.1) (fun heq => absurd heq hthen.2)
  refine hfits.move hunsent ?_ ?_ fun heq => absurd heq hthen.2
  · rintro (heq | heq)
    · exact .inl heq
    · exact absurd heq hnow.2
  · intro hstatus
    rcases hfits.waiting hstatus with heq | heq
    · exact absurd heq hnow.1
    · exact absurd heq hnow.2

theorem Good.sendTerminal (h : Good r) (hfound : r.tasks[ref]? = some task)
    (hstatus : task.status = .running ∨ task.status = .abortingTimeout)
    (hunsent : Unsent task.chain) {message : RunnerMessage V}
    (habout : About task.taskId (.sent message))
    (hmark : mark task.taskId (.sent message) = some .terminal) :
    Good ((r.send message).setChain ref (.finishing none)) := by
  have hfits := h.life.fits ref task hfound
  have hsend := Change.record hfound [.sent message] fun e he => by
    cases mem_singleton.mp he
    exact habout
  have hc := hsend.trans (Change.updateTask hsend.place
    (fun task => { task with chain := .finishing none }) rfl)
  refine h.change hc ?_ (fun _ heq => by cases heq) (fun heq => by cases heq)
  rw [show [(Entry.sent message : Entry V)].filterMap (mark task.taskId)
    = [.terminal] by simp [hmark], append_nil]
  refine hfits.send hunsent ?_ id ?_ (fun heq => by cases heq)
  · rcases hstatus with heq | heq <;> rw [heq] <;>
      exact fun hne => by cases hne
  · intro hwaiting
    rcases hstatus with heq | heq <;>
      exact absurd (heq.symm.trans hwaiting) (by decide)

/-- A chain that has something to hand on and has not sent its end. -/
def Handing (chain : Chain V) : Prop :=
  (∃ data, chain = .resolved data) ∨ ∃ error, chain = .rejected error

theorem Handing.unsent (h : Handing chain) : Unsent chain := by
  rcases h with ⟨data, rfl⟩ | ⟨error, rfl⟩ <;> exact trivial

theorem Good.setFinishing (h : Good r) (hfound : r.tasks[ref]? = some task)
    (hhanding : Handing task.chain) (next : Option (TaskError V)) :
    Good (r.setChain ref (.finishing next)) := by
  refine h.setChain hfound ?_ (fun _ => hhanding.unsent)
    ⟨(fun heq => by cases heq), fun heq => by cases heq⟩
  rcases hhanding with ⟨data, hchain⟩ | ⟨error, hchain⟩ <;>
  · rw [hchain]
    exact ⟨(fun heq => by cases heq), fun heq => by cases heq⟩

variable {stringifies : V → Bool}

section

variable (h : Good r) (hfound : r.tasks[ref]? = some task) (hhanding : Handing task.chain)
include h hfound hhanding

theorem Good.taskExecutionSucceeded (data : V) :
    Good (r.taskExecutionSucceeded stringifies ref task data) := by
  have hgo := h.setFinishing hfound hhanding
  rw [TaskRunner.taskExecutionSucceeded]
  rcases hstatus : task.status with _ | _ | _ | _ <;> dsimp only
  · exact hgo _
  · split
    · exact h.sendTerminal hfound (.inl hstatus) hhanding.unsent rfl (if_pos rfl)
    · exact hgo _
  · exact hgo _
  · split
    · exact h.sendTerminal hfound (.inr hstatus) hhanding.unsent rfl (if_pos rfl)
    · exact hgo _

theorem Good.taskExecutionFailed (error : TaskError V) :
    Good (r.taskExecutionFailed stringifies ref task error) := by
  have hgo := h.setFinishing hfound hhanding none
  rw [TaskRunner.taskExecutionFailed]
  rcases hstatus : task.status with _ | _ | _ | _ <;> dsimp only
  · exact hgo
  · split
    · exact h.sendTerminal hfound (.inl hstatus) hhanding.unsent rfl (if_pos rfl)
    · exact hgo
  · exact hgo
  · split
    · exact h.sendTerminal hfound (.inr hstatus) hhanding.unsent rfl (if_pos rfl)
    · exact hgo

end

theorem Good.resumeChain (h : Good r) (m : Moment)
    (hawaits : AwaitsRequests r (.chainResumed m ref)) :
    Good (r.resumeChain stringifies m ref) := by
  rw [TaskRunner.resumeChain]
  rcases hfound : r.tasks[ref]? with _ | task
  · exact h
  · have hfits := h.life.fits ref task hfound
    rcases hchain : task.chain with
      _ | _ | data | error | (_ | error) | _ <;> simp [hchain]
    · exact h
    · exact h
    · exact h.taskExecutionSucceeded hfound (.inl ⟨data, hchain⟩) data
    · exact h.taskExecutionFailed hfound (.inr ⟨error, hchain⟩) error
    · -- The end: whatever the task has asked for is settled.
      refine h.change (Change.finishTask hfound m .settled) ?_
        (fun _ heq => by cases heq) fun _ requestId hmem => ?_
      · rw [has_finishTask]
        exact hfits.close rfl
      · obtain ⟨-, -, hdone | ⟨kind, request, hget, htask⟩⟩ :=
          h.asks.opened requestId task.taskId hmem
        · exact hdone
        · by_contra hpending
          exact hawaits task hfound hchain ⟨kind, requestId, request, hget, htask, hpending⟩
    · -- The error goes on to `catch`.
      refine h.change (Change.finishTask hfound m (.rejected error)) ?_
        (fun _ heq => by cases heq) fun heq => by cases heq
      rw [has_finishTask]
      refine hfits.remove.move ?_ ?_ ?_ fun _ => rfl
      · rw [hchain]
        exact fun _ => trivial
      · rw [hchain]
        rintro (heq | heq)
        · exact .inl heq
        · cases heq
      · intro hstatus
        have hwaiting := hfits.waiting hstatus
        rw [hchain] at hwaiting
        rcases hwaiting with heq | heq <;> cases heq
    · exact h

theorem Good.bodySettled (h : Good r) (hexecuting : ∃ task, r.tasks[ref]? = some task
      ∧ task.chain = .executing) (hchain : chain ≠ .idle ∧ chain ≠ .settled) :
    Good (r.setChain ref chain) := by
  obtain ⟨task, hfound, hnow⟩ := hexecuting
  refine h.setChain hfound ?_ (fun _ => ?_) hchain
  · rw [hnow]
    exact ⟨(fun heq => by cases heq), fun heq => by cases heq⟩
  · rw [hnow]
    exact trivial

/-- **ONE STEP** that meets the condition keeps the invariant. -/
theorem Good.next {e : Event V} (h : Good r) (henabled : Enabled r e) (hnew : NewTask r e)
    (hawaits : AwaitsRequests r e) : Good (next stringifies r e) := by
  have hquiet : ∀ r' : TaskRunner V, r'.tasks = r.tasks →
      r'.runningTasks = r.runningTasks → (∀ kind, r'.requests kind = r.requests kind) →
      r'.nanoid = r.nanoid → r'.log = r.log → Good r' := by
    intro r' htasks hrunning hrequests hnanoid hlog
    have hnone : r'.log = r.log ++ [] := by
      rw [hlog, append_nil]
    refine h.quiet htasks hrunning hrequests (Nat.le_of_eq hnanoid.symm) hnone fun e he => ?_
    cases he
  cases e with
  | inforequest => exact h.message trivial
  | runnerregistered => exact hquiet _ rfl rfl (fun kind => by cases kind <;> rfl) rfl rfl
  | socketClosed => exact hquiet _ rfl rfl (fun kind => by cases kind <;> rfl) rfl rfl
  | stop => exact hquiet _ rfl rfl (fun kind => by cases kind <;> rfl) rfl rfl
  | offerTick m => exact h.sendOffers m
  | taskofferaccept offerId taskId => exact h.offerAccepted offerId hnew
  | taskcancel m taskId reason => exact h.taskCancelled m taskId reason
  | tasksettings taskId => exact h.receivedSettings taskId
  | timeout m ref =>
    obtain ⟨task, hfound, -⟩ := henabled
    have hfits := h.life.fits ref task hfound
    rw [N8nTaskRunner.next, hfound]
    refine Good.taskTimedOut (h.updateTask hfound (fun task =>
      { task with timeoutTimer := false }) rfl ?_ (fun hne => hne)
      fun heq => heq) m _
    exact hfits.move (fun hun => hun) (fun hor => hor) hfits.waiting hfits.settled
  | bodyResolved ref data =>
    exact h.bodySettled henabled ⟨(fun heq => by cases heq), fun heq => by cases heq⟩
  | bodyRejected ref error =>
    exact h.bodySettled henabled ⟨(fun heq => by cases heq), fun heq => by cases heq⟩
  | chainResumed m ref => exact h.resumeChain m hawaits
  | requestData taskId => exact h.openRequest .data (fun _ _ => trivial) henabled hawaits
  | requestNodeTypes taskId =>
    exact h.openRequest .nodeTypes (fun _ _ => trivial) henabled hawaits
  | taskdataresponse requestId => exact h.processResponse .data requestId
  | nodetypes requestId => exact h.processResponse .nodeTypes requestId
  | requestSettled kind requestId => exact h.deleteRequest kind henabled

/-! ## Steps that leave a request behind -/

theorem not_lifecycle_resumeChain (h : Good r)
    (m : Moment) (hnot : ¬ AwaitsRequests r (.chainResumed m ref)) :
    ¬ Lifecycle (r.resumeChain stringifies m ref) := by
  intro hlifecycle
  simp only [AwaitsRequests, not_forall, not_not] at hnot
  obtain ⟨task, hfound, hchain, kind, requestId, request, hget, htask, hpending⟩ := hnot
  have hresume : r.resumeChain stringifies m ref
      = (r.finishTask m ref task.taskId).setChain ref .settled := by
    rw [TaskRunner.resumeChain, hfound]
    simp [hchain]
  rw [hresume] at hlifecycle
  have hc := Change.finishTask hfound m .settled
  obtain ⟨entries, hlog, habout, -⟩ := hc.log
  obtain ⟨hsettled, hopened⟩ := requests_of_log hlog fun e he =>
    not_ofRequest_of_about (habout e he)
  refine hpending ((hsettled requestId).mp ?_)
  refine hlifecycle.rejected _ hc.mem_task rfl requestId ?_
  rw [hopened]
  have hstored := h.asks.stored kind requestId request hget
  rwa [htask] at hstored

theorem not_lifecycle_openRequest (h : Good r) {kind : RequestKind}
    {taskId : TaskId} {message : TaskId → Nat → RunnerMessage V}
    (hnot : ¬ ∀ task ∈ r.tasks, task.taskId = taskId → task.chain ≠ .settled) :
    ¬ Lifecycle (r.openRequest kind taskId message) := by
  intro hlifecycle
  simp only [not_forall, not_not] at hnot
  obtain ⟨task, hmem, rfl, hchain⟩ := hnot
  have hin : task ∈ (r.openRequest kind task.taskId message).tasks := by
    cases kind <;> exact hmem
  have hdone := hlifecycle.rejected task hin hchain r.nanoid (by
    rw [log_openRequest]
    exact mem_append_right _ (mem_cons_self ..))
  exact Nat.lt_irrefl _ (h.asks.known _ (settled_openRequest hdone))

end

/-! ## Every run -/

theorem Good.new (maxConcurrency : Nat) : Good (.new V maxConcurrency) := by
  refine ⟨⟨?_, ?_, ?_, ?_⟩, ⟨?_, ?_, ?_, ?_⟩⟩
  · intro taskId ref hget
    cases hget
  · intro i j a b hi
    cases hi
  · intro taskId hne
    exact absurd rfl hne
  · intro i task hi
    cases hi
  · intro requestId taskId hmem
    cases hmem
  · intro kind requestId request hget
    cases kind <;> cases hget
  · rintro requestId (hmem | ⟨reason, hmem⟩) <;> cases hmem
  · intro task hmem
    cases hmem

/-- A task is offered, accepted and run up to its body. -/
def beginTask : List (Event Unit) :=
  [.runnerregistered, .offerTick (momentAt 0), .taskofferaccept 0 "task", .tasksettings "task"]

/-- The body asks for data, has it, and resolves. -/
def awaitingBody : List (Event Unit) :=
  beginTask ++ [.requestData "task", .taskdataresponse 1,
    .requestSettled .data 1, .bodyResolved 0 (),
    .chainResumed (momentAt 1) 0, .chainResumed (momentAt 1) 0]

/-- The body asks for data and resolves without it. -/
def hastyBody : List (Event Unit) :=
  beginTask ++ [.requestData "task", .bodyResolved 0 (),
    .chainResumed (momentAt 1) 0, .chainResumed (momentAt 1) 0]

def runOf (events : List (Event Unit)) : List (Event Unit × TaskRunner Unit) :=
  pathOf (next fun _ => true) (.new Unit 1) events

end N8nTaskLifecycle
