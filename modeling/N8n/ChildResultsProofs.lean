import N8n.ConcurrencyQueueProofs
import N8n.ExecutionRepositoryProofs

/-! # Child results — what a finished child writes into its parent

    When a child execution has finished, the data of its last node is put on
    the execution stack of the parent, which waits for it.  The parent is
    read, its status is looked at, and the whole of its data is written back
    with the stack changed.

    Between the two awaits another child may resume the parent.  The write
    requires no status, and would not look at one as it writes no column, so
    it puts the data of the parent back to what it was during the wait.
    `onlyWaiting_of_undisturbed` shows that nothing else goes wrong. -/

namespace N8nChildResults

open N8nRun N8nOrderedMap N8nEventLog List
open N8nCrashRecovery (ExecutionStatus)
open N8nConcurrencyQueue (ExecutionMode)
open N8nExecutionRepository

variable {R J : Type}

/-! ## The data of a node -/

structure Item (J : Type) where
  json : J
  pairedItem : Option Nat

/-- The outputs of a node by the type of their connection. -/
abbrev Connections (J : Type) := OrderedMap String (List (Option (List (Item J))))

structure TaskData (J : Type) where
  startTime : Int
  executionIndex : Nat
  executionTime : Int
  data : Option (Connections J)
  source : List (Option String)

structure RunResult (J : Type) where
  mode : ExecutionMode
  status : ExecutionStatus
  lastNodeExecuted : Option String
  runData : OrderedMap String (List (TaskData J))
  pinData : OrderedMap String (List J)

/-- A node on the execution stack with its input. -/
structure ExecuteData (J : Type) where
  node : String
  data : Connections J

/-- The data of a parent: its execution stack, if it has one, and its result
    data with all that its nodes have returned. -/
structure ParentData (R J : Type) where
  resultData : R
  nodeExecutionStack : Option (List (ExecuteData J))

/-- Pinned data takes the place of what a manual run has returned. -/
def pinnedTaskData (lastNodeRunData : TaskData J) (lastNodePinData : List J) : TaskData J :=
  { startTime := 0
    executionIndex := 0
    executionTime := 0
    data := some (OrderedMap.empty.set "main"
      [some (lastNodePinData.mapIdx fun index item =>
        { json := item, pairedItem := some index })])
    source := lastNodeRunData.source }

def getDataLastExecutedNodeData (inputData : RunResult J) : Except String (Option (TaskData J)) :=
  match inputData.lastNodeExecuted with
  | none => .ok none
  | some lastNodeExecuted =>
    match inputData.runData.get? lastNodeExecuted with
    | none => .ok none
    | some runs =>
      match inputData.pinData.get? lastNodeExecuted, inputData.mode with
      | some lastNodePinData, .manual =>
        match runs.getLast? with
        | none => .error "Cannot read properties of undefined (reading 'source')"
        | some lastNodeRunData =>
          .ok (some (pinnedTaskData lastNodeRunData lastNodePinData))
      | _, _ => .ok runs.getLast?

/-- The parent's data with the results of the child as the input of its
    Execute Workflow node; none if there is no node to run. -/
def withChildResults (parent : ParentData R J) (data : Connections J) : Option (ParentData R J) :=
  match parent.nodeExecutionStack with
  | none | some [] => none
  | some (first :: rest) =>
    some { parent with
      nodeExecutionStack := some ({ first with data := data } :: rest) }

/-! ## The calls -/

/-- A call of `updateParentExecutionWithChildResults` at one of its awaits:
    the parent is being read, or `copy` is about to be written. -/
structure Call (R J : Type) where
  parentExecutionId : ExecutionId
  data : Connections J
  copy : Option (ParentData R J)

/-- The parent before and after a call has written. -/
structure Write (R J : Type) where
  before : Option (Execution (ParentData R J))
  after : Option (Execution (ParentData R J))

structure System (R J : Type) where
  executions : Executions (ParentData R J)
  calls : List (Call R J)
  writes : List (Write R J)

namespace System

def start (executions : Executions (ParentData R J)) : System R J :=
  { executions, calls := [], writes := [] }

/-- A child that waits itself has no results yet, and one whose last node
    has returned no data has none to hand on. -/
def childFinished (s : System R J) (parentExecutionId : ExecutionId)
    (subworkflowResults : RunResult J) : System R J :=
  if subworkflowResults.status = .waiting then s
  else
    match getDataLastExecutedNodeData subworkflowResults with
    | .error _ | .ok none => s
    | .ok (some lastExecutedNodeData) =>
      match lastExecutedNodeData.data with
      | none => s
      | some data =>
        { s with
          calls := s.calls ++ [{ parentExecutionId, data, copy := none }] }

def endCall (s : System R J) (n : Nat) : System R J :=
  { s with calls := s.calls.eraseIdx n }

/-- The parent has been read: what is to be written if it waits. -/
def read (s : System R J) (n : Nat) (call : Call R J) : System R J :=
  match s.executions.get? call.parentExecutionId with
  | none => s.endCall n
  | some parent =>
    if parent.status ≠ .waiting then s.endCall n
    else
      match withChildResults parent.data call.data with
      | none => s.endCall n
      | some copy => { s with calls := s.calls.set n { call with copy := some copy } }

/-- The data is written, and no status is required. -/
def write (s : System R J) (n : Nat) (call : Call R J) (copy : ParentData R J) : System R J :=
  let executions := (updateExistingExecution s.executions
    call.parentExecutionId { data := some copy } none).1
  { executions
    calls := s.calls.eraseIdx n
    writes := s.writes ++
      [{ before := s.executions.get? call.parentExecutionId
         after := executions.get? call.parentExecutionId }] }

end System

/-- `updates` is an update by anybody else: the resumption of the parent,
    the progress it saves, its completion or its being stopped. -/
inductive Event (R J : Type) where
  | childFinished (parentExecutionId : ExecutionId) (subworkflowResults : RunResult J)
  | reads (n : Nat)
  | writes (n : Nat)
  | updates (executionId : ExecutionId) (update : ExecutionUpdate (ParentData R J))
      (requireStatus : Option ExecutionStatus)
  | deletes (executionId : ExecutionId)

def System.next (s : System R J) : Event R J → Option (System R J)
  | .childFinished parentExecutionId subworkflowResults =>
    some (s.childFinished parentExecutionId subworkflowResults)
  | .reads n =>
    (s.calls[n]?).bind fun call =>
      if call.copy.isNone then some (s.read n call) else none
  | .writes n => (s.calls[n]?).bind fun call => call.copy.map (s.write n call)
  | .updates executionId update requireStatus =>
    some { s with
      executions := (updateExistingExecution s.executions executionId
        update requireStatus).1 }
  | .deletes executionId => some { s with executions := s.executions.delete executionId }

def Step (s : System R J) (e : Event R J) (t : System R J) : Prop := s.next e = some t

/-- A call changes the data of a parent only if the parent waits, and never
    puts back its result data. -/
structure OnlyWaiting (s : System R J) : Prop where
  waiting : ∀ w ∈ s.writes, w.after.map (·.data) ≠ w.before.map (·.data) →
    w.before.map (·.status) = some .waiting
  kept : ∀ w ∈ s.writes, w.after.map (·.data.resultData) = w.before.map (·.data.resultData)

/-- A call has read the parent and not yet written it. -/
def System.Holds (s : System R J) (parentExecutionId : ExecutionId) : Prop :=
  ∃ call ∈ s.calls, call.parentExecutionId = parentExecutionId ∧ call.copy.isSome = true

/-- The condition: while a call holds a copy of an execution, no update that
    is carried out takes it out of its wait or changes its result data. -/
def Undisturbed (s : System R J) : Event R J → Prop
  | .updates executionId update requireStatus =>
    s.Holds executionId → ∀ execution, s.executions.get? executionId = some execution →
        (update.hasInformation && requireStatus.any (· ≠ execution.status)) = false →
        (∀ status, update.status = some status → status = .waiting)
          ∧ ∀ data, update.data = some data → data.resultData = execution.data.resultData
  | _ => True

/-! ## What each step keeps -/

theorem withChildResults_resultData {parent copy : ParentData R J}
    {data : Connections J} (h : withChildResults parent data = some copy) :
    copy.resultData = parent.resultData := by
  rw [withChildResults] at h
  split at h
  · cases h
  · cases h
  · cases h
    rfl

/-- The invariant: an execution of which a call holds a copy still waits,
    with the result data of the copy. -/
structure Good (s : System R J) : Prop where
  held : ∀ call ∈ s.calls, ∀ copy, call.copy = some copy → ∀ execution,
      s.executions.get? call.parentExecutionId = some execution →
      execution.status = .waiting ∧ execution.data.resultData = copy.resultData
  onlyWaiting : OnlyWaiting s

theorem OnlyWaiting.of_writes {s t : System R J} (h : OnlyWaiting s)
    (hwrites : t.writes = s.writes) : OnlyWaiting t := by
  constructor
  · rw [hwrites]
    exact h.waiting
  · rw [hwrites]
    exact h.kept

theorem Good.start (executions : Executions (ParentData R J)) : Good (System.start executions) := by
  refine ⟨fun call hmem => ?_, fun w hmem => ?_, fun w hmem => ?_⟩
  · cases hmem
  · cases hmem
  · cases hmem

section

variable {s : System R J} {n : Nat} {call : Call R J}

section

variable (hs : Good s)
include hs

theorem Good.keep {calls : List (Call R J)}
    (hcalls : ∀ call ∈ calls, call ∈ s.calls ∨ call.copy = none) :
    Good { s with calls := calls } := by
  refine ⟨fun call hmem copy hcopy => ?_, hs.onlyWaiting.of_writes rfl⟩
  rcases hcalls call hmem with hold | hnone
  · exact hs.held call hold copy hcopy
  · rw [hnone] at hcopy
    cases hcopy

theorem Good.endCall (n : Nat) : Good (s.endCall n) :=
  hs.keep fun _ hmem => .inl (mem_of_mem_eraseIdx hmem)

theorem Good.childFinished (parentExecutionId : ExecutionId) (subworkflowResults : RunResult J) :
    Good (s.childFinished parentExecutionId subworkflowResults) := by
  rw [System.childFinished]
  split
  · exact hs
  · split
    · exact hs
    · exact hs
    · split
      · exact hs
      · refine hs.keep fun call hmem => ?_
        rcases mem_append.mp hmem with hmem | hmem
        · exact .inl hmem
        · rw [mem_singleton.mp hmem]
          exact .inr rfl

/-- **A READ** takes a copy of an execution that waits. -/
theorem Good.read : Good (s.read n call) := by
  rw [System.read]
  rcases hget : s.executions.get? call.parentExecutionId with _ | parent
  · exact hs.endCall n
  · dsimp only
    split
    · exact hs.endCall n
    · next hstatus =>
        rcases hcopied : withChildResults parent.data call.data with _ | copy
        · exact hs.endCall n
        · refine ⟨fun other hmem held hheld => ?_, hs.onlyWaiting.of_writes rfl⟩
          rcases mem_or_eq_of_mem_set hmem with hmem | rfl
          · exact hs.held other hmem held hheld
          · cases hheld
            intro execution hexecution
            cases hget.symm.trans hexecution
            exact ⟨not_not.mp hstatus, (withChildResults_resultData hcopied).symm⟩

/-- **A WRITE** finds the parent as it was read: other calls find its status
    and its result data unchanged. -/
theorem Good.write {copy : ParentData R J}
    (hmem : s.calls[n]? = some call) (hcopy : call.copy = some copy) :
    Good (s.write n call copy) := by
  have hin := mem_of_getElem? hmem
  rw [System.write]
  rcases hget : s.executions.get? call.parentExecutionId with _ | parent
  · rw [updateExistingExecution_missing hget]
    refine ⟨fun other hother =>
      hs.held other (mem_of_mem_eraseIdx hother), ?_, ?_⟩
    all_goals
      intro w hw
      rcases mem_append.mp hw with hw | hw
    · exact hs.onlyWaiting.waiting w hw
    · rw [mem_singleton.mp hw, hget]
      exact fun hne => absurd rfl hne
    · exact hs.onlyWaiting.kept w hw
    · rw [mem_singleton.mp hw, hget]
  · obtain ⟨hstatus, hresult⟩ := hs.held call hin copy hcopy parent hget
    rw [updateExistingExecution_unconditional hget]
    have hafter : (s.executions.set call.parentExecutionId
        (parent.change { data := some copy })).get? call.parentExecutionId
          = some (parent.change { data := some copy }) :=
      (OrderedMap.get?_set ..).trans (if_pos rfl)
    refine ⟨fun other hother held hheld execution hexecution => ?_, ?_, ?_⟩
    · have hold := hs.held other (mem_of_mem_eraseIdx hother) held hheld
      rw [OrderedMap.get?_set] at hexecution
      by_cases heq : call.parentExecutionId = other.parentExecutionId
      · rw [if_pos heq] at hexecution
        cases hexecution
        obtain ⟨-, hother⟩ := hold parent (heq ▸ hget)
        exact ⟨hstatus, hresult.symm.trans hother⟩
      · rw [if_neg heq] at hexecution
        exact hold execution hexecution
    all_goals
      intro w hw
      rcases mem_append.mp hw with hw | hw
    · exact hs.onlyWaiting.waiting w hw
    · rw [mem_singleton.mp hw]
      exact fun _ => congrArg some hstatus
    · exact hs.onlyWaiting.kept w hw
    · rw [mem_singleton.mp hw]
      rw [hafter]
      exact congrArg some hresult.symm

/-- **AN UPDATE** that meets the condition leaves what the calls have
    read. -/
theorem Good.update {executionId : ExecutionId} {update : ExecutionUpdate (ParentData R J)}
    {requireStatus : Option ExecutionStatus}
    (hcond : Undisturbed s (.updates executionId update requireStatus)) :
    Good { s with
      executions := (updateExistingExecution s.executions executionId update
        requireStatus).1 } := by
  refine ⟨fun call hmem copy hcopy execution hexecution => ?_, hs.onlyWaiting.of_writes rfl⟩
  have hold := hs.held call hmem copy hcopy
  by_cases heq : executionId = call.parentExecutionId
  · subst heq
    have hholds : s.Holds call.parentExecutionId := ⟨call, hmem, rfl, by rw [hcopy]; rfl⟩
    rw [updateExistingExecution] at hexecution
    rcases hget : s.executions.get? call.parentExecutionId with _ | parent
    · rw [hget] at hexecution
      cases hget.symm.trans hexecution
    · rw [hget] at hexecution
      dsimp only at hexecution
      split at hexecution
      · exact hold execution hexecution
      · next hcarried =>
          obtain ⟨hstatus, hresult⟩ := hcond hholds parent hget
            (Bool.eq_false_of_not_eq_true hcarried)
          obtain ⟨hwaits, hkept⟩ := hold parent hget
          rw [OrderedMap.get?_set, if_pos rfl] at hexecution
          cases hexecution
          constructor
          · rcases hs' : update.status with _ | status
            · rw [Execution.change, hs']
              exact hwaits
            · rw [Execution.change, hs']
              exact hstatus status hs'
          · rcases hd : update.data with _ | data
            · rw [Execution.change, hd]
              exact hkept
            · rw [Execution.change, hd]
              exact (hresult data hd).trans hkept
  · rw [get?_updateExistingExecution_ne heq] at hexecution
    exact hold execution hexecution

theorem Good.delete (executionId : ExecutionId) :
    Good { s with executions := s.executions.delete executionId } := by
  refine ⟨fun call hmem copy hcopy execution hexecution => ?_, hs.onlyWaiting.of_writes rfl⟩
  rw [OrderedMap.get?_delete] at hexecution
  split at hexecution
  · cases hexecution
  · exact hs.held call hmem copy hcopy execution hexecution

end

end

/-! ## Every run -/

/-- **ONE STEP** that meets the condition keeps the invariant. -/
theorem Good.step {s t : System R J} {e : Event R J} (hs : Good s)
    (hstep : Step s e t) (hcond : Undisturbed s e) : Good t := by
  cases e with
  | childFinished parentExecutionId subworkflowResults =>
    cases hstep
    exact hs.childFinished parentExecutionId subworkflowResults
  | reads n =>
    obtain ⟨call, -, hread⟩ := Option.bind_eq_some_iff.mp hstep
    split at hread
    · cases hread
      exact hs.read
    · cases hread
  | writes n =>
    obtain ⟨call, hmem, hwrite⟩ := Option.bind_eq_some_iff.mp hstep
    obtain ⟨copy, hcopy, rfl⟩ := Option.map_eq_some_iff.mp hwrite
    exact hs.write hmem hcopy
  | updates executionId update requireStatus =>
    cases hstep
    exact hs.update hcond
  | deletes executionId =>
    cases hstep
    exact hs.delete executionId

/-- **EVERY RUN**: child results only reach a parent that waits, and put
    back none of its result data, if no parent leaves its wait between a
    call's read and its write. -/
theorem onlyWaiting_of_undisturbed (executions : Executions (ParentData R J))
    {path : List (Event R J × System R J)}
    (hrun : IsRun Step (.start executions) path)
    (hcond : EveryStep Undisturbed (.start executions) path) :
    EveryState OnlyWaiting (.start executions) path :=
  (everyState_of_everyStep hrun (Good.start executions)
    (fun _ _ _ hs hstep hc => hs.step hstep hc) hcond).mono fun _ hs => hs.onlyWaiting

/-! ## Two runs -/

def after (s : System Nat Nat) (e : Event Nat Nat) : System Nat Nat := (s.next e).getD s

/-- A parent that waits for its children; `0` is its result data. -/
def oneParent : Executions (ParentData Nat Nat) :=
  OrderedMap.empty.set "1"
    { status := .waiting, finished := false, waitTill := some 9000,
      data := { resultData := 0,
                nodeExecutionStack := some [{ node := "Execute Workflow",
                                              data := .empty }] } }

/-- A child of it finishes and returns one item. -/
def oneChild : Event Nat Nat :=
  .childFinished "1"
    { mode := .integrated, status := .success, lastNodeExecuted := some "End"
      runData := OrderedMap.empty.set "End"
        [{ startTime := 0, executionIndex := 0, executionTime := 1,
           data := some (OrderedMap.empty.set "main" [some [{ json := 7, pairedItem := none }]]),
           source := [] }]
      pinData := .empty }

/-- The resumption of the parent by a child. -/
def resumed : Event Nat Nat :=
  .updates "1"
    { status := some .running, waitTill := some none,
      data := some { resultData := 0, nodeExecutionStack := some [] } }
    (some .waiting)

/-- The child writes its results, and then the parent is resumed. -/
def inTurn : List (Event Nat Nat) := [oneChild, .reads 0, .writes 0, resumed]

theorem onlyWaiting_inTurn :
    EveryState OnlyWaiting (.start oneParent) (pathOf after (.start oneParent) inTurn) :=
  have hrun : IsRun Step (.start oneParent) (pathOf after (.start oneParent) inTurn) :=
    ⟨rfl, rfl, rfl, rfl, trivial⟩
  onlyWaiting_of_undisturbed oneParent hrun
    ⟨trivial, trivial, trivial, fun ⟨_, hmem, _⟩ =>
      absurd hmem not_mem_nil, trivial⟩

/-- Another child resumes the parent after the read, and the parent saves
    `1` as its result data. -/
def overlapping : List (Event Nat Nat) :=
  [oneChild, .reads 0, resumed, .updates "1"
     { status := some .running,
       data := some { resultData := 1, nodeExecutionStack := some [] } } none,
   .writes 0]

/-- The write puts the result data back to `0`. -/
theorem results_reach_running_parent :
    ¬ ∀ path : List (Event Nat Nat × System Nat Nat), IsRun Step (.start oneParent) path →
      EveryState OnlyWaiting (.start oneParent) path := by
  intro hall
  have hkept := (hall (pathOf after (.start oneParent) overlapping)
    ⟨rfl, rfl, rfl, rfl, rfl, trivial⟩).last.kept
  revert hkept
  decide

end N8nChildResults
