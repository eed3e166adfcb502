import N8n.ExecutionRepositoryProofs

/-! # Saving the progress of an execution — read, change, write back

    After each node the progress of an execution is saved: the execution is
    read, the task data of the node is added to its run data, and the whole
    of it is written back.  Between the read and the write other calls do the
    same, and the execution is stopped, marked as crashed or saved for good.

    A write that finds the execution changed since the read undoes the
    change.  And a call that reads an execution which has failed or crashed
    stores it as running again, as only the canceled ones and the finished
    ones are looked for.  `savesProgress_of_unchanged` shows that there is
    nothing else. -/

namespace N8nExecutionProgress

open N8nRun N8nOrderedMap N8nEventLog List
open N8nCrashRecovery (ExecutionStatus)
open N8nExecutionRepository

variable {E T : Type}

/-! ## Run data -/

abbrev RunData (T : Type) := OrderedMap String (List T)

def runsOf (runData : RunData T) (nodeName : String) : List T := (runData.get? nodeName).getD []

/-- `(runData[nodeName] ??= []).push(data)`. -/
def pushTask (runData : RunData T) (nodeName : String) (data : T) : RunData T :=
  runData.set nodeName (runsOf runData nodeName ++ [data])

/-- The data of an execution, as far as it is read or changed here. -/
structure RunExecutionData (E T : Type) where
  runData : RunData T
  lastNodeExecuted : Option String
  error : Option String
  executionData : Option E

def createRunExecutionData : RunExecutionData E T :=
  { runData := .empty
    lastNodeExecuted := none
    error := none
    executionData := none }

/-- The data may be missing. -/
abbrev StoredExecution (E T : Type) := Execution (Option (RunExecutionData E T))

/-- The task data stored for a node. -/
def storedRuns (execution : StoredExecution E T) (nodeName : String) : List T :=
  (execution.data.map fun data => runsOf data.runData nodeName).getD []

/-! ## Calls -/

/-- A call of `saveExecutionProgress`, or of the service that stops an
    execution, which reads and writes it back in the same way. -/
inductive CallType (E T : Type) where
  | progress (nodeName : String) (data : T) (executionData : Option E)
  | stop

/-- A call reads the execution, then holds what it has read until it writes,
    and is done. -/
inductive Stage (E T : Type) where
  | reading
  | holding (fullExecutionData : StoredExecution E T)
  | done

structure Call (E T : Type) where
  type : CallType E T
  stage : Stage E T

def Call.task (call : Call E T) : Option (String × T) :=
  match call.type with
  | .progress nodeName data _ => some (nodeName, data)
  | .stop => none

/-- What `saveExecutionProgress` makes of the execution.  One that has been
    canceled stays so. -/
def withProgress (fullExecutionData : StoredExecution E T) (nodeName : String)
    (data : T) (executionData : Option E) : StoredExecution E T :=
  let full := fullExecutionData.data.getD createRunExecutionData
  { fullExecutionData with
    data := some
      { full with
        runData := pushTask full.runData nodeName data
        executionData := executionData
        lastNodeExecuted := some nodeName }
    status :=
      if fullExecutionData.status ≠ .canceled then .running
      else fullExecutionData.status }

/-- What `stopDuringRun` makes of it. -/
def withStop (execution : StoredExecution E T) : StoredExecution E T :=
  { execution with
    data := some
      { execution.data.getD createRunExecutionData with
        error := some "The execution was cancelled manually" }
    waitTill := none
    status := .canceled }

/-- Every column is written back, and the data. -/
def fullUpdate (execution : StoredExecution E T) :
    ExecutionUpdate (Option (RunExecutionData E T)) :=
  { status := some execution.status
    finished := some execution.finished
    waitTill := some execution.waitTill
    data := some execution.data }

def isStoppable (status : ExecutionStatus) : Bool := status ∈ [.new, .unknown, .waiting, .running]

def isTerminal (status : ExecutionStatus) : Bool := status ∈ [.success, .error, .crashed, .canceled]

/-- An execution that has ended and was not canceled. -/
def hasEnded (status : ExecutionStatus) : Bool := status ∈ [.success, .error, .crashed]

/-! ## The system -/

/-- The stored executions and the calls for one of them.  `memory` is the run
    data of the engine, `completed` the tasks of the calls that have completed
    before the final save, and `writes` has the status before and after each
    write of a progress. -/
structure System (E T : Type) where
  executions : Executions (Option (RunExecutionData E T))
  executionId : ExecutionId
  memory : RunData T
  calls : List (Call E T)
  finalSaved : Bool
  completed : List (String × T)
  writes : List (ExecutionStatus × ExecutionStatus)

namespace System

/-- The engine goes on from the run data that is stored. -/
def start (executions : Executions (Option (RunExecutionData E T)))
    (executionId : ExecutionId) : System E T :=
  { executions
    executionId
    memory := ((executions.get? executionId).bind (·.data)).elim .empty (·.runData)
    calls := []
    finalSaved := false
    completed := []
    writes := [] }

/-- The execution, if it is still there. -/
def stored (s : System E T) : Option (StoredExecution E T) := s.executions.get? s.executionId

def setStage (s : System E T) (n : Nat) (call : Call E T) (stage : Stage E T) : System E T :=
  { s with calls := s.calls.set n { call with stage := stage } }

def update (s : System E T)
    (update : ExecutionUpdate (Option (RunExecutionData E T))) : System E T :=
  { s with
    executions :=
      (updateExistingExecution s.executions s.executionId update none).1 }

/-- The engine adds the task data to its run data and runs the hook. -/
def saveExecutionProgress (s : System E T) (nodeName : String) (data : T)
    (executionData : Option E) : System E T :=
  { s with
    memory := pushTask s.memory nodeName data
    calls := s.calls ++
      [{ type := .progress nodeName data executionData, stage := .reading }] }

def read (s : System E T) (n : Nat) (call : Call E T) : System E T :=
  match s.stored with
  | none => s.setStage n call .done
  | some fullExecutionData =>
    match call.type with
    | .progress _ _ _ =>
      if fullExecutionData.finished then s.setStage n call .done
      else s.setStage n call (.holding fullExecutionData)
    | .stop =>
      if isStoppable fullExecutionData.status then
        s.setStage n call (.holding fullExecutionData)
      else s.setStage n call .done

def write (s : System E T) (n : Nat) (call : Call E T)
    (fullExecutionData : StoredExecution E T) : System E T :=
  match call.type with
  | .progress nodeName data executionData =>
    let changed := withProgress fullExecutionData nodeName data executionData
    let t := (s.update (fullUpdate changed)).setStage n call .done
    { t with
      completed :=
        if s.finalSaved then s.completed
        else s.completed ++ [(nodeName, data)]
      writes := s.writes ++
        (s.stored.map fun before => (before.status, changed.status)).toList }
  | .stop => (s.update (fullUpdate (withStop fullExecutionData))).setStage n call .done

end System

/-! ## What a call makes of the run data -/

theorem runsOf_pushTask (runData : RunData T) (nodeName other : String) (data : T) :
    runsOf (pushTask runData nodeName data) other
      = if nodeName = other then runsOf runData other ++ [data]
        else runsOf runData other := by
  rw [runsOf, pushTask, OrderedMap.get?_set]
  split
  · next heq =>
      subst heq
      rfl
  · rfl

section

variable (execution : StoredExecution E T)

theorem storedRuns_eq (nodeName : String) :
    storedRuns execution nodeName
      = runsOf (execution.data.getD createRunExecutionData).runData nodeName := by
  rw [storedRuns]
  cases execution.data <;> rfl

theorem storedRuns_withProgress (nodeName other : String) (data : T) (executionData : Option E) :
    storedRuns (withProgress execution nodeName data executionData) other
      = if nodeName = other then storedRuns execution other ++ [data]
        else storedRuns execution other := by
  rw [storedRuns_eq execution]
  exact runsOf_pushTask ..

theorem storedRuns_withStop : storedRuns (withStop execution) = storedRuns execution := by
  funext nodeName
  rw [storedRuns_eq execution]
  rfl

theorem change_fullUpdate (changed : StoredExecution E T) :
    execution.change (fullUpdate changed) = changed := rfl

end

theorem stored_update (s : System E T) (update : ExecutionUpdate (Option (RunExecutionData E T))) :
    (s.update update).stored = s.stored.map (·.change update) := by
  rw [System.stored, System.stored, System.update]
  rcases hget : s.executions.get? s.executionId with _ | execution
  · rw [updateExistingExecution_missing hget]
    exact hget
  · rw [updateExistingExecution_unconditional hget]
    exact (OrderedMap.get?_set ..).trans (if_pos rfl)

variable {call : Call E T} {s : System E T}

theorem write_progress {n : Nat} {nodeName : String} {data : T} {executionData : Option E}
    (htype : call.type = .progress nodeName data executionData)
    (fullExecutionData : StoredExecution E T) :
    s.write n call fullExecutionData
      = { (s.update (fullUpdate (withProgress fullExecutionData nodeName data
            executionData))).setStage n call .done with
          completed :=
            if s.finalSaved then s.completed
            else s.completed ++ [(nodeName, data)]
          writes := s.writes ++
            (s.stored.map fun before => (before.status,
              (withProgress fullExecutionData nodeName data
                executionData).status)).toList } := by
  rw [System.write, htype]

theorem getElem?_setStage_self {n : Nat} (hcall : s.calls[n]? = some call) (stage : Stage E T) :
    (s.setStage n call stage).calls[n]? = some { call with stage } :=
  List.getElem?_set_self (List.getElem?_eq_some_iff.mp hcall).1

section

variable {c : Call E T} {i n : Nat} {stage : Stage E T} (hcall : s.calls[n]? = some call)
  (hc : (s.setStage n call stage).calls[i]? = some c)
include hcall hc

theorem getElem?_setStage :
    (i = n ∧ c = { call with stage := stage }) ∨ i ≠ n ∧ s.calls[i]? = some c := by
  by_cases heq : n = i
  · subst heq
    rw [getElem?_setStage_self hcall] at hc
    exact .inl ⟨rfl, (Option.some.inj hc).symm⟩
  · have hset : (s.calls.set n { call with stage })[i]? = some c := hc
    rw [getElem?_set_ne heq] at hset
    exact .inr ⟨Ne.symm heq, hset⟩

theorem task_of_setStage : ∃ old, s.calls[i]? = some old ∧ old.task = c.task := by
  rcases getElem?_setStage hcall hc with ⟨rfl, rfl⟩ | ⟨-, hold⟩
  · exact ⟨call, hcall, rfl⟩
  · exact ⟨c, hold, rfl⟩

end

theorem eq_canceled {status : ExecutionStatus}
    (hterminal : isTerminal status = true) (hended : hasEnded status = false) :
    status = .canceled := by
  revert hterminal hended
  cases status <;> decide

/-! ## Runs -/

/-- The events.  `cancels` and `crashes` write the status only, `finalSaves`
    everything that the engine has; a call fails when a repository operation
    does. -/
inductive Event (E T : Type) where
  | saves (nodeName : String) (data : T) (executionData : Option E)
  | stops
  | reads (n : Nat)
  | writes (n : Nat)
  | fails (n : Nat)
  | cancels
  | crashes
  | finalSaves (status : ExecutionStatus) (finished : Bool)
      (waitTill : Option Int) (lastNodeExecuted error : Option String) (executionData : Option E)
  | deletes

variable [DecidableEq T]

/-- The calls are for different runs: the task data of a call is new. -/
def System.next (s : System E T) : Event E T → Option (System E T)
  | .saves nodeName data executionData =>
    if data ∈ runsOf s.memory nodeName then none
    else some (s.saveExecutionProgress nodeName data executionData)
  | .stops => some { s with calls := s.calls ++ [{ type := .stop, stage := .reading }] }
  | .reads n =>
    (s.calls[n]?).bind fun call =>
      match call.stage with
      | .reading => some (s.read n call)
      | _ => none
  | .writes n =>
    (s.calls[n]?).bind fun call =>
      match call.stage with
      | .holding fullExecutionData => some (s.write n call fullExecutionData)
      | _ => none
  | .fails n => (s.calls[n]?).map fun call => s.setStage n call .done
  | .cancels => some (s.update { status := some .canceled })
  | .crashes => some (s.update { status := some .crashed })
  | .finalSaves status finished waitTill lastNodeExecuted error executionData =>
    some { s.update
        { status := some status
          finished := some finished
          waitTill := some waitTill
          data := some (some
            { runData := s.memory, lastNodeExecuted, error,
              executionData }) } with
      finalSaved := true }
  | .deletes => some { s with executions := s.executions.delete s.executionId }

def Step (s : System E T) (e : Event E T) (t : System E T) : Prop := s.next e = some t

/-- The task data of the completed calls is stored once, and no write of a
    progress has changed the status of an execution that has ended. -/
structure SavesProgress (s : System E T) : Prop where
  once : ∀ p ∈ s.completed, ∀ execution, s.stored = some execution →
    (storedRuns execution p.1).count p.2 = 1
  keepsStatus : ∀ w ∈ s.writes, isTerminal w.1 = true → w.2 = w.1

/-- The condition: no progress is saved for an execution that is read as
    successful, failed or crashed and not as finished, and each write finds
    the execution as it was read. -/
def Unchanged (s : System E T) : Event E T → Prop
  | .reads n => ∀ call, s.calls[n]? = some call → call.task.isSome = true →
      ∀ execution, s.stored = some execution →
        execution.finished = false → hasEnded execution.status = false
  | .writes n => ∀ call fullExecutionData, s.calls[n]? = some call →
      call.stage = .holding fullExecutionData →
      ∀ execution, s.stored = some execution → execution = fullExecutionData
  | _ => True

/-! ## What each step keeps -/

theorem count_push {nodeName : String} {data : T} {p : String × T} (runs : List T) :
    (if nodeName = p.1 then runs ++ [data] else runs).count p.2
      = if (nodeName, data) = p then runs.count p.2 + 1
        else runs.count p.2 := by
  obtain ⟨node, task⟩ := p
  by_cases hnode : nodeName = node
  · by_cases htask : data = task
    · simp [hnode, htask]
    · simp [hnode, htask]
  · simp [hnode]

/-- The invariant.  Each task has one call and is in the memory of the engine
    once.  It is stored once when its call has completed, and not at all
    before that, up to the final save.  What is stored is in the memory. -/
structure Good (s : System E T) : Prop where
  unique : ∀ (i j : Nat) (c d : Call E T) (p : String × T),
    s.calls[i]? = some c → s.calls[j]? = some d → c.task = some p → d.task = some p → i = j
  inMemory : ∀ (i : Nat) (c : Call E T) (p : String × T),
    s.calls[i]? = some c → c.task = some p → (runsOf s.memory p.1).count p.2 = 1
  called : ∀ p ∈ s.completed, ∃ (i : Nat) (c : Call E T),
    s.calls[i]? = some c ∧ c.task = some p ∧ c.stage = .done
  pending : s.finalSaved = false →
    ∀ (i : Nat) (c : Call E T) (p : String × T), s.calls[i]? = some c →
      c.task = some p → c.stage ≠ .done → ∀ execution, s.stored = some execution →
        (storedRuns execution p.1).count p.2 = 0
  within : ∀ execution, s.stored = some execution → ∀ nodeName,
    ∀ data ∈ storedRuns execution nodeName, data ∈ runsOf s.memory nodeName
  held : ∀ (i : Nat) (c : Call E T) (execution : StoredExecution E T),
    s.calls[i]? = some c → c.task.isSome = true →
      c.stage = .holding execution → hasEnded execution.status = false
  savesProgress : SavesProgress s

theorem Good.start (executions : Executions (Option (RunExecutionData E T)))
    (executionId : ExecutionId) : Good (.start executions executionId) := by
  refine ⟨?_, ?_, ?_, ?_, ?_, ?_, ?_, ?_⟩
  · rintro i j c d p hc
    cases hc
  · rintro i c p hc
    cases hc
  · rintro p hp
    cases hp
  · rintro - i c p hc
    cases hc
  · intro execution hstored nodeName data hdata
    have hget : executions.get? executionId = some execution := hstored
    rw [storedRuns] at hdata
    rw [System.start]
    rw [hget, Option.bind_some]
    cases hd : execution.data with
    | none =>
      rw [hd] at hdata
      cases hdata
    | some runExecutionData =>
      rw [hd] at hdata
      exact hdata
  · rintro i c execution hc
    cases hc
  · rintro p hp
    cases hp
  · rintro w hw
    cases hw

section

variable {s t : System E T}

theorem Good.sameRuns (hs : Good s) (hmemory : t.memory = s.memory)
    (hcalls : t.calls = s.calls) (hfinal : t.finalSaved = s.finalSaved)
    (hcompleted : t.completed = s.completed) (hwrites : t.writes = s.writes)
    (hstored : ∀ execution, t.stored = some execution → ∃ before, s.stored = some before
        ∧ storedRuns execution = storedRuns before) : Good t := by
  refine ⟨?_, ?_, ?_, ?_, ?_, ?_, ?_, ?_⟩
  · rw [hcalls]
    exact hs.unique
  · rw [hcalls, hmemory]
    exact hs.inMemory
  · rw [hcalls, hcompleted]
    exact hs.called
  · rw [hcalls, hfinal]
    intro hsaved i c p hc hp hstage execution hexecution
    obtain ⟨before, hbefore, hruns⟩ := hstored execution hexecution
    rw [hruns]
    exact hs.pending hsaved i c p hc hp hstage before hbefore
  · rw [hmemory]
    intro execution hexecution
    obtain ⟨before, hbefore, hruns⟩ := hstored execution hexecution
    rw [hruns]
    exact hs.within before hbefore
  · rw [hcalls]
    exact hs.held
  · rw [hcompleted]
    intro p hp execution hexecution
    obtain ⟨before, hbefore, hruns⟩ := hstored execution hexecution
    rw [hruns]
    exact hs.savesProgress.once p hp before hbefore
  · rw [hwrites]
    exact hs.savesProgress.keepsStatus

theorem Good.updateStatus (hs : Good s) (status : ExecutionStatus) :
    Good (s.update { status := some status }) := by
  refine hs.sameRuns rfl rfl rfl rfl rfl fun execution hexecution => ?_
  rw [stored_update] at hexecution
  obtain ⟨before, hbefore, rfl⟩ := Option.map_eq_some_iff.mp hexecution
  exact ⟨before, hbefore, rfl⟩

theorem Good.delete (hs : Good s) :
    Good { s with executions := s.executions.delete s.executionId } := by
  refine hs.sameRuns rfl rfl rfl rfl rfl fun execution hexecution => ?_
  have hget := (OrderedMap.get?_delete ..).symm.trans hexecution
  rw [if_pos rfl] at hget
  cases hget

variable {call : Call E T} {n : Nat}

theorem Good.setStage (hs : Good s) {stage : Stage E T} (hcall : s.calls[n]? = some call)
    (hopen : call.stage ≠ .done ∨ stage = .done)
    (hheld : call.task.isSome = true → ∀ execution,
      stage = .holding execution → hasEnded execution.status = false) :
    Good (s.setStage n call stage) := by
  refine ⟨?_, ?_, ?_, ?_, hs.within, ?_, hs.savesProgress.once, hs.savesProgress.keepsStatus⟩
  · intro i j c d p hc hd hcp hdp
    obtain ⟨c', hc', hctask⟩ := task_of_setStage hcall hc
    obtain ⟨d', hd', hdtask⟩ := task_of_setStage hcall hd
    exact hs.unique i j c' d' p hc' hd' (hctask.trans hcp) (hdtask.trans hdp)
  · intro i c p hc hp
    obtain ⟨c', hc', htask⟩ := task_of_setStage hcall hc
    exact hs.inMemory i c' p hc' (htask.trans hp)
  · intro p hp
    obtain ⟨i, c, hc, htask, hdone⟩ := hs.called p hp
    by_cases heq : n = i
    · subst heq
      cases hcall.symm.trans hc
      rcases hopen with hopen | rfl
      · exact absurd hdone hopen
      · exact ⟨n, { call with stage := .done }, getElem?_setStage_self hcall .done, htask, rfl⟩
    · refine ⟨i, c, ?_, htask, hdone⟩
      show (s.calls.set n _)[i]? = _
      rw [getElem?_set, if_neg heq]
      exact hc
  · intro hsaved i c p hc hp hstage execution hexecution
    rcases getElem?_setStage hcall hc with ⟨rfl, rfl⟩ | ⟨-, hold⟩
    · rcases hopen with hopen | rfl
      · exact hs.pending hsaved i call p hcall hp hopen execution hexecution
      · exact absurd rfl hstage
    · exact hs.pending hsaved i c p hold hp hstage execution hexecution
  · intro i c execution hc hp hstage
    rcases getElem?_setStage hcall hc with ⟨rfl, rfl⟩ | ⟨-, hold⟩
    · exact hheld hp execution hstage
    · exact hs.held i c execution hold hp hstage

/-- A call begins, with a task that is nowhere yet or with none. -/
theorem Good.addCall (hs : Good s) {memory : RunData T} (hreading : call.stage = .reading)
    (hmemory : ∀ (i : Nat) (c : Call E T) (p : String × T),
      s.calls[i]? = some c → c.task = some p → (runsOf memory p.1).count p.2 = 1)
    (hgrows : ∀ nodeName, ∀ data ∈ runsOf s.memory nodeName, data ∈ runsOf memory nodeName)
    (hnew : ∀ p, call.task = some p →
      (runsOf memory p.1).count p.2 = 1 ∧ p.2 ∉ runsOf s.memory p.1) :
    Good { s with memory := memory, calls := s.calls ++ [call] } := by
  -- A task of another call is in the memory.
  have hother : ∀ (i : Nat) (c : Call E T) (p : String × T),
      s.calls[i]? = some c → c.task = some p → call.task ≠ some p := by
    intro i c p hc hp hcall
    refine (hnew p hcall).2 (count_pos_iff.mp ?_)
    rw [hs.inMemory i c p hc hp]
    exact Nat.one_pos
  refine ⟨?_, ?_, ?_, ?_, ?_, ?_, hs.savesProgress.once, hs.savesProgress.keepsStatus⟩
  · intro i j c d p hc hd hcp hdp
    rcases getElem?_concat_some hc with hold | ⟨rfl, rfl⟩ <;>
      rcases getElem?_concat_some hd with hold' | ⟨rfl, rfl⟩
    · exact hs.unique i j c d p hold hold' hcp hdp
    · exact absurd hdp (hother i c p hold hcp)
    · exact absurd hcp (hother j d p hold' hdp)
    · rfl
  · intro i c p hc hp
    rcases getElem?_concat_some hc with hc | ⟨rfl, rfl⟩
    · exact hmemory i c p hc hp
    · exact (hnew p hp).1
  · intro p hp
    obtain ⟨i, c, hc, htask, hdone⟩ := hs.called p hp
    exact ⟨i, c, getElem?_concat_of_some hc, htask, hdone⟩
  · intro hsaved i c p hc hp hstage execution hexecution
    rcases getElem?_concat_some hc with hc | ⟨rfl, rfl⟩
    · exact hs.pending hsaved i c p hc hp hstage execution hexecution
    · refine count_eq_zero.mpr fun hmem => ?_
      exact (hnew p hp).2 (hs.within execution hexecution p.1 p.2 hmem)
  · intro execution hexecution nodeName data hdata
    exact hgrows nodeName data (hs.within execution hexecution _ _ hdata)
  · intro i c execution hc hp hstage
    rcases getElem?_concat_some hc with hc | ⟨rfl, rfl⟩
    · exact hs.held i c execution hc hp hstage
    · rw [hreading] at hstage
      cases hstage

variable {nodeName : String}

/-- **A NODE HAS RUN**: its task data is new. -/
theorem Good.save (hs : Good s) {data : T}
    (hfresh : data ∉ runsOf s.memory nodeName) (executionData : Option E) :
    Good (s.saveExecutionProgress nodeName data executionData) := by
  have hcount : ∀ p : String × T, (runsOf (pushTask s.memory nodeName data) p.1).count p.2
        = if (nodeName, data) = p then (runsOf s.memory p.1).count p.2 + 1
          else (runsOf s.memory p.1).count p.2 := by
    intro p
    rw [runsOf_pushTask, count_push]
  refine hs.addCall rfl ?_ ?_ ?_
  · intro i c p hc hp
    have hone := hs.inMemory i c p hc hp
    rw [hcount, if_neg]
    · exact hone
    · rintro rfl
      rw [count_eq_zero.mpr hfresh] at hone
      cases hone
  · intro other task hmem
    rw [runsOf_pushTask]
    split
    · exact mem_append_left _ hmem
    · exact hmem
  · rintro p ⟨⟩
    refine ⟨?_, hfresh⟩
    rw [hcount, if_pos rfl, count_eq_zero.mpr hfresh]

theorem Good.stop (hs : Good s) :
    Good { s with
      calls := s.calls ++ [{ type := .stop, stage := .reading }] } :=
  hs.addCall rfl hs.inMemory (fun _ _ hmem => hmem) fun _ htask => by
    cases htask

/-- **A READ** that meets the condition. -/
theorem Good.read (hs : Good s) (hcall : s.calls[n]? = some call) (hreading : call.stage = .reading)
    (hcond : Unchanged s (.reads n)) : Good (s.read n call) := by
  have hopen : call.stage ≠ .done := by
    rw [hreading]
    rintro ⟨⟩
  have hend : Good (s.setStage n call .done) :=
    hs.setStage hcall (.inr rfl) fun _ _ hholding => by cases hholding
  rw [System.read]
  rcases hstored : s.stored with _ | fullExecutionData
  · exact hend
  · dsimp only
    split
    · split
      · exact hend
      · next hunfinished =>
          refine hs.setStage hcall (.inl hopen) fun htask execution heq => ?_
          cases heq
          exact hcond call hcall htask fullExecutionData hstored
            (Bool.eq_false_of_not_eq_true hunfinished)
    · next htype =>
        split
        · refine hs.setStage hcall (.inl hopen) fun htask => ?_
          rw [Call.task, htype] at htask
          cases htask
        · exact hend

/-- **THE FINAL SAVE** stores what the engine has. -/
theorem Good.finalSave (hs : Good s) {update : ExecutionUpdate (Option (RunExecutionData E T))}
    (hruns : ∀ execution : StoredExecution E T,
      storedRuns (execution.change update) = runsOf s.memory) :
    Good { s.update update with finalSaved := true } := by
  have hstored : ∀ execution, (s.update update).stored = some execution →
      storedRuns execution = runsOf s.memory := by
    intro execution hexecution
    rw [stored_update] at hexecution
    obtain ⟨before, -, rfl⟩ := Option.map_eq_some_iff.mp hexecution
    exact hruns before
  refine ⟨hs.unique, hs.inMemory, hs.called, ?_, ?_, hs.held, ?_, hs.savesProgress.keepsStatus⟩
  · rintro ⟨⟩
  · intro execution hexecution nodeName data hdata
    rw [hstored execution hexecution] at hdata
    exact hdata
  · intro p hp execution hexecution
    obtain ⟨i, c, hc, htask, -⟩ := hs.called p hp
    rw [hstored execution hexecution]
    exact hs.inMemory i c p hc htask

variable {fullExecutionData : StoredExecution E T}

theorem stored_writeProgress {data : T} {executionData : Option E} {execution : StoredExecution E T}
    (htype : call.type = .progress nodeName data executionData)
    (hfound : ∀ execution, s.stored = some execution → execution = fullExecutionData)
    (h : (s.write n call fullExecutionData).stored = some execution) :
    s.stored = some fullExecutionData
      ∧ ∀ p : String × T, (storedRuns execution p.1).count p.2
        = if (nodeName, data) = p
          then (storedRuns fullExecutionData p.1).count p.2 + 1
          else (storedRuns fullExecutionData p.1).count p.2 := by
  rw [write_progress htype] at h
  have hupdate := (stored_update s _).symm.trans h
  obtain ⟨before, hbefore, rfl⟩ := Option.map_eq_some_iff.mp hupdate
  refine ⟨(hfound before hbefore) ▸ hbefore, fun p => ?_⟩
  rw [change_fullUpdate, storedRuns_withProgress, count_push]

section

variable (hs : Good s) (hcall : s.calls[n]? = some call)
include hs hcall

theorem Good.task_ne {i : Nat} {c : Call E T} {task p : String × T} (htask : call.task = some task)
    (hc : s.calls[i]? = some c) (hp : c.task = some p) (hne : i ≠ n) : task ≠ p := by
  rintro rfl
  exact hne (hs.unique i n c call _ hc hcall hp htask)

theorem Good.completed_ne {task : String × T}
    (htask : call.task = some task) (hopen : call.stage ≠ .done) :
    ∀ p ∈ s.completed, task ≠ p := by
  intro p hp
  obtain ⟨i, c, hc, hctask, hdone⟩ := hs.called p hp
  refine hs.task_ne hcall htask hc hctask ?_
  rintro rfl
  cases hcall.symm.trans hc
  exact hopen hdone

/-- **A WRITE** of a progress that finds the execution as it was read: the
    task is stored for the first time, up to the final save, and the others
    as often as before. -/
theorem Good.writeProgress {data : T} {executionData : Option E}
    (htype : call.type = .progress nodeName data executionData)
    (hholding : call.stage = .holding fullExecutionData)
    (hfound : ∀ execution, s.stored = some execution → execution = fullExecutionData) :
    Good (s.write n call fullExecutionData) := by
  have htask : call.task = some (nodeName, data) := by
    rw [Call.task, htype]
  have hopen : call.stage ≠ .done := by
    rw [hholding]
    rintro ⟨⟩
  have hstored : ∀ execution, (s.write n call fullExecutionData).stored = some execution → _ :=
    fun _ => stored_writeProgress htype hfound
  have hcompleted := hs.completed_ne hcall htask hopen
  have hset : Good (s.setStage n call .done) :=
    hs.setStage hcall (.inr rfl) fun _ _ hholding => by cases hholding
  rw [write_progress htype] at hstored ⊢
  refine ⟨hset.unique, hset.inMemory, ?_, ?_, ?_, hset.held, ?_, ?_⟩
  · intro p hp
    split at hp
    · exact hset.called p hp
    · rcases mem_append.mp hp with hp | hp
      · exact hset.called p hp
      · rw [mem_singleton.mp hp]
        exact ⟨n, { call with stage := .done }, getElem?_setStage_self hcall .done, htask, rfl⟩
  · intro hsaved i c p hc hp hstage execution hexecution
    obtain ⟨hbefore, hcount⟩ := hstored execution hexecution
    rcases getElem?_setStage hcall hc with ⟨rfl, rfl⟩ | ⟨hne, hold⟩
    · exact absurd rfl hstage
    · rw [hcount, if_neg (hs.task_ne hcall htask hold hp hne)]
      exact hs.pending hsaved i c p hold hp hstage _ hbefore
  · intro execution hexecution node task htaskmem
    obtain ⟨hbefore, hcount⟩ := hstored execution hexecution
    have hpos := count_pos_iff.mpr htaskmem
    by_cases heq : (nodeName, data) = (node, task)
    · refine count_pos_iff.mp ?_
      have hone := hs.inMemory n call (node, task) hcall (heq ▸ htask)
      show 0 < (runsOf s.memory node).count task
      rw [hone]
      exact Nat.one_pos
    · rw [hcount (node, task), if_neg heq] at hpos
      exact hs.within _ hbefore node task (count_pos_iff.mp hpos)
  · intro p hp execution hexecution
    obtain ⟨hbefore, hcount⟩ := hstored execution hexecution
    rw [hcount]
    cases hsaved : s.finalSaved with
    | true =>
      rw [hsaved] at hp
      rw [if_neg (hcompleted p hp)]
      exact hs.savesProgress.once p hp _ hbefore
    | false =>
      rw [hsaved] at hp
      rcases mem_append.mp hp with hp | hp
      · rw [if_neg (hcompleted p hp)]
        exact hs.savesProgress.once p hp _ hbefore
      · rw [mem_singleton.mp hp, if_pos rfl]
        rw [hs.pending hsaved n call _ hcall htask hopen _ hbefore]
  · intro w hw hterminal
    rcases mem_append.mp hw with hw | hw
    · exact hs.savesProgress.keepsStatus w hw hterminal
    · obtain ⟨before, hbefore, rfl⟩ := Option.map_eq_some_iff.mp (Option.mem_toList.mp hw)
      rw [hfound before hbefore] at hterminal ⊢
      have hended := hs.held n call fullExecutionData hcall (by rw [htask]; rfl) hholding
      rw [withProgress]
      rw [if_neg (not_not.mpr (eq_canceled hterminal hended))]

theorem Good.writeStop (htype : call.type = .stop)
    (hfound : ∀ execution, s.stored = some execution → execution = fullExecutionData) :
    Good (s.write n call fullExecutionData) := by
  have hset : Good (s.setStage n call .done) :=
    hs.setStage hcall (.inr rfl) fun _ _ hholding => by cases hholding
  rw [System.write, htype]
  refine hset.sameRuns rfl rfl rfl rfl rfl fun execution hexecution => ?_
  have hupdate := (stored_update s _).symm.trans hexecution
  obtain ⟨before, hbefore, rfl⟩ := Option.map_eq_some_iff.mp hupdate
  refine ⟨before, hbefore, ?_⟩
  rw [change_fullUpdate, storedRuns_withStop, hfound before hbefore]

end

end

/-! ## Every run -/

/-- **ONE STEP** that meets the condition keeps the invariant. -/
theorem Good.step {t : System E T} {e : Event E T} (hs : Good s)
    (hstep : Step s e t) (hcond : Unchanged s e) : Good t := by
  rw [Step] at hstep
  cases e with
  | saves nodeName data executionData =>
    rw [System.next] at hstep
    split at hstep
    · cases hstep
    · next hfresh =>
        cases hstep
        exact hs.save hfresh executionData
  | stops =>
    cases hstep
    exact hs.stop
  | reads n =>
    obtain ⟨call, hcall, hread⟩ := Option.bind_eq_some_iff.mp hstep
    split at hread
    · next hreading =>
        cases hread
        exact hs.read hcall hreading hcond
    · cases hread
  | writes n =>
    obtain ⟨call, hcall, hwrite⟩ := Option.bind_eq_some_iff.mp hstep
    split at hwrite
    · next fullExecutionData hholding =>
        cases hwrite
        have hfound := hcond call fullExecutionData hcall hholding
        cases htype : call.type with
        | progress nodeName data executionData =>
          exact hs.writeProgress hcall htype hholding hfound
        | stop => exact hs.writeStop hcall htype hfound
    · cases hwrite
  | fails n =>
    obtain ⟨call, hcall, rfl⟩ := Option.map_eq_some_iff.mp hstep
    exact hs.setStage hcall (.inr rfl) fun _ _ hholding => by cases hholding
  | cancels =>
    cases hstep
    exact hs.updateStatus .canceled
  | crashes =>
    cases hstep
    exact hs.updateStatus .crashed
  | finalSaves status finished waitTill lastNodeExecuted error executionData =>
    cases hstep
    exact hs.finalSave fun _ => rfl
  | deletes =>
    cases hstep
    exact hs.delete

/-- **EVERY RUN**: the task data of every call that has completed is stored
    once, and no execution that has ended is revived, if no call reads an
    execution that has ended without being finished and nothing changes the
    execution between a read and its write. -/
theorem savesProgress_of_unchanged
    (executions : Executions (Option (RunExecutionData E T))) (executionId : ExecutionId)
    {path : List (Event E T × System E T)}
    (hrun : IsRun Step (.start executions executionId) path)
    (hcond : EveryStep Unchanged (.start executions executionId) path) :
    EveryState SavesProgress (.start executions executionId) path :=
  (everyState_of_everyStep hrun (Good.start executions executionId)
    (fun _ _ _ hs hstep hc => hs.step hstep hc) hcond).mono fun _ hs => hs.savesProgress

/-! ## Two runs -/

def after (s : System Unit Nat) (e : Event Unit Nat) : System Unit Nat := (s.next e).getD s

/-- An execution that runs, with no task data yet. -/
def oneExecution : Executions (Option (RunExecutionData Unit Nat)) :=
  OrderedMap.empty.set "1"
    { status := .running, finished := false, waitTill := none, data := none }

def runs (data : Nat) : Event Unit Nat := .saves "Agent" data none

/-- The progress of two runs is saved, one after the other, and the execution
    ends with success. -/
def inTurn : List (Event Unit Nat) :=
  [runs 1, .reads 0, .writes 0, runs 2, .reads 1, .writes 1,
   .finalSaves .success true none (some "Agent") none none]

theorem savesProgress_inTurn :
    EveryState SavesProgress (.start oneExecution "1")
      (pathOf after (.start oneExecution "1") inTurn) := by
  have hrun : IsRun Step (.start oneExecution "1")
      (pathOf after (.start oneExecution "1") inTurn) :=
    ⟨rfl, rfl, rfl, rfl, rfl, rfl, rfl, trivial⟩
  refine savesProgress_of_unchanged oneExecution "1" hrun
    ⟨trivial, ?_, ?_, trivial, ?_, ?_, trivial, trivial⟩
  · intro call _ _ execution hstored _
    exact Option.some.inj hstored ▸ rfl
  · intro call full hcall hstage execution hstored
    cases Option.some.inj hcall
    cases Stage.holding.inj hstage
    exact (Option.some.inj hstored).symm
  · intro call _ _ execution hstored _
    exact Option.some.inj hstored ▸ rfl
  · intro call full hcall hstage execution hstored
    cases Option.some.inj hcall
    cases Stage.holding.inj hstage
    exact (Option.some.inj hstored).symm

/-- The second call reads before the first one has written, and writes after
    it: the task data of the first is lost when the execution crashes. -/
theorem overlapping_calls_lose_progress :
    ¬ ∀ path : List (Event Unit Nat × System Unit Nat), IsRun Step (.start oneExecution "1") path →
      EveryState SavesProgress (.start oneExecution "1") path := by
  intro hall
  have honce := (hall (pathOf after (.start oneExecution "1")
    [runs 1, runs 2, .reads 0, .reads 1, .writes 0, .writes 1, .crashes])
    ⟨rfl, rfl, rfl, rfl, rfl, rfl, rfl, trivial⟩).last.once ("Agent", 1) (mem_cons_self ..) _ rfl
  revert honce
  decide

end N8nExecutionProgress
