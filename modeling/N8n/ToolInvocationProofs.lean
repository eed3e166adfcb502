import N8n.RunProofs
import N8n.OrderedMapProofs
import N8n.TextSearchProofs

/-! # Tool invocations — the run records of an agent's tool

    A handler made by `makeHandleToolInvocation` numbers the attempts of its
    invocations with a counter of its own.  An attempt takes its number,
    may sleep, and then writes its input behind the last run of the tool;
    its output goes to the run with its number.

    The two places are the same when a number is taken only while it is the
    number of runs and nobody sleeps on an earlier one.
    `ownRecords_of_inTurn` shows that every attempt then has a record of its
    own, in every run of any number of handlers and invocations. -/

namespace N8nToolInvocation

open N8nRun N8nOrderedMap List

variable {J : Type}

/-! ## The node and its results -/

/-- The settings of the tool node. -/
structure INode where
  retryOnFail : Bool
  maxTries : Option Int
  waitBetweenTries : Option Int

/-- `maxTries` as the handler reads it. -/
def INode.tries (node : INode) : Int :=
  if node.retryOnFail then min 5 (max 2 (node.maxTries.getD 3)) else 1

/-- `waitBetweenTries` as the handler reads it. -/
def INode.wait (node : INode) : Int :=
  if node.retryOnFail then
    min 5000 (max 0 (node.waitBetweenTries.getD 1000))
  else 0

structure INodeExecutionData (J : Type) where
  json : OrderedMap String J
  binary : Bool

/-- What `execute` of a node type resolves to. -/
inductive NodeOutput (J : Type) where
  | nothing
  | engineRequest
  | branches (data : List (List (INodeExecutionData J)))

def containsBinaryData : NodeOutput J → Bool
  | .branches data => data.any fun branch => branch.any (·.binary)
  | _ => false

def containsDataThatIsUsefulToTheAgent : NodeOutput J → Bool
  | .branches data => data.any fun branch => branch.any fun item => 0 < item.json.size
  | _ => false

inductive Response (J : Type) where
  | nothing
  | text (text : String)
  | items (json : List (OrderedMap String J))

def mapResult (result : NodeOutput J) : Response J :=
  match result with
  | .nothing => .nothing
  | .engineRequest =>
    .text ("Error: The Tool attempted to return an engine request,"
      ++ " which is not supported in Agents")
  | .branches data =>
    if containsBinaryData result && !containsDataThatIsUsefulToTheAgent result then
      .text ("Error: The Tool attempted to return binary data,"
        ++ " which is not supported in Agents")
    else
      match data with
      | [] => .nothing
      | branch :: _ => .items (branch.map (·.json))

structure NodeOperationError where
  message : String
  description : Option String

/-- The error of the last attempt is given its details. -/
def NodeOperationError.enhance (error : NodeOperationError) : NodeOperationError :=
  match error.description with
  | none => error
  | some description =>
    if description ≠ "" && !N8nTextSearch.includes description.toList error.message.toList then
      { error with
        message := error.message ++ "\n\nDetails: " ++ description }
    else error

/-! ## The run data of the tool -/

inductive ExecutionStatus where
  | running | success | error | canceled
deriving DecidableEq

/-- What is stored under the connection type of the tool. -/
inductive ToolData (J : Type) where
  | toolArgs (toolArgs : J)
  | response (response : Response J)

/-- A run of the tool, without its times. -/
structure ITaskData (J : Type) where
  executionIndex : Nat
  executionStatus : ExecutionStatus
  previousNodeRun : Nat
  inputOverride : Option (ToolData J)
  data : Option (ToolData J)
  error : Option NodeOperationError

/-- `addExecutionDataFunctions('output', …)` on the run that is found. -/
def ITaskData.output (taskData : ITaskData J) (aborted : Bool)
    (sourceRun : Nat) (data : Except NodeOperationError (Response J)) :
    ITaskData J :=
  match data with
  | .ok response =>
    { taskData with
      previousNodeRun := sourceRun
      executionStatus := .success
      data := some (.response response) }
  | .error error =>
    if aborted && taskData.executionStatus = .canceled then
      { taskData with previousNodeRun := sourceRun }
    else
      { taskData with
        previousNodeRun := sourceRun
        executionStatus := .error
        error := some error }

/-! ## Handlers and invocations -/

/-- Where an invocation is: it holds a number and sleeps, it awaits the
    tool, or it is over.  One that is cancelled before the tool ran returns
    a text, one that is cancelled later throws. -/
inductive Phase (J : Type) where
  | sleeping
  | executing
  | returned (response : Response J)
  | cancelled
  | stopped
  | threw (error : NodeOperationError)

structure Invocation (J : Type) where
  handler : Nat
  toolArgs : J
  tryIndex : Nat
  localRunIndex : Nat
  phase : Phase J

/-- An attempt: its invocation, and which try it is. -/
abbrev Attempt := Nat × Nat

inductive WriteKind where
  | input | output | error

/-- The kind of a write of what the tool gave. -/
def kindOf (data : Except NodeOperationError (Response J)) : WriteKind :=
  match data with
  | .ok _ => .output
  | .error _ => .error

/-- A write of an attempt into a run of the tool. -/
structure Write where
  attempt : Attempt
  kind : WriteKind
  entry : Nat

/-- The handlers are given by their counters.  `writes` records who wrote
    where. -/
structure ToolRuns (J : Type) where
  handlers : List Nat
  invocations : List (Invocation J)
  runData : List (ITaskData J)
  currentNodeExecutionIndex : Nat
  aborted : Bool
  writes : List Write

namespace ToolRuns

def start (runData : List (ITaskData J)) (currentNodeExecutionIndex : Nat) : ToolRuns J :=
  { handlers := [], invocations := [], runData, currentNodeExecutionIndex
    aborted := false, writes := [] }

/-- `getNextRunIndex`. -/
def getNextRunIndex (s : ToolRuns J) : Nat := s.runData.length

def put (s : ToolRuns J) (k : Nat) (invocation : Invocation J) : ToolRuns J :=
  { s with invocations := s.invocations.set k invocation }

/-- The input goes to the next run index there is. -/
def addInputData (s : ToolRuns J) (k : Nat) (invocation : Invocation J) : ToolRuns J :=
  { s with
    runData := s.runData ++
      [{ executionIndex := s.currentNodeExecutionIndex
         executionStatus := .running
         previousNodeRun := invocation.localRunIndex
         inputOverride := some (.toolArgs invocation.toolArgs)
         data := some (.toolArgs invocation.toolArgs)
         error := none }]
    currentNodeExecutionIndex := s.currentNodeExecutionIndex + 1
    writes := s.writes ++
      [⟨(k, invocation.tryIndex), .input, s.getNextRunIndex⟩] }

/-- The output goes to the run with the number of the attempt, if it is
    there. -/
def addOutputData (s : ToolRuns J) (k : Nat) (invocation : Invocation J)
    (data : Except NodeOperationError (Response J)) : ToolRuns J :=
  match s.runData[invocation.localRunIndex]? with
  | none => s
  | some taskData =>
    { s with
      runData := s.runData.set invocation.localRunIndex
        (taskData.output s.aborted invocation.localRunIndex data)
      writes := s.writes ++
        [⟨(k, invocation.tryIndex), kindOf data,
          invocation.localRunIndex⟩] }

/-- The attempt goes on to the tool. -/
def execute (s : ToolRuns J) (k : Nat) (invocation : Invocation J) : ToolRuns J :=
  (s.addInputData k invocation).put k { invocation with phase := .executing }

/-- `runIndex++`, for the attempt that begins. -/
def reserve (s : ToolRuns J) (handler : Nat) (toolArgs : J)
    (tryIndex : Nat) : ToolRuns J × Invocation J :=
  let runIndex := s.handlers.getD handler 0
  ({ s with handlers := s.handlers.set handler (runIndex + 1) },
    { handler, toolArgs, tryIndex
      localRunIndex := runIndex
      phase := if s.aborted then .cancelled else .sleeping })

/-- What follows the number of an attempt: nothing if the execution is
    cancelled, a pause before another try, or the tool. -/
def proceed (node : INode) (s : ToolRuns J) (k : Nat) (invocation : Invocation J) : ToolRuns J :=
  if s.aborted || (invocation.tryIndex ≠ 0 && node.wait ≠ 0) then s
  else s.execute k invocation

/-- A tool that failed is tried again unless this was its last attempt. -/
def fail (node : INode) (s : ToolRuns J) (k : Nat)
    (invocation : Invocation J) (error : NodeOperationError) : ToolRuns J :=
  if s.aborted then s.put k { invocation with phase := .stopped }
  else if (invocation.tryIndex : Int) = node.tries - 1 then
    (s.addOutputData k invocation (.error error.enhance)).put k
      { invocation with phase := .threw error.enhance }
  else
    let s := s.addOutputData k invocation (.error error)
    let (s, invocation) := s.reserve invocation.handler invocation.toolArgs
      (invocation.tryIndex + 1)
    (s.put k invocation).proceed node k invocation

end ToolRuns

/-- What happens at an await, between two of them, or outside. -/
inductive Event (J : Type) where
  | makeHandleToolInvocation
  | invokes (handler : Nat) (toolArgs : J)
  | wakes (k : Nat)
  | cancelsSleep (k : Nat)
  | resolves (k : Nat) (result : NodeOutput J)
  | rejects (k : Nat) (error : NodeOperationError)
  | aborts

/-- The invocation, if it awaits the tool. -/
def ToolRuns.executing? (s : ToolRuns J) (k : Nat) : Option (Invocation J) :=
  s.invocations[k]?.filter fun invocation =>
    match invocation.phase with | .executing => true | _ => false

def ToolRuns.sleeping? (s : ToolRuns J) (k : Nat) : Option (Invocation J) :=
  s.invocations[k]?.filter fun invocation =>
    match invocation.phase with | .sleeping => true | _ => false

def next (node : INode) (s : ToolRuns J) :
    Event J → Option (ToolRuns J)
  | .makeHandleToolInvocation =>
    some { s with handlers := s.handlers ++ [s.getNextRunIndex] }
  | .invokes handler toolArgs =>
    if handler < s.handlers.length then
      let k := s.invocations.length
      let (s, invocation) := s.reserve handler toolArgs 0
      some (ToolRuns.proceed node
        { s with invocations := s.invocations ++ [invocation] } k
        invocation)
    else none
  | .wakes k => (s.sleeping? k).map (s.execute k)
  | .cancelsSleep k =>
    if s.aborted then
      (s.sleeping? k).map fun invocation =>
        s.put k { invocation with phase := .cancelled }
    else none
  | .resolves k result =>
    (s.executing? k).map fun invocation =>
      (s.addOutputData k invocation (.ok (mapResult result))).put k
        { invocation with phase := .returned (mapResult result) }
  | .rejects k error =>
    (s.executing? k).map fun invocation => s.fail node k invocation error
  | .aborts => some { s with aborted := true }

def Step (node : INode) (s : ToolRuns J) (e : Event J) (t : ToolRuns J) : Prop :=
  next node s e = some t

/-! ## Records of their own -/

/-- Owners and places correspond one to one. -/
def OneToOne {α β : Type} (log : List (α × β)) : Prop := ∀ p ∈ log, ∀ q ∈ log, p.1 = q.1 ↔ p.2 = q.2

/-- What an invocation has written in one of its tries. -/
def Invocation.wrote (invocation : Invocation J) (tryIndex : Nat) : List WriteKind :=
  if tryIndex < invocation.tryIndex then [.input, .error]
  else if tryIndex = invocation.tryIndex then
    match invocation.phase with
    | .sleeping | .cancelled => []
    | .executing | .stopped => [.input]
    | .returned _ => [.input, .output]
    | .threw _ => [.input, .error]
  else []

/-- Every attempt has written what it has to write so far, all of it into
    one run, and no other attempt has written into that run. -/
structure OwnRecords (s : ToolRuns J) : Prop where
  own : OneToOne (s.writes.map fun w => (w.attempt, w.entry))
  complete : ∀ k invocation, s.invocations[k]? = some invocation →
    ∀ tryIndex, ∀ kind ∈ invocation.wrote tryIndex, ∃ entry, ⟨(k, tryIndex), kind, entry⟩ ∈ s.writes

/-- The counter of the handler is the number of runs, and no invocation
    sleeps on a number it took. -/
def Free (s : ToolRuns J) (handler : Nat) : Prop :=
  s.handlers.getD handler 0 = s.runData.length ∧ ∀ k, s.sleeping? k = none

/-- The condition on a step: an attempt begins only when it is free to. -/
def InTurn (node : INode) (s : ToolRuns J) : Event J → Prop
  | .invokes handler _ => s.aborted = false → Free s handler
  | .rejects k _ => ∀ invocation, s.executing? k = some invocation →
      s.aborted = false → (invocation.tryIndex : Int) ≠ node.tries - 1 → Free s invocation.handler
  | _ => True

section

variable {α β : Type} {log : List (α × β)} {a : α} {b : β}

theorem OneToOne.again (h : OneToOne log) (hmem : (a, b) ∈ log) : OneToOne (log ++ [(a, b)]) := by
  intro p hp q hq
  have hold : ∀ p ∈ log ++ [(a, b)], p ∈ log := by
    intro p hp
    rcases mem_append.mp hp with hp | hp
    · exact hp
    · rw [mem_singleton.mp hp]
      exact hmem
  exact h p (hold p hp) q (hold q hq)

theorem OneToOne.fresh (h : OneToOne log) (ha : ∀ p ∈ log, p.1 ≠ a)
    (hb : ∀ p ∈ log, p.2 ≠ b) : OneToOne (log ++ [(a, b)]) := by
  intro p hp q hq
  rcases mem_append.mp hp with hp | hp <;>
    rcases mem_append.mp hq with hq | hq
  · exact h p hp q hq
  · cases mem_singleton.mp hq
    exact iff_of_false (ha p hp) (hb p hp)
  · cases mem_singleton.mp hp
    exact iff_of_false (fun heq => ha q hq heq.symm) (fun heq => hb q hq heq.symm)
  · cases mem_singleton.mp hp
    cases mem_singleton.mp hq
    exact iff_of_true rfl rfl

end

/-! ## What an invocation has written -/

section

variable {invocation : Invocation J} {tryIndex : Nat}

theorem wrote_of_lt (h : tryIndex < invocation.tryIndex) :
    invocation.wrote tryIndex = [.input, .error] := if_pos h

theorem wrote_of_gt (h : invocation.tryIndex < tryIndex) : invocation.wrote tryIndex = [] := by
  rw [Invocation.wrote, if_neg (Nat.lt_asymm h), if_neg (Nat.ne_of_gt h)]

theorem wrote_self (invocation : Invocation J) :
    invocation.wrote invocation.tryIndex
      = match invocation.phase with
        | .sleeping | .cancelled => []
        | .executing | .stopped => [.input]
        | .returned _ => [.input, .output]
        | .threw _ => [.input, .error] := by
  rw [Invocation.wrote, if_neg (Nat.lt_irrefl _), if_pos rfl]

theorem wrote_phase_of_ne (invocation : Invocation J) (phase : Phase J)
    (h : tryIndex ≠ invocation.tryIndex) :
    { invocation with phase }.wrote tryIndex = invocation.wrote tryIndex := by
  rcases Nat.lt_or_gt_of_ne h with hlt | hgt
  · rw [wrote_of_lt hlt]
    exact wrote_of_lt hlt
  · rw [wrote_of_gt hgt]
    exact wrote_of_gt hgt

end

/-! ## The invariant -/

theorem sleeping?_eq_some {s : ToolRuns J} {k : Nat}
    {invocation : Invocation J} : s.sleeping? k = some invocation
      ↔ s.invocations[k]? = some invocation ∧ invocation.phase = .sleeping := by
  rw [ToolRuns.sleeping?, Option.filter_eq_some_iff]
  cases invocation.phase <;> simp

theorem executing?_eq_some {s : ToolRuns J} {k : Nat}
    {invocation : Invocation J} : s.executing? k = some invocation
      ↔ s.invocations[k]? = some invocation ∧ invocation.phase = .executing := by
  rw [ToolRuns.executing?, Option.filter_eq_some_iff]
  cases invocation.phase <;> simp

/-- Records are own and complete; the log has nothing else; who awaits the
    tool wrote the input under its number; one invocation sleeps at most,
    and its number is the next index. -/
structure Good (s : ToolRuns J) : Prop extends OwnRecords s where
  known : ∀ w ∈ s.writes, ∃ invocation, s.invocations[w.attempt.1]? = some invocation
      ∧ w.kind ∈ invocation.wrote w.attempt.2
  bound : ∀ w ∈ s.writes, w.entry < s.runData.length
  place : ∀ k invocation, s.executing? k = some invocation →
    ⟨(k, invocation.tryIndex), .input, invocation.localRunIndex⟩ ∈ s.writes
  asleep : ∀ k invocation, s.sleeping? k = some invocation →
    invocation.localRunIndex = s.runData.length ∧ ∀ k', k' ≠ k → s.sleeping? k' = none

/-- What an invocation that goes on may change. -/
structure GoesOn (s : ToolRuns J) (k : Nat)
    (invocation invocation' : Invocation J) (added : List Write)
    (length : Nat) : Prop where
  found : s.invocations[k]? = some invocation
  own : OneToOne ((s.writes ++ added).map fun w => (w.attempt, w.entry))
  new : ∀ w ∈ added, w.attempt.1 = k ∧ w.kind ∈ invocation'.wrote w.attempt.2 ∧ w.entry < length
  keeps : ∀ tryIndex, invocation.wrote tryIndex ⊆ invocation'.wrote tryIndex
  complete : ∀ tryIndex, ∀ kind ∈ invocation'.wrote tryIndex,
    kind ∈ invocation.wrote tryIndex ∨ ∃ entry, ⟨(k, tryIndex), kind, entry⟩ ∈ added
  place : invocation'.phase = .executing →
    ⟨(k, invocation'.tryIndex), .input, invocation'.localRunIndex⟩ ∈ s.writes ++ added
  asleep : invocation'.phase = .sleeping → invocation'.localRunIndex = length
  /-- Who sleeps elsewhere keeps the next index, and sleeps alone. -/
  others : (∀ k', k' ≠ k → s.sleeping? k' = none)
    ∨ length = s.runData.length ∧ invocation'.phase ≠ .sleeping

section

variable {s t : ToolRuns J} {k : Nat} {invocation invocation' : Invocation J}
  {added : List Write}

theorem getElem?_set_of_found (h : s.invocations[k]? = some invocation)
    (k' : Nat) : (s.invocations.set k invocation')[k']?
      = if k = k' then some invocation' else s.invocations[k']? := by
  rw [getElem?_set]
  by_cases hk : k = k'
  · rw [if_pos hk, if_pos hk, if_pos (List.getElem?_eq_some_iff.mp h).1]
  · rw [if_neg hk, if_neg hk]

/-- **ONE INVOCATION GOES ON**: the invariant survives. -/
theorem Good.goesOn (hs : Good s) {length : Nat}
    (h : GoesOn s k invocation invocation' added length)
    (hinv : t.invocations = s.invocations.set k invocation')
    (hwrites : t.writes = s.writes ++ added) (hruns : t.runData.length = length)
    (hlength : s.runData.length ≤ length) : Good t := by
  subst hruns
  have hget : ∀ k', t.invocations[k']?
      = if k = k' then some invocation' else s.invocations[k']? := by
    rw [hinv]
    exact getElem?_set_of_found h.found
  have hsleeping : ∀ k', k' ≠ k → t.sleeping? k' = s.sleeping? k' := by
    intro k' hne
    rw [ToolRuns.sleeping?, ToolRuns.sleeping?, hget, if_neg hne.symm]
  refine { own := ?_, complete := ?_, known := ?_, bound := ?_
           place := ?_, asleep := ?_ }
  · rw [hwrites]
    exact h.own
  · intro k' x hx tryIndex kind hkind
    rw [hget] at hx
    rw [hwrites]
    split at hx
    · next hk =>
        cases hx
        subst hk
        rcases h.complete tryIndex kind hkind with hold | ⟨entry, hnew⟩
        · obtain ⟨entry, hentry⟩ :=
            hs.complete k invocation h.found tryIndex kind hold
          exact ⟨entry, mem_append_left _ hentry⟩
        · exact ⟨entry, mem_append_right _ hnew⟩
    · obtain ⟨entry, hentry⟩ := hs.complete k' x hx tryIndex kind hkind
      exact ⟨entry, mem_append_left _ hentry⟩
  · intro w hw
    rw [hwrites] at hw
    rcases mem_append.mp hw with hold | hnew
    · obtain ⟨x, hx, hkind⟩ := hs.known w hold
      by_cases hk : k = w.attempt.1
      · rw [← hk, h.found] at hx
        cases hx
        refine ⟨invocation', ?_, h.keeps _ hkind⟩
        rw [hget, if_pos hk]
      · exact ⟨x, (hget _).trans ((if_neg hk).trans hx), hkind⟩
    · obtain ⟨hk, hkind, -⟩ := h.new w hnew
      exact ⟨invocation', (hget _).trans (if_pos hk.symm), hkind⟩
  · intro w hw
    rw [hwrites] at hw
    rcases mem_append.mp hw with hold | hnew
    · exact Nat.lt_of_lt_of_le (hs.bound w hold) hlength
    · exact (h.new w hnew).2.2
  · intro k' x hx
    obtain ⟨hx, hphase⟩ := executing?_eq_some.mp hx
    rw [hget] at hx
    rw [hwrites]
    split at hx
    · next hk =>
        cases hx
        subst hk
        exact h.place hphase
    · exact mem_append_left _ (hs.place k' x (executing?_eq_some.mpr ⟨hx, hphase⟩))
  · intro k' x hx
    by_cases hk : k' = k
    · subst hk
      obtain ⟨hx, hphase⟩ := sleeping?_eq_some.mp hx
      rw [hget, if_pos rfl] at hx
      cases hx
      refine ⟨h.asleep hphase, fun k'' hne => ?_⟩
      rcases h.others with hnone | ⟨-, hnot⟩
      · rw [hsleeping k'' hne]
        exact hnone k'' hne
      · exact absurd hphase hnot
    · rw [hsleeping k' hk] at hx
      rcases h.others with hnone | ⟨hlength, hnot⟩
      · rw [hnone k' hk] at hx
        cases hx
      · obtain ⟨hindex, halone⟩ := hs.asleep k' x hx
        refine ⟨hindex.trans hlength.symm, fun k'' hne => ?_⟩
        by_cases hk'' : k'' = k
        · rw [Option.eq_none_iff_forall_ne_some]
          intro y hy
          obtain ⟨hy, hphase⟩ := sleeping?_eq_some.mp hy
          rw [hget, if_pos hk''.symm] at hy
          cases hy
          exact hnot hphase
        · rw [hsleeping k'' hk'']
          exact halone k'' hne

variable {phase : Phase J}

theorem wrote_subset_of_phase (h : invocation.wrote invocation.tryIndex
      ⊆ { invocation with phase }.wrote invocation.tryIndex) (tryIndex : Nat) :
    invocation.wrote tryIndex ⊆ { invocation with phase }.wrote tryIndex := by
  by_cases htry : tryIndex = invocation.tryIndex
  · rw [htry]
    exact h
  · rw [wrote_phase_of_ne invocation phase htry]
    exact List.Subset.refl (invocation.wrote tryIndex)

section

variable (hs : Good s)
include hs

/-- The input of an attempt that holds the next index. -/
theorem Good.execute (h : s.sleeping? k = some invocation) : Good (s.execute k invocation) := by
  obtain ⟨hfound, hphase⟩ := sleeping?_eq_some.mp h
  obtain ⟨hindex, halone⟩ := hs.asleep k invocation h
  have hnone : invocation.wrote invocation.tryIndex = [] := by
    rw [wrote_self, hphase]
  have hself := wrote_self { invocation with phase := .executing }
  have hlength : (s.execute k invocation).runData.length = s.runData.length + 1 := by
    simp [ToolRuns.execute, ToolRuns.put, ToolRuns.addInputData]
  have hgoes : GoesOn s k invocation { invocation with phase := .executing }
      [⟨(k, invocation.tryIndex), .input, s.runData.length⟩] (s.runData.length + 1) := by
    refine { found := hfound, own := ?_, new := ?_, keeps := ?_
             complete := ?_, place := ?_, asleep := ?_
             others := .inl halone }
    · rw [map_append]
      refine hs.own.fresh ?_ ?_
      · intro p hp heq
        obtain ⟨w, hw, rfl⟩ := mem_map.mp hp
        obtain ⟨x, hx, hkind⟩ := hs.known w hw
        have hattempt : w.attempt = (k, invocation.tryIndex) := heq
        rw [hattempt, hfound] at hx
        cases hx
        rw [hattempt, hnone] at hkind
        cases hkind
      · intro p hp
        obtain ⟨w, hw, rfl⟩ := mem_map.mp hp
        exact Nat.ne_of_lt (hs.bound w hw)
    · intro w hw
      cases mem_singleton.mp hw
      refine ⟨rfl, ?_, Nat.lt_succ_self _⟩
      rw [hself]
      exact mem_singleton.mpr rfl
    · refine wrote_subset_of_phase ?_
      rw [hnone]
      exact nil_subset _
    · intro tryIndex kind hkind
      by_cases htry : tryIndex = invocation.tryIndex
      · subst htry
        rw [hself] at hkind
        rw [mem_singleton.mp hkind]
        exact .inr ⟨_, mem_singleton.mpr rfl⟩
      · rw [wrote_phase_of_ne invocation _ htry] at hkind
        exact .inl hkind
    · intro _
      rw [hindex]
      exact mem_append_right _ (mem_singleton.mpr rfl)
    · intro hsleeping
      cases hsleeping
  exact hs.goesOn hgoes rfl rfl hlength (Nat.le_succ _)

section

variable (h : s.executing? k = some invocation)
include h

theorem Good.addOutputData (data : Except NodeOperationError (Response J)) :
    ∃ taskData, s.addOutputData k invocation data
      = { s with
          runData := s.runData.set invocation.localRunIndex taskData
          writes := s.writes ++ [⟨(k, invocation.tryIndex), kindOf data,
            invocation.localRunIndex⟩] } := by
  have hlt : invocation.localRunIndex < s.runData.length := hs.bound _ (hs.place k invocation h)
  unfold ToolRuns.addOutputData
  rw [getElem?_eq_getElem hlt]
  exact ⟨_, rfl⟩

theorem Good.ownAgain (kind : WriteKind) : OneToOne
      ((s.writes ++ [Write.mk (k, invocation.tryIndex) kind
        invocation.localRunIndex]).map fun w => (w.attempt, w.entry)) := by
  rw [map_append]
  exact hs.own.again (mem_map_of_mem (f := fun w => (w.attempt, w.entry)) (hs.place k invocation h))

/-- An attempt that awaits the tool ends with its output or its error. -/
theorem Good.ends {data : Except NodeOperationError (Response J)} (hphase : phase = match data with
      | .ok response => .returned response
      | .error error => .threw error) :
    Good ((s.addOutputData k invocation data).put k
      { invocation with phase }) := by
  obtain ⟨hfound, hexecuting⟩ := executing?_eq_some.mp h
  obtain ⟨taskData, heq⟩ := hs.addOutputData h data
  have hself : { invocation with phase }.wrote invocation.tryIndex = [.input, kindOf data] := by
    rw [wrote_self { invocation with phase }]
    subst hphase
    cases data <;> rfl
  have hold : invocation.wrote invocation.tryIndex = [.input] := by
    rw [wrote_self, hexecuting]
  have hlt : invocation.localRunIndex < s.runData.length := hs.bound _ (hs.place k invocation h)
  have hneither : phase ≠ .executing ∧ phase ≠ .sleeping := by
    subst hphase
    cases data <;> exact ⟨nofun, nofun⟩
  have hgoes : GoesOn s k invocation { invocation with phase }
      [⟨(k, invocation.tryIndex), kindOf data, invocation.localRunIndex⟩] s.runData.length := by
    refine { found := hfound, own := hs.ownAgain h _, new := ?_, keeps := ?_
             complete := ?_, place := fun h => absurd h hneither.1
             asleep := fun h => absurd h hneither.2
             others := .inr ⟨rfl, hneither.2⟩ }
    · intro w hw
      cases mem_singleton.mp hw
      refine ⟨rfl, ?_, hlt⟩
      rw [hself]
      exact mem_cons_of_mem _ (mem_singleton.mpr rfl)
    · refine wrote_subset_of_phase ?_
      rw [hself, hold]
      exact cons_subset_cons _ (nil_subset _)
    · intro tryIndex kind hkind
      by_cases htry : tryIndex = invocation.tryIndex
      · subst htry
        rw [hself] at hkind
        rw [hold]
        rcases mem_cons.mp hkind with hinput | hother
        · exact .inl (mem_singleton.mpr hinput)
        · rw [mem_singleton.mp hother]
          exact .inr ⟨_, mem_singleton.mpr rfl⟩
      · rw [wrote_phase_of_ne invocation _ htry] at hkind
        exact .inl hkind
  have hlength : (s.runData.set invocation.localRunIndex taskData).length
      = s.runData.length := length_set ..
  rw [heq]
  exact hs.goesOn hgoes rfl rfl hlength (Nat.le_refl _)

end

theorem Good.quits (h : s.invocations[k]? = some invocation)
    (hphase : phase = .cancelled ∨ phase = .stopped)
    (hsame : { invocation with phase }.wrote invocation.tryIndex
      = invocation.wrote invocation.tryIndex) :
    Good (s.put k { invocation with phase }) := by
  have hneither : phase ≠ .executing ∧ phase ≠ .sleeping := by
    rcases hphase with rfl | rfl <;> exact ⟨nofun, nofun⟩
  have hgoes : GoesOn s k invocation { invocation with phase } [] s.runData.length := by
    refine { found := h, own := ?_, new := nofun, keeps := ?_
             complete := ?_, place := fun h => absurd h hneither.1
             asleep := fun h => absurd h hneither.2
             others := .inr ⟨rfl, hneither.2⟩ }
    · rw [append_nil]
      exact hs.own
    · refine wrote_subset_of_phase ?_
      rw [hsame]
      exact List.Subset.refl _
    · intro tryIndex kind hkind
      by_cases htry : tryIndex = invocation.tryIndex
      · rw [htry] at hkind ⊢
        exact .inl (hsame ▸ hkind)
      · rw [wrote_phase_of_ne invocation _ htry] at hkind
        exact .inl hkind
  exact hs.goesOn hgoes rfl (append_nil _).symm rfl (Nat.le_refl _)

/-- A failed attempt writes its error, and another one takes the next
    number. -/
theorem Good.retries (h : s.executing? k = some invocation)
    (hfree : Free s invocation.handler) (error : NodeOperationError) (handlers : List Nat) :
    Good (ToolRuns.put { s.addOutputData k invocation (.error error) with
        handlers } k
      { invocation with
        tryIndex := invocation.tryIndex + 1
        localRunIndex := s.handlers.getD invocation.handler 0
        phase := .sleeping }) := by
  obtain ⟨hfound, hexecuting⟩ := executing?_eq_some.mp h
  obtain ⟨taskData, heq⟩ := hs.addOutputData h (.error error)
  have hlt : invocation.localRunIndex < s.runData.length := hs.bound _ (hs.place k invocation h)
  have hold : invocation.wrote invocation.tryIndex = [.input] := by
    rw [wrote_self, hexecuting]
  have hgoes : GoesOn s k invocation
      { invocation with
        tryIndex := invocation.tryIndex + 1
        localRunIndex := s.handlers.getD invocation.handler 0
        phase := .sleeping }
      [⟨(k, invocation.tryIndex), .error, invocation.localRunIndex⟩]
      s.runData.length := by
    refine { found := hfound, own := hs.ownAgain h _, new := ?_, keeps := ?_
             complete := ?_, place := nofun, asleep := fun _ => hfree.1
             others := .inl fun k' _ => hfree.2 k' }
    · intro w hw
      cases mem_singleton.mp hw
      refine ⟨rfl, ?_, hlt⟩
      rw [wrote_of_lt (Nat.lt_succ_self _)]
      exact mem_cons_of_mem _ (mem_singleton.mpr rfl)
    · intro tryIndex kind hkind
      rcases Nat.lt_trichotomy tryIndex invocation.tryIndex with
        hlt | rfl | hgt
      · rw [wrote_of_lt hlt] at hkind
        rwa [wrote_of_lt (Nat.lt_succ_of_lt hlt)]
      · rw [hold] at hkind
        rw [wrote_of_lt (Nat.lt_succ_self _), mem_singleton.mp hkind]
        exact mem_cons_self ..
      · rw [wrote_of_gt hgt] at hkind
        cases hkind
    · intro tryIndex kind hkind
      rcases Nat.lt_trichotomy tryIndex invocation.tryIndex with
        hlt | rfl | hgt
      · rw [wrote_of_lt (Nat.lt_succ_of_lt hlt)] at hkind
        rw [wrote_of_lt hlt]
        exact .inl hkind
      · rw [wrote_of_lt (Nat.lt_succ_self _)] at hkind
        rw [hold]
        rcases mem_cons.mp hkind with hinput | herror
        · exact .inl (mem_singleton.mpr hinput)
        · rw [mem_singleton.mp herror]
          exact .inr ⟨_, mem_singleton.mpr rfl⟩
      · rcases Nat.lt_or_eq_of_le hgt with hgt | heq
        · rw [wrote_of_gt hgt] at hkind
          cases hkind
        · subst heq
          rw [wrote_self { invocation with
            tryIndex := invocation.tryIndex + 1
            localRunIndex := s.handlers.getD invocation.handler 0
            phase := .sleeping }] at hkind
          cases hkind
  rw [heq]
  exact hs.goesOn hgoes rfl rfl (length_set ..) (Nat.le_refl _)

/-- A new invocation takes the next number, or is cancelled at once. -/
theorem Good.invokes (hzero : invocation.tryIndex = 0) (hphase : invocation.phase = .cancelled
      ∨ invocation.phase = .sleeping
        ∧ invocation.localRunIndex = s.runData.length
        ∧ ∀ k, s.sleeping? k = none) (handlers : List Nat) :
    Good { s with
      handlers, invocations := s.invocations ++ [invocation] } := by
  have hnone : ∀ tryIndex, invocation.wrote tryIndex = [] := by
    intro tryIndex
    rcases Nat.eq_zero_or_pos tryIndex with rfl | hpos
    · rw [← hzero, wrote_self]
      rcases hphase with hphase | ⟨hphase, -⟩ <;> rw [hphase]
    · exact wrote_of_gt (hzero ▸ hpos)
  refine { own := hs.own, complete := ?_, known := ?_, bound := hs.bound
           place := ?_, asleep := ?_ }
  · intro k x hx tryIndex kind hkind
    rcases getElem?_concat_some hx with hx | ⟨-, rfl⟩
    · exact hs.complete k x hx tryIndex kind hkind
    · rw [hnone] at hkind
      cases hkind
  · intro w hw
    obtain ⟨x, hx, hkind⟩ := hs.known w hw
    exact ⟨x, getElem?_concat_of_some hx, hkind⟩
  · intro k x hx
    obtain ⟨hx, hexecuting⟩ := executing?_eq_some.mp hx
    rcases getElem?_concat_some hx with hx | ⟨-, rfl⟩
    · exact hs.place k x (executing?_eq_some.mpr ⟨hx, hexecuting⟩)
    · rcases hphase with hphase | ⟨hphase, -⟩ <;>
        · rw [hphase] at hexecuting
          cases hexecuting
  · intro k x hx
    obtain ⟨hx, hsleeping⟩ := sleeping?_eq_some.mp hx
    rcases getElem?_concat_some hx with hx | ⟨hk, rfl⟩
    · have hold := sleeping?_eq_some.mpr ⟨hx, hsleeping⟩
      obtain ⟨hindex, halone⟩ := hs.asleep k x hold
      refine ⟨hindex, fun k' hne => ?_⟩
      rw [Option.eq_none_iff_forall_ne_some]
      intro y hy
      obtain ⟨hy, hphase'⟩ := sleeping?_eq_some.mp hy
      rcases getElem?_concat_some hy with hy | ⟨-, rfl⟩
      · have hother := sleeping?_eq_some.mpr ⟨hy, hphase'⟩
        rw [halone k' hne] at hother
        cases hother
      · rcases hphase with hphase | ⟨-, -, hnobody⟩
        · rw [hphase] at hphase'
          cases hphase'
        · rw [hnobody k] at hold
          cases hold
    · rcases hphase with hphase | ⟨-, hindex, hnobody⟩
      · rw [hphase] at hsleeping
        cases hsleeping
      · refine ⟨hindex, fun k' hne => ?_⟩
        rw [Option.eq_none_iff_forall_ne_some]
        intro y hy
        obtain ⟨hy, hphase'⟩ := sleeping?_eq_some.mp hy
        rcases getElem?_concat_some hy with hy | ⟨hk', -⟩
        · have hother := sleeping?_eq_some.mpr ⟨hy, hphase'⟩
          rw [hnobody k'] at hother
          cases hother
        · exact hne (hk'.trans hk.symm)

theorem Good.proceed {node : INode} (h : s.aborted = true ∨ s.sleeping? k = some invocation) :
    Good (s.proceed node k invocation) := by
  rw [ToolRuns.proceed]
  split
  · exact hs
  · next hgo =>
      rcases h with haborted | hsleeping
      · rw [haborted] at hgo
        exact absurd rfl hgo
      · exact hs.execute hsleeping

theorem Good.same (hinv : t.invocations = s.invocations)
    (hruns : t.runData = s.runData) (hwrites : t.writes = s.writes) :
    Good t := by
  obtain ⟨handlers, invocations, runData, index, aborted, writes⟩ := t
  subst hinv hruns hwrites
  exact { own := hs.own, complete := hs.complete, known := hs.known
          bound := hs.bound, place := hs.place, asleep := hs.asleep }

end

theorem sleeping?_put (h : s.invocations[k]? = some invocation)
    (hphase : invocation'.phase = .sleeping) :
    (s.put k invocation').sleeping? k = some invocation' := by
  refine sleeping?_eq_some.mpr ⟨?_, hphase⟩
  rw [ToolRuns.put, getElem?_set_of_found h, if_pos rfl]

theorem sleeping?_concat (handlers : List Nat) (hphase : invocation.phase = .sleeping) :
    ToolRuns.sleeping? { s with
      handlers, invocations := s.invocations ++ [invocation] }
      s.invocations.length = some invocation :=
  sleeping?_eq_some.mpr ⟨getElem?_concat_length .., hphase⟩

theorem Good.invoke (hs : Good s) {node : INode} {handler : Nat}
    {toolArgs : J} (hfree : s.aborted = false → Free s handler) :
    Good (ToolRuns.proceed node
      { (s.reserve handler toolArgs 0).1 with
        invocations := s.invocations ++ [(s.reserve handler toolArgs 0).2] }
      s.invocations.length (s.reserve handler toolArgs 0).2) := by
  by_cases haborted : s.aborted = true
  · have hcancelled : (s.reserve handler toolArgs 0).2.phase
        = .cancelled := if_pos haborted
    exact (hs.invokes rfl (.inl hcancelled) _).proceed (.inl haborted)
  · have hsleeps : (s.reserve handler toolArgs 0).2.phase
        = .sleeping := if_neg haborted
    have hnow := hfree (Bool.eq_false_iff.mpr haborted)
    exact (hs.invokes rfl (.inr ⟨hsleeps, hnow⟩) _).proceed (.inr (sleeping?_concat _ hsleeps))

theorem Good.fail (hs : Good s) {node : INode} (h : s.executing? k = some invocation)
    (error : NodeOperationError)
    (hfree : s.aborted = false → (invocation.tryIndex : Int) ≠ node.tries - 1 →
        Free s invocation.handler) :
    Good (s.fail node k invocation error) := by
  obtain ⟨hfound, hexecuting⟩ := executing?_eq_some.mp h
  rw [ToolRuns.fail]
  by_cases haborted : s.aborted = true
  · rw [if_pos haborted]
    refine hs.quits hfound (.inr rfl) ?_
    rw [wrote_self invocation, hexecuting]
    exact wrote_self { invocation with phase := .stopped }
  · rw [if_neg haborted]
    by_cases hlast : (invocation.tryIndex : Int) = node.tries - 1
    · rw [if_pos hlast]
      exact hs.ends h rfl
    · rw [if_neg hlast]
      have hgood := hs.retries h (hfree (Bool.eq_false_iff.mpr haborted) hlast) error
      obtain ⟨taskData, heq⟩ := hs.addOutputData h (.error error)
      rw [heq] at hgood ⊢
      have hsleeps : (if s.aborted then Phase.cancelled else .sleeping)
          = (.sleeping : Phase J) := if_neg haborted
      simp only [ToolRuns.reserve, hsleeps]
      refine (hgood _).proceed (.inr ?_)
      exact sleeping?_put hfound rfl

end

/-! ## Runs -/

/-- **ONE STEP**: the invariant survives every step that meets the
    condition. -/
theorem Good.step {node : INode} {s t : ToolRuns J} {e : Event J}
    (hs : Good s) (h : Step node s e t) (hc : InTurn node s e) : Good t := by
  cases e with
  | makeHandleToolInvocation =>
    cases h
    exact hs.same rfl rfl rfl
  | invokes handler toolArgs =>
    obtain ⟨-, rfl⟩ := Option.ite_some_none_eq_some.mp h
    exact hs.invoke hc
  | wakes k =>
    obtain ⟨invocation, hsleeping, rfl⟩ := Option.map_eq_some_iff.mp h
    exact hs.execute hsleeping
  | cancelsSleep k =>
    obtain ⟨-, hmap⟩ := Option.ite_none_right_eq_some.mp h
    obtain ⟨invocation, hsleeping, rfl⟩ := Option.map_eq_some_iff.mp hmap
    obtain ⟨hfound, hphase⟩ := sleeping?_eq_some.mp hsleeping
    refine hs.quits hfound (.inl rfl) ?_
    rw [wrote_self invocation, hphase]
    exact wrote_self { invocation with phase := .cancelled }
  | resolves k result =>
    obtain ⟨invocation, hexecuting, rfl⟩ := Option.map_eq_some_iff.mp h
    exact hs.ends hexecuting rfl
  | rejects k error =>
    obtain ⟨invocation, hexecuting, rfl⟩ := Option.map_eq_some_iff.mp h
    exact hs.fail hexecuting error (hc invocation hexecuting)
  | aborts =>
    cases h
    exact hs.same rfl rfl rfl

theorem good_start (runData : List (ITaskData J)) (currentNodeExecutionIndex : Nat) :
    Good (.start runData currentNodeExecutionIndex) where
  own := nofun
  complete := nofun
  known := nofun
  bound := nofun
  place := nofun
  asleep := nofun

/-- **EVERY ATTEMPT HAS ITS OWN RECORD** in a run in which attempts begin
    only when they are free to. -/
theorem ownRecords_of_inTurn {node : INode} {runData : List (ITaskData J)}
    {currentNodeExecutionIndex : Nat}
    {path : List (Event J × ToolRuns J)}
    (hrun : IsRun (Step node) (.start runData currentNodeExecutionIndex) path)
    (hc : EveryStep (InTurn node) (.start runData currentNodeExecutionIndex) path) :
    EveryState OwnRecords (.start runData currentNodeExecutionIndex) path := by
  have hall : EveryState Good (.start runData currentNodeExecutionIndex) path :=
    everyState_of_everyStep hrun (good_start _ _) (fun _ _ _ hs hstep hc => hs.step hstep hc) hc
  exact hall.mono fun _ hs => hs.toOwnRecords

/-! ## Three runs -/

/-- A tool that is tried three times, with a pause. -/
def retriedNode : INode :=
  { retryOnFail := true, maxTries := none, waitBetweenTries := none }

def failure : NodeOperationError :=
  { message := "failed", description := none }

/-- The state after an event. -/
def after (s : ToolRuns Unit) (e : Event Unit) : ToolRuns Unit := (next retriedNode s e).getD s

/-- An invocation fails once, and another handler is made after it. -/
def takesTurns : List (Event Unit) :=
  [.makeHandleToolInvocation, .invokes 0 (), .rejects 0 failure, .wakes 0,
    .resolves 0 .nothing, .makeHandleToolInvocation, .invokes 1 (), .resolves 1 .nothing]

/-- The second invocation comes while the first one pauses. -/
def comesInPause : List (Event Unit) :=
  [.makeHandleToolInvocation, .invokes 0 (), .rejects 0 failure,
    .invokes 0 (), .wakes 0, .resolves 0 .nothing]

/-- Two handlers are made before either is used. -/
def handlersSideBySide : List (Event Unit) :=
  [.makeHandleToolInvocation, .makeHandleToolInvocation, .invokes 0 (),
    .invokes 1 (), .resolves 1 .nothing]

theorem takesTurns_ownRecords :
    EveryState OwnRecords (.start [] 0) (pathOf after (.start [] 0) takesTurns) := by
  have hrun : IsRun (Step retriedNode) (.start [] 0) (pathOf after (.start [] 0) takesTurns) :=
    ⟨rfl, rfl, rfl, rfl, rfl, rfl, rfl, rfl, trivial⟩
  refine ownRecords_of_inTurn hrun ?_
  refine ⟨trivial, fun _ => ⟨rfl, fun _ => rfl⟩, ?_, trivial, trivial,
    trivial, fun _ => ⟨rfl, ?_⟩, trivial, trivial⟩
  · intro invocation h _ _
    cases h
    refine ⟨rfl, ?_⟩
    rintro (_ | k) <;> rfl
  · rintro (_ | k) <;> rfl

/-- A run, and not every state of it has records of their own. -/
def Mixes (events : List (Event Unit)) : Prop :=
  IsRun (Step retriedNode) (.start [] 0) (pathOf after (.start [] 0) events)
    ∧ ¬ EveryState OwnRecords (.start [] 0) (pathOf after (.start [] 0) events)

/-- An output goes into the run of another attempt. -/
theorem output_into_another_run : Mixes comesInPause ∧ Mixes handlersSideBySide := by
  refine ⟨⟨⟨rfl, rfl, rfl, rfl, rfl, rfl, trivial⟩, ?_⟩, ⟨⟨rfl, rfl, rfl, rfl, rfl, trivial⟩, ?_⟩⟩
  · intro hall
    have hown := hall.last.own ((0, 1), 2) (by decide) ((0, 1), 1) (by decide)
    exact absurd (hown.mp rfl) (by decide)
  · intro hall
    have hown := hall.last.own ((1, 0), 1) (by decide) ((1, 0), 0) (by decide)
    exact absurd (hown.mp rfl) (by decide)

end N8nToolInvocation
