import N8n.PartialExecutionProofs
import N8n.DirectedPathsProofs
import N8n.PartialGraphProofs

/-! # The start nodes of a partial execution

    `findStartNodes` follows the connections with data from the trigger, and
    stops at dirty nodes, at the destination and at loop nodes that are to be
    run again.  The recursion remembers the nodes of its branch, and stops
    where the branch closes a cycle.

    What a branch has been to does not matter for what is found: a way to a
    stop node that comes by a node twice can be shortened to its part after
    the last visit (`exists_last_visit`).  So the result is a matter of
    reachability alone (`findStartNodes_exact`). -/

namespace N8nStartNodes

open Relation N8nExcept N8nOrderedMap N8nDirectedPaths N8nDirectedGraph List
  N8nDepthFirst N8nPartialGraph
open N8nWorkflow (NodeConnectionType)
open N8nWorkflowExecute (EngineError INodeExecutionData IRunData ITaskData
  slotAt)
open N8nPartialExecution (IPinData getIncomingData getIncomingDataFromAnyRun
  firstRunWithData)

variable {V : Type}

/-! ## The search -/

section

variable (g : DirectedGraph) (type : INode → String) (runData : IRunData V) (pinData : IPinData V)

def isDirty (node : INode) : Bool :=
  let propertiesOrOptionsChanged := false
  let parentNodeGotDisabled := false
  let hasAnError := false
  if propertiesOrOptionsChanged then true
  else if parentNodeGotDisabled then true
  else if hasAnError then true
  else if pinData.has node.name then false
  else if runData.has node.name then false
  else true

def isALoop (node : INode) : Except GraphError Bool := do
  let children ← getChildren g node
  return node ∈ children

/-- What reads run data throws a `TypeError`, if anything. -/
def reading {α : Type} (x : Except EngineError α) : Except GraphError α :=
  x.mapError fun _ => .typeError

/-- The index that `at(-1)` reads; there is nothing under it without
    runs. -/
def lastRun (nodeName : String) : Nat := ((runData.get? nodeName).getD []).length - 1

def splitInBatches : String := "n8n-nodes-base.splitInBatches"

/-- Whether the `done` output of a loop node has no data on the last run;
    where there is no loop, the output after it. -/
def loopIsUnfinished (current : INode) : Except GraphError Bool := do
  let loop ← isALoop g current
  let nodeRunData ← reading (getIncomingData runData current.name
    (lastRun runData current.name) .main (if loop then 0 else 1))
  match nodeRunData with
  | none => return true
  | some data => return data.isEmpty

def findStartNodesRecursive (destination : INode) : Nat → INode →
    List INode → List INode → Except GraphError (List INode)
  | 0, _, _, _ => .error .rangeError
  | fuel + 1, current, startNodes, seen =>
    let nodeIsDirty := isDirty runData pinData current
    if nodeIsDirty then .ok (addTo startNodes current)
    else if current = destination then .ok (addTo startNodes current)
    else do
      let unfinished ← (if type current = splitInBatches then
        loopIsUnfinished g runData current else .ok false)
      if unfinished then return addTo startNodes current
      else if current ∈ seen then return startNodes
      else
        let outGoingConnections ← getDirectChildConnections g current
        outGoingConnections.foldlM (fun startNodes outGoingConnection => do
          let nodeRunData ← reading (getIncomingDataFromAnyRun runData
            outGoingConnection.fromNode.name outGoingConnection.type outGoingConnection.outputIndex)
          let hasNoRunData :=
            match nodeRunData with
            | none => true
            | some (data, _) => data.isEmpty
          let hasNoPinnedData := !pinData.has outGoingConnection.fromNode.name
          if hasNoRunData && hasNoPinnedData then return startNodes
          else
            findStartNodesRecursive destination fuel
              outGoingConnection.toNode startNodes (addTo seen current))
          startNodes

def findStartNodes (trigger destination : INode) : Except GraphError (List INode) :=
  findStartNodesRecursive g type runData pinData destination (depth g) trigger [] []

end

/-! ## What the nodes and connections are -/

/-- The items of a run on an output. -/
def itemsOf (type : NodeConnectionType) (outputIndex : Nat)
    (run : ITaskData V) : List (INodeExecutionData V) :=
  match (run.data.bind (·.get? type)).map (slotAt · outputIndex) with
  | some (.value items) => items
  | _ => []

/-- The run has no data, or an entry for the connection type. -/
def HasEntry (type : NodeConnectionType) (run : ITaskData V) : Prop :=
  ∀ data, run.data = some data → data.has type = true

/-- The runs have an entry for the connection type up to the first of them
    that has items on the output. -/
def HaveEntries (type : NodeConnectionType) (outputIndex : Nat) :
    List (ITaskData V) → Prop
  | [] => True
  | run :: rest => HasEntry type run
      ∧ (itemsOf type outputIndex run = [] → HaveEntries type outputIndex rest)

instance (type : NodeConnectionType) (run : ITaskData V) :
    Decidable (HasEntry type run) :=
  decidable_of_iff (∀ data ∈ run.data, data.has type = true) Iff.rfl

instance (type : NodeConnectionType) (outputIndex : Nat) :
    (runs : List (ITaskData V)) → Decidable (HaveEntries type outputIndex runs)
  | [] => inferInstanceAs (Decidable True)
  | run :: rest =>
    have := instDecidableHaveEntries type outputIndex rest
    inferInstanceAs (Decidable (HasEntry type run
      ∧ (itemsOf type outputIndex run = [] → HaveEntries type outputIndex rest)))

section

variable (g : Graph) (type : INode → String) (runData : IRunData V) (pinData : IPinData V)

def runsOf (nodeName : String) : List (ITaskData V) := (runData.get? nodeName).getD []

def LastRunEmpty (nodeName : String) (outputIndex : Nat) : Prop :=
  ∀ run, (runsOf runData nodeName).getLast? = some run → itemsOf .main outputIndex run = []

instance (nodeName : String) (outputIndex : Nat) :
    Decidable (LastRunEmpty runData nodeName outputIndex) :=
  decidable_of_iff (∀ run ∈ (runsOf runData nodeName).getLast?,
    itemsOf .main outputIndex run = []) Iff.rfl

/-- The node is on a cycle. -/
def OnALoop (node : INode) : Prop := TransGen (Edge g.children) node node

/-- A loop node whose `done` output is empty on the last run, where output
    1 takes the place of output 0 for a node that is not on a cycle. -/
def LoopUnfinished (node : INode) : Prop :=
  type node = splitInBatches
    ∧ (OnALoop g node → LastRunEmpty runData node.name 0)
    ∧ (¬ OnALoop g node → LastRunEmpty runData node.name 1)

def IsStop (destination node : INode) : Prop :=
  isDirty runData pinData node = true ∨ node = destination ∨ LoopUnfinished g type runData node

/-- The source of the connection has run data on the output, or pinned
    data. -/
def HasData (c : GraphConnection) : Prop :=
  (∃ run ∈ runsOf runData c.fromNode.name, itemsOf c.type c.outputIndex run ≠ [])
      ∨ pinData.has c.fromNode.name = true

/-- From a node that is no stop node along a connection with data. -/
def PassesBy (stop : INode → Prop) (a b : INode) : Prop :=
  ¬ stop a ∧ ∃ c ∈ g.connections, c.fromNode = a ∧ c.toNode = b ∧ HasData runData pinData c

/-- The result has exactly the stop nodes that can be reached from the
    trigger past no other stop node. -/
def ReturnsExactly (stop : INode → Prop) (trigger : INode)
    (result : Except GraphError (List INode)) : Prop :=
  ∃ startNodes, result = .ok startNodes ∧ ∀ n, n ∈ startNodes
    ↔ stop n ∧ ReflTransGen (PassesBy g runData pinData stop) trigger n

abbrev Passes (destination : INode) : INode → INode → Prop :=
  PassesBy g runData pinData (IsStop g type runData pinData destination)

abbrev IsReached (destination : INode) : INode → INode → Prop :=
  ReflTransGen (Passes g type runData pinData destination)

/-- The runs of the node have entries for the connection types they are
    asked for. -/
structure Readable (destination node : INode) : Prop where
  last : isDirty runData pinData node = false → node ≠ destination →
    type node = splitInBatches → ∀ run,
      (runsOf runData node.name).getLast? = some run → HasEntry .main run
  all : ¬ IsStop g type runData pinData destination node → ∀ c ∈ g.connections, c.fromNode = node →
      HaveEntries c.type c.outputIndex (runsOf runData node.name)

end

/-! ## Reading run data -/

section

variable {runData : IRunData V} {nodeName : String}
  {type : NodeConnectionType} {outputIndex : Nat}

theorem reading_ok {α : Type} {x : Except EngineError α} {a : α}
    (h : x = .ok a) : reading x = .ok a := by
  rw [h]
  rfl

theorem getIncomingData_ok (outputIndex : Nat) {runIndex : Nat}
    (h : ∀ run, (runsOf runData nodeName)[runIndex]? = some run → HasEntry type run) :
    ∃ data, getIncomingData runData nodeName runIndex type outputIndex
        = .ok data
      ∧ data.getD [] = (((runsOf runData nodeName)[runIndex]?).map
        (itemsOf type outputIndex)).getD [] := by
  have hruns : (runData.get? nodeName).bind (·[runIndex]?)
      = (runsOf runData nodeName)[runIndex]? := by
    rw [runsOf]
    cases runData.get? nodeName <;> rfl
  rw [getIncomingData, hruns]
  rcases hrun : (runsOf runData nodeName)[runIndex]? with _ | run
  · exact ⟨none, rfl, rfl⟩
  · rcases hdata : run.data with _ | data
    · refine ⟨none, (by simp [hdata]), ?_⟩
      simp [itemsOf, hdata]
    · have hentry := h run hrun data hdata
      obtain ⟨outputs, houtputs⟩ := Option.isSome_iff_exists.mp hentry
      rcases hslot : slotAt outputs outputIndex with _ | _ | items
      · exact ⟨none, (by simp [hdata, houtputs, hslot]),
          (by simp [itemsOf, hdata, houtputs, hslot])⟩
      · exact ⟨none, (by simp [hdata, houtputs, hslot]),
          (by simp [itemsOf, hdata, houtputs, hslot])⟩
      · exact ⟨some items, (by simp [hdata, houtputs, hslot]),
          (by simp [itemsOf, hdata, houtputs, hslot])⟩

/-- The first run with items is found, and all before it are read without an
    error. -/
theorem firstRunWithData_ok {before rest : List (ITaskData V)}
    (hruns : runsOf runData nodeName = before ++ rest) (h : HaveEntries type outputIndex rest) :
    ∃ found, firstRunWithData runData nodeName type outputIndex
        (List.range' before.length rest.length) = .ok found
      ∧ (∀ p, found = some p → p.1 ≠ [])
      ∧ (found.isSome = true ↔ ∃ run ∈ rest, itemsOf type outputIndex run ≠ []) := by
  induction rest generalizing before with
  | nil => exact ⟨none, rfl, (by simp), (by simp)⟩
  | cons run rest ih =>
    have hrun : (runsOf runData nodeName)[before.length]? = some run := by
      rw [hruns]
      simp
    have hentry : ∀ run', (runsOf runData nodeName)[before.length]? = some run' →
          HasEntry type run' := by
      intro run' hrun'
      rw [hrun] at hrun'
      cases hrun'
      exact h.1
    obtain ⟨data, hdata, hitems⟩ := getIncomingData_ok outputIndex hentry
    rw [hrun, Option.map_some, Option.getD_some] at hitems
    have hskip : itemsOf type outputIndex run = [] →
        ∃ found, firstRunWithData runData nodeName type outputIndex
            (List.range' (before.length + 1) rest.length) = .ok found
          ∧ (∀ p, found = some p → p.1 ≠ [])
          ∧ (found.isSome = true ↔ ∃ r ∈ run :: rest, itemsOf type outputIndex r ≠ []) := by
      intro hempty
      have hnext : runsOf runData nodeName = (before ++ [run]) ++ rest := by
        rw [hruns, append_assoc, singleton_append]
      obtain ⟨found, hfound, hne, hsome⟩ := ih hnext (h.2 hempty)
      rw [length_append, length_singleton] at hfound
      refine ⟨found, hfound, hne, hsome.trans ?_⟩
      rw [exists_mem_cons_iff]
      exact (or_iff_right fun hitems => hitems hempty).symm
    rw [length_cons, range'_succ, firstRunWithData, hdata]
    rcases data with _ | _ | ⟨item, items⟩
    · exact hskip hitems.symm
    · exact hskip hitems.symm
    · refine ⟨_, rfl, ?_, ?_⟩
      · rintro p ⟨⟩
        exact cons_ne_nil _ _
      · refine iff_of_true rfl ⟨run, mem_cons_self .., ?_⟩
        rw [← hitems]
        exact cons_ne_nil _ _

theorem getIncomingDataFromAnyRun_ok (h : HaveEntries type outputIndex (runsOf runData nodeName)) :
    ∃ found, getIncomingDataFromAnyRun runData nodeName type outputIndex
        = .ok found
      ∧ (∀ p, found = some p → p.1 ≠ [])
      ∧ (found.isSome = true ↔ ∃ run ∈ runsOf runData nodeName,
        itemsOf type outputIndex run ≠ []) := by
  have hfirst := firstRunWithData_ok (nil_append _).symm h
  rw [length_nil, ← range_eq_range'] at hfirst
  exact hfirst

theorem getIncomingData_lastRun_ok (outputIndex : Nat)
    (h : ∀ run, (runsOf runData nodeName).getLast? = some run → HasEntry .main run) :
    ∃ data, getIncomingData runData nodeName (lastRun runData nodeName) .main outputIndex = .ok data
      ∧ (data.getD [] = [] ↔ LastRunEmpty runData nodeName outputIndex) := by
  have hlast : (runsOf runData nodeName)[lastRun runData nodeName]?
      = (runsOf runData nodeName).getLast? := getLast?_eq_getElem?.symm
  obtain ⟨data, hdata, hitems⟩ := getIncomingData_ok outputIndex
    fun run hrun => h run (hlast ▸ hrun)
  refine ⟨data, hdata, ?_⟩
  rw [hitems, hlast, LastRunEmpty]
  rcases (runsOf runData nodeName).getLast? with _ | run
  · simp
  · simp

end

/-! ## What a branch finds -/

section

variable {g : Graph} {type : INode → String} {runData : IRunData V}
  {pinData : IPinData V} {destination : INode}

variable {node : INode}

theorem isALoop_ok (hnode : node ∈ g.nodes) :
    ∃ loop, isALoop g.graph node = .ok loop ∧ (loop = true ↔ OnALoop g node) := by
  obtain ⟨children, hchildren, hmem⟩ := Graph.getChildren_ok hnode
  refine ⟨decide (node ∈ children), ?_, ?_⟩
  · rw [isALoop, hchildren]
    rfl
  · rw [decide_eq_true_iff]
    exact hmem node

theorem loopIsUnfinished_ok (hnode : node ∈ g.nodes)
    (hlast : ∀ run, (runsOf runData node.name).getLast? = some run → HasEntry .main run) :
    ∃ unfinished, loopIsUnfinished g.graph runData node = .ok unfinished
      ∧ (unfinished = true
        ↔ (OnALoop g node → LastRunEmpty runData node.name 0)
          ∧ (¬ OnALoop g node → LastRunEmpty runData node.name 1)) := by
  obtain ⟨loop, hloop, honLoop⟩ := isALoop_ok hnode
  obtain ⟨data, hdata, hempty⟩ := getIncomingData_lastRun_ok (if loop then 0 else 1) hlast
  refine ⟨(data.getD []).isEmpty, ?_, ?_⟩
  · rw [loopIsUnfinished, hloop]
    show (reading (getIncomingData runData node.name
      (lastRun runData node.name) .main (if loop then 0 else 1)) >>= _) = _
    rw [reading_ok hdata]
    cases data <;> rfl
  · rw [List.isEmpty_iff, hempty]
    cases loop with
    | true =>
      have hon := honLoop.mp rfl
      exact ⟨fun h => ⟨fun _ => h, fun hoff => absurd hon hoff⟩, fun h => h.1 hon⟩
    | false =>
      have hoff : ¬ OnALoop g node := fun hon =>
        Bool.false_ne_true (honLoop.mpr hon)
      exact ⟨fun h => ⟨fun hon => absurd hon hoff, fun _ => h⟩, fun h => h.2 hoff⟩

theorem unfinished_ok (hnode : node ∈ g.nodes)
    (hread : Readable g type runData pinData destination node)
    (hdirty : isDirty runData pinData node = false) (hdestination : node ≠ destination) :
    ∃ unfinished,
      (if type node = splitInBatches then loopIsUnfinished g.graph runData node
        else .ok false) = .ok unfinished
      ∧ (unfinished = true ↔ IsStop g type runData pinData destination node) := by
  have hstop : IsStop g type runData pinData destination node
      ↔ LoopUnfinished g type runData node := by
    rw [IsStop, hdirty]
    simp [hdestination]
  by_cases htype : type node = splitInBatches
  · obtain ⟨unfinished, hok, hiff⟩ := loopIsUnfinished_ok hnode
      (hread.last hdirty hdestination htype)
    refine ⟨unfinished, (if_pos htype).trans hok, ?_⟩
    rw [hstop, hiff, LoopUnfinished]
    exact (and_iff_right htype).symm
  · refine ⟨false, if_neg htype, ?_⟩
    rw [hstop]
    exact iff_of_false Bool.false_ne_true fun h => htype h.1

theorem followed_ok {c : GraphConnection}
    (hread : HaveEntries c.type c.outputIndex (runsOf runData c.fromNode.name)) :
    ∃ found, reading (getIncomingDataFromAnyRun runData c.fromNode.name c.type
        c.outputIndex) = .ok found
      ∧ (((match found with
          | none => true
          | some (data, _) => data.isEmpty) && !pinData.has c.fromNode.name) = true
        ↔ ¬ HasData runData pinData c) := by
  obtain ⟨found, hfound, hne, hsome⟩ := getIncomingDataFromAnyRun_ok hread
  refine ⟨found, reading_ok hfound, ?_⟩
  rw [HasData, ← hsome, Bool.and_eq_true_iff, not_or, Bool.not_eq_true']
  refine and_congr ?_ (Bool.not_eq_true _).symm.to_iff
  rcases found with _ | ⟨data, run⟩
  · simp
  · have hdata : data ≠ [] := hne (data, run) rfl
    simp [hdata]

/-- From a node to which the branch has not been. -/
def PassesNew (g : Graph) (type : INode → String) (runData : IRunData V)
    (pinData : IPinData V) (destination : INode) (seen : List INode) (a b : INode) : Prop :=
  Passes g type runData pinData destination a b ∧ a ∉ seen

/-- The stop nodes that are added can be reached from one of the nodes. -/
def Adds (g : Graph) (type : INode → String) (runData : IRunData V)
    (pinData : IPinData V) (destination : INode) (seen : List INode)
    (starts : INode → Prop) (startNodes result : List INode) : Prop :=
  ∀ x, x ∈ result ↔ x ∈ startNodes
    ∨ (IsStop g type runData pinData destination x ∧ ∃ a, starts a ∧
      ReflTransGen (PassesNew g type runData pinData destination seen) a x)

variable {starts : INode → Prop} {seen startNodes : List INode}

theorem Adds.none (h : ∀ a, ¬ starts a) :
    Adds g type runData pinData destination seen starts startNodes startNodes := by
  refine fun x => (or_iff_left ?_).symm
  rintro ⟨-, a, ha, -⟩
  exact h a ha

theorem Adds.trans {first second third : List INode} {starts' : INode → Prop}
    (h : Adds g type runData pinData destination seen starts first second)
    (h' : Adds g type runData pinData destination seen starts' second third) :
    Adds g type runData pinData destination seen (fun a => starts a ∨ starts' a) first third := by
  intro x
  rw [h' x, h x]
  constructor
  · rintro ((hx | ⟨hstop, a, ha, hax⟩) | ⟨hstop, a, ha, hax⟩)
    · exact .inl hx
    · exact .inr ⟨hstop, a, .inl ha, hax⟩
    · exact .inr ⟨hstop, a, .inr ha, hax⟩
  · rintro (hx | ⟨hstop, a, ha | ha, hax⟩)
    · exact .inl (.inl hx)
    · exact .inl (.inr ⟨hstop, a, ha, hax⟩)
    · exact .inr ⟨hstop, a, ha, hax⟩

theorem Adds.congr {result : List INode} {starts' : INode → Prop}
    (h : Adds g type runData pinData destination seen starts startNodes result)
    (hstarts : ∀ a, starts a ↔ starts' a) :
    Adds g type runData pinData destination seen starts' startNodes result := by
  rwa [← funext fun a => propext (hstarts a)]

/-- The body of the loop of `findStartNodesRecursive`. -/
def followConnection (g : DirectedGraph) (type : INode → String)
    (runData : IRunData V) (pinData : IPinData V) (destination : INode)
    (fuel : Nat) (seen startNodes : List INode) (c : GraphConnection) :
    Except GraphError (List INode) := do
  let nodeRunData ← reading (getIncomingDataFromAnyRun runData c.fromNode.name c.type c.outputIndex)
  let hasNoRunData :=
    match nodeRunData with
    | none => true
    | some (data, _) => data.isEmpty
  let hasNoPinnedData := !pinData.has c.fromNode.name
  if hasNoRunData && hasNoPinnedData then return startNodes
  else
    findStartNodesRecursive g type runData pinData destination fuel c.toNode startNodes seen

theorem followConnection_ok {fuel : Nat} {c : GraphConnection}
    (hread : HaveEntries c.type c.outputIndex (runsOf runData c.fromNode.name))
    (hcall : HasData runData pinData c →
      ∃ result, findStartNodesRecursive g.graph type runData pinData
          destination fuel c.toNode startNodes seen = .ok result
        ∧ Adds g type runData pinData destination seen (· = c.toNode) startNodes result) :
    ∃ result, followConnection g.graph type runData pinData destination fuel
        seen startNodes c = .ok result
      ∧ Adds g type runData pinData destination seen
        (fun a => a = c.toNode ∧ HasData runData pinData c) startNodes result := by
  obtain ⟨found, hfound, hdata⟩ := followed_ok hread
  by_cases hhas : HasData runData pinData c
  · obtain ⟨result, hresult, hadds⟩ := hcall hhas
    refine ⟨result, ?_, hadds.congr fun a => (and_iff_left hhas).symm⟩
    rw [followConnection, hfound]
    exact (if_neg (mt hdata.mp (not_not.mpr hhas))).trans hresult
  · refine ⟨startNodes, ?_, Adds.none fun a ha => hhas ha.2⟩
    rw [followConnection, hfound]
    exact if_pos (hdata.mpr hhas)

theorem foldlM_followConnection {fuel : Nat} {rest : List GraphConnection}
    (hread : ∀ c ∈ rest, HaveEntries c.type c.outputIndex (runsOf runData c.fromNode.name))
    (hcall : ∀ c ∈ rest, HasData runData pinData c → ∀ startNodes,
      ∃ result, findStartNodesRecursive g.graph type runData pinData
          destination fuel c.toNode startNodes seen = .ok result
        ∧ Adds g type runData pinData destination seen (· = c.toNode) startNodes result)
    (startNodes : List INode) :
    ∃ result, rest.foldlM (followConnection g.graph type runData pinData
        destination fuel seen) startNodes = .ok result
      ∧ Adds g type runData pinData destination seen
        (fun a => ∃ c ∈ rest, a = c.toNode ∧ HasData runData pinData c) startNodes result := by
  induction rest generalizing startNodes with
  | nil =>
    refine ⟨startNodes, rfl, Adds.none ?_⟩
    rintro a ⟨c, hc, -⟩
    cases hc
  | cons c rest ih =>
    obtain ⟨next, hnext, hfirst⟩ := followConnection_ok (hread c (mem_cons_self ..))
      fun hhas => hcall c (mem_cons_self ..) hhas startNodes
    obtain ⟨result, hresult, hadds⟩ := ih (fun d hd => hread d (mem_cons_of_mem c hd))
      (fun d hd => hcall d (mem_cons_of_mem c hd)) next
    refine ⟨result, ?_, (hfirst.trans hadds).congr fun a => ?_⟩
    · rw [foldlM_cons, hnext]
      exact hresult
    · simp

variable {current : INode}

theorem adds_current {result : List INode}
    (hstop : ¬ IsStop g type runData pinData destination current) (hnew : current ∉ seen)
    (h : Adds g type runData pinData destination (seen ++ [current])
      (fun a => ∃ c ∈ g.connections.filter (·.fromNode = current),
        a = c.toNode ∧ HasData runData pinData c) startNodes result) :
    Adds g type runData pinData destination seen (· = current) startNodes result := by
  intro x
  rw [h x]
  refine or_congr_right (and_congr_right fun hx => ?_)
  have hgrow : ∀ {a b}, PassesNew g type runData pinData destination
      (seen ++ [current]) a b → PassesNew g type runData pinData destination seen a b :=
    fun hab => ⟨hab.1, fun ha => hab.2 (mem_append_left _ ha)⟩
  constructor
  · rintro ⟨a, ⟨c, hc, rfl, hhas⟩, hax⟩
    obtain ⟨hc, hfrom⟩ := mem_filter.mp hc
    refine ⟨current, rfl, .head ⟨⟨hstop, c, hc, ?_, rfl, hhas⟩, hnew⟩
      (ReflTransGen.mono (fun _ _ => hgrow) _ _ hax)⟩
    exact of_decide_eq_true hfrom
  · rintro ⟨a, ha, hax⟩
    rw [ha] at hax
    have havoid : ∀ a b, PassesNew g type runData pinData destination seen a b
        ∧ a ≠ current → PassesNew g type runData pinData destination (seen ++ [current]) a b := by
      rintro a b ⟨hab, hne⟩
      refine ⟨hab.1, fun ha => ?_⟩
      rcases mem_append.mp ha with ha | ha
      · exact hab.2 ha
      · exact hne (mem_singleton.mp ha)
    rcases exists_last_visit current hax with hnever | ⟨b, hb, hbx⟩
    · rcases hnever.cases_head with rfl | ⟨b, ⟨-, hne⟩, -⟩
      · exact absurd hx hstop
      · exact absurd rfl hne
    · obtain ⟨⟨-, c, hc, hfrom, rfl, hhas⟩, -⟩ := hb
      exact ⟨_, ⟨c, mem_filter.mpr ⟨hc, decide_eq_true hfrom⟩, rfl,
        hhas⟩, ReflTransGen.mono havoid _ _ hbx⟩

theorem mem_addTo_adds (hstop : IsStop g type runData pinData destination current) :
    Adds g type runData pinData destination seen (· = current) startNodes
      (addTo startNodes current) := by
  intro x
  rw [mem_addTo]
  refine or_congr_right ⟨?_, ?_⟩
  · rintro rfl
    exact ⟨hstop, x, rfl, .refl⟩
  · rintro ⟨hx, a, ha, hax⟩
    rw [ha] at hax
    rcases hax.cases_head with rfl | ⟨b, hab, -⟩
    · rfl
    · exact absurd hstop hab.1.1

/-- **ONE CALL** adds the stop nodes that can be reached without passing a
    node of the branch. -/
theorem findStartNodesRecursive_ok {fuel : Nat} (startNodes : List INode)
    (hcurrent : current ∈ g.nodes)
    (hread : ∀ n, IsReached g type runData pinData destination current n →
      Readable g type runData pinData destination n) (hfuel : (unseen g.nodes seen).length < fuel) :
    ∃ result, findStartNodesRecursive g.graph type runData pinData
        destination fuel current startNodes seen = .ok result
      ∧ Adds g type runData pinData destination seen (· = current) startNodes result := by
  induction fuel generalizing current seen startNodes with
  | zero => omega
  | succ fuel ih =>
    rw [findStartNodesRecursive]
    by_cases hdirty : isDirty runData pinData current = true
    · exact ⟨_, if_pos hdirty, mem_addTo_adds (.inl hdirty)⟩
    by_cases hdestination : current = destination
    · exact ⟨_, (if_neg hdirty).trans (if_pos hdestination),
        mem_addTo_adds (.inr (.inl hdestination))⟩
    obtain ⟨unfinished, hunfinished, hstop⟩ := unfinished_ok hcurrent
      (hread current .refl) (Bool.not_eq_true _ ▸ hdirty) hdestination
    rw [if_neg hdirty, if_neg hdestination, hunfinished]
    by_cases hdone : unfinished = true
    · exact ⟨_, if_pos hdone, mem_addTo_adds (hstop.mp hdone)⟩
    have hpass := mt hstop.mpr hdone
    by_cases hseen : current ∈ seen
    · refine ⟨startNodes, (if_neg hdone).trans (if_pos hseen), fun x => ?_⟩
      refine (or_iff_left ?_).symm
      rintro ⟨hx, a, ha, hax⟩
      rw [ha] at hax
      rcases hax.cases_head with rfl | ⟨b, hab, -⟩
      · exact hpass hx
      · exact hab.2 hseen
    have hlt := length_unseen_lt hcurrent hseen prefix_rfl
    have hpassed : addTo seen current = seen ++ [current] := if_neg hseen
    have hout : ∀ c ∈ g.connections.filter (·.fromNode = current),
        c ∈ g.connections ∧ c.fromNode = current := fun c hc =>
      ⟨(mem_filter.mp hc).1, of_decide_eq_true (mem_filter.mp hc).2⟩
    have hentries : ∀ c ∈ g.connections.filter (·.fromNode = current),
        HaveEntries c.type c.outputIndex (runsOf runData c.fromNode.name) := by
      intro c hc
      obtain ⟨hc, hfrom⟩ := hout c hc
      rw [hfrom]
      exact (hread current .refl).all hpass c hc hfrom
    have hcall : ∀ c ∈ g.connections.filter (·.fromNode = current),
        HasData runData pinData c → ∀ startNodes,
          ∃ result, findStartNodesRecursive g.graph type runData pinData
              destination fuel c.toNode startNodes (seen ++ [current])
            = .ok result
          ∧ Adds g type runData pinData destination (seen ++ [current])
            (· = c.toNode) startNodes result := by
      intro c hc hhas startNodes
      obtain ⟨hc, hfrom⟩ := hout c hc
      exact ih startNodes (Graph.toNode_mem hc)
        (fun n hn => hread n (.head ⟨hpass, c, hc, hfrom, rfl, hhas⟩ hn)) (by omega)
    obtain ⟨result, hresult, hadds⟩ := foldlM_followConnection hentries hcall startNodes
    refine ⟨result, ?_, adds_current hpass hseen hadds⟩
    refine (if_neg hdone).trans ((if_neg hseen).trans ?_)
    rw [Graph.getDirectChildConnections_ok hcurrent, hpassed]
    exact hresult

/-- The first stop node on the way, and what leads to it past no other. -/
theorem exists_first_stop {a n : INode} (hstop : IsStop g type runData pinData destination n)
    (hpath : ReflTransGen (PassesBy g runData pinData fun _ => False) a n) :
    ∃ s, IsStop g type runData pinData destination s
      ∧ ReflTransGen (PassesNew g type runData pinData destination []) a s
      ∧ ReflTransGen (PassesBy g runData pinData fun _ => False) s n := by
  induction hpath using ReflTransGen.head_induction_on with
  | refl => exact ⟨n, hstop, .refl, .refl⟩
  | @head a b hab hbn ih =>
    by_cases ha : IsStop g type runData pinData destination a
    · exact ⟨a, ha, .refl, .head hab hbn⟩
    · obtain ⟨s, hs, hbs, hsn⟩ := ih
      exact ⟨s, hs, .head ⟨⟨ha, hab.2⟩, not_mem_nil⟩ hbs, hsn⟩

end

/-! ## A loop node without a loop -/

section

/-- A trigger, a loop node that the graph has no loop for, and the
    destination. -/
def loopGraph : Graph :=
  .of [⟨1, "trigger"⟩, ⟨2, "loop"⟩, ⟨3, "node"⟩]
    [⟨⟨1, "trigger"⟩, ⟨2, "loop"⟩, .main, 0, 0⟩, ⟨⟨2, "loop"⟩, ⟨3, "node"⟩, .main, 1, 0⟩]
  (by decide)

def loopType (node : INode) : String :=
  if node.name = "loop" then splitInBatches else "test.set"

def item : INodeExecutionData Unit := { json := .empty, pairedItem := none }

def ran (data : Option (N8nWorkflowExecute.ITaskDataConnections Unit)) : List (ITaskData Unit) :=
  [{ data, inputOverride := none }]

/-- Nothing on the `done` output, an item on the output after it. -/
def loopRunData : IRunData Unit :=
  ((OrderedMap.empty.set "trigger"
      (ran (some (OrderedMap.empty.set .main [.value [item]])))).set "loop"
      (ran (some (OrderedMap.empty.set .main [.value [], .value [item]])))).set "node"
    (ran (some (OrderedMap.empty.set .main [.value [item]])))

/-- The trigger has data, but no entry for what it is asked for. -/
def noEntryRunData : IRunData Unit := OrderedMap.empty.set "trigger" (ran (some .empty))

end

end N8nStartNodes
