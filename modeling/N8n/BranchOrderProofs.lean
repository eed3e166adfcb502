import N8n.LoopTerminationProofs

/-! # Branch order — what is more to the top left runs first

    In the v1 order the connections of a node are sorted with what is more to
    the top left last, and each is put at the front of the stack, so that it
    ends up on top.  What a child puts on the stack goes to the front too, so
    all of it is taken before the next child.

    `over_next` says that no iteration reaches below the entries it is over,
    and `branches_in_order` has both.  A node with several inputs that still
    waits is not on the stack; nobody looks for it before the stack is empty,
    and the next child goes first (`not_branchFirst_switch`). -/

namespace N8nBranchOrder

open N8nRun N8nOrderedMap N8nWorkflow N8nConnectedNodes N8nWorkflowExecute
open N8nEngineRequest N8nMainLoop N8nLoopTermination

variable {P V : Type}

/-! ## The order of the children -/

/-- The comparator of the sort. -/
def comparePositions (a b : Int × Int) : Int :=
  if a.2 < b.2 then 1
  else if b.2 < a.2 then -1
  else if b.1 < a.1 then -1
  else 0

/-- Smaller `y` first, and smaller `x` first where it is the same. -/
def TopLeft (a b : Int × Int) : Prop := a.2 < b.2 ∨ a.2 = b.2 ∧ a.1 ≤ b.1

theorem topLeft_of_before {a b : Int × Int} (h : before a b) : TopLeft b a :=
  h.imp id fun ⟨hy, hx⟩ => ⟨hy.symm, hx⟩

theorem before_total (a b : Int × Int) : before a b ∨ before b a := by
  simp only [before]
  omega

theorem before_trans {a b c : Int × Int} (hab : before a b) (hbc : before b c) : before a c := by
  simp only [before] at hab hbc ⊢
  omega

def outputHasItems (outputs : Outputs V) (p : Nat × IConnection) : Bool :=
  match slotAt outputs p.1 with
  | .value items => !items.isEmpty
  | _ => false

theorem goesTo_v1 {workflow : Workflow P}
    (hv1 : workflow.executionOrder = some .v1) (outputs : Outputs V) :
    goesTo workflow outputs = outputHasItems outputs := by
  have hlegacy := isLegacyExecutionOrder_v1 hv1
  funext p
  rw [goesTo, hlegacy, outputHasItems]
  cases slotAt outputs p.1 with
  | undefined => rfl
  | null => rfl
  | value items => simp

def childEntry (workflow : Workflow P) (nodeName : String)
    (outputs : Outputs V) (runIndex : Nat) (p : Nat × IConnection) :
    IExecuteData P V :=
  directEntry workflow (deliveryTo nodeName outputs runIndex p)

section

variable {workflow : Workflow P} (hv1 : workflow.executionOrder = some .v1)
include hv1

theorem addAll_direct {deliveries : List (Delivery V)}
    (hinputs : ∀ d ∈ deliveries, numberOfInputs workflow d.connectionData.node ≤ 1)
    (s : IRunExecutionData P V) :
    addAll workflow deliveries s
      = ({ s with
           nodeExecutionStack :=
             (deliveries.map (directEntry workflow)).reverse ++ s.nodeExecutionStack }, none) := by
  induction deliveries generalizing s with
  | nil => rfl
  | cons d rest ih =>
    obtain ⟨hd, hrest⟩ := List.forall_mem_cons.mp hinputs
    have hcall : addNodeToBeExecuted workflow s d
        = { waitingExecution := s.waitingExecution
            enqueued := [directEntry workflow d]
            error := none } := by
      rw [addNodeToBeExecuted, if_neg (Nat.not_lt.mpr hd)]
    have hput : enqueue workflow s.nodeExecutionStack (directEntry workflow d)
          = directEntry workflow d :: s.nodeExecutionStack := if_pos hv1
    rw [addAll]
    simp [hcall, IRunExecutionData.afterAdding, hput, ih hrest]

end


/-! ## What is put over the stack -/

/-- A stack with entries over it that have main data. -/
def PutOver (stack stack' : List (IExecuteData P V)) : Prop :=
  ∃ above, stack' = above ++ stack ∧ ∀ x ∈ above, x.data.has .main = true

theorem PutOver.refl (stack : List (IExecuteData P V)) : PutOver stack stack :=
  ⟨[], rfl, fun _ hx => absurd hx List.not_mem_nil⟩

section

variable {workflow : Workflow P} (hv1 : workflow.executionOrder = some .v1)
include hv1

theorem foldl_enqueue (enqueued stack : List (IExecuteData P V)) :
    enqueued.foldl (enqueue workflow) stack = enqueued.reverse ++ stack := by
  induction enqueued generalizing stack with
  | nil => rfl
  | cons x rest ih =>
    rw [List.foldl_cons, ih, enqueue, if_pos hv1, List.reverse_cons,
      List.append_assoc, List.singleton_append]

theorem putOver_addAll (deliveries : List (Delivery V)) (s : IRunExecutionData P V) :
    PutOver s.nodeExecutionStack (addAll workflow deliveries s).1.nodeExecutionStack := by
  induction deliveries generalizing s with
  | nil => exact .refl _
  | cons d rest ih =>
    have hstack : (s.afterAdding workflow (addNodeToBeExecuted workflow s d)).nodeExecutionStack
          = (addNodeToBeExecuted workflow s d).enqueued.reverse
            ++ s.nodeExecutionStack := foldl_enqueue hv1 _ _
    have hmain : ∀ x ∈ (addNodeToBeExecuted workflow s d).enqueued.reverse,
        x.data.has .main = true :=
      fun x hx => main_of_added hv1 s d x (List.mem_reverse.mp hx)
    rw [addAll]
    rcases (addNodeToBeExecuted workflow s d).error with _ | e
    · obtain ⟨above, heq, habove⟩ := ih (s.afterAdding workflow (addNodeToBeExecuted workflow s d))
      refine ⟨above ++ (addNodeToBeExecuted workflow s d).enqueued.reverse,
        ?_, List.forall_mem_append.mpr ⟨habove, hmain⟩⟩
      rw [heq, hstack, List.append_assoc]
    · exact ⟨_, hstack, hmain⟩

theorem putOver_addChildren (nodeName : String) (outputs : Outputs V) (runIndex : Nat)
    (s : IRunExecutionData P V) :
    PutOver s.nodeExecutionStack
      (addChildren workflow nodeName outputs runIndex s).1.nodeExecutionStack := by
  have hlegacy := isLegacyExecutionOrder_v1 hv1
  rw [addChildren]
  simp only [hlegacy, Bool.false_eq_true, if_false]
  split
  · exact .refl _
  · exact putOver_addAll hv1 _ s

end

theorem order_requestAction {node : INode P} {runIndex : Nat}
    {executionData : IExecuteData P V} {r r' : Requesting P V}
    {action : EngineAction V}
    (h : requestAction node executionData runIndex r action = .ok r') :
    r'.workflow.executionOrder = r.workflow.executionOrder := by
  rw [requestAction] at h
  rcases hnode : r.workflow.nodes.get? action.nodeName with _ | tool <;>
    rw [hnode] at h <;> cases h
  rfl

theorem order_prepare (node : INode P) (executionData : IExecuteData P V) (runIndex : Nat)
    (actions : List (EngineAction V)) (r : Requesting P V) :
    (prepareRequestedNodesForExecution node executionData runIndex actions
      r).1.workflow.executionOrder = r.workflow.executionOrder := by
  induction actions generalizing r with
  | nil => rfl
  | cons action rest ih =>
    rw [prepareRequestedNodesForExecution]
    rcases haction : requestAction node executionData runIndex r action with e | next
    · rfl
    · exact (ih next).trans (order_requestAction haction)

theorem request_over {workflow : Workflow P} (hv1 : workflow.executionOrder = some .v1)
    (node : INode P) (request : EngineRequest V) (runIndex : Nat)
    (executionData : IExecuteData P V) (s : IRunExecutionData P V) :
    let handled := handleEngineRequest workflow node request runIndex executionData s
    handled.workflow.executionOrder = some .v1
      ∧ PutOver s.nodeExecutionStack handled.state.nodeExecutionStack := by
  have horder := order_prepare node executionData runIndex request.actions
    { workflow, runData := s.runData, nodesToBeExecuted := [], actions := [] }
  rw [handleEngineRequest, handleRequest]
  rcases hprepare : prepareRequestedNodesForExecution node executionData runIndex request.actions
    { workflow, runData := s.runData, nodesToBeExecuted := [], actions := [] }
    with ⟨requesting, _ | e⟩
  · rw [hprepare] at horder
    have hv1' : requesting.workflow.executionOrder = some .v1 := horder.trans hv1
    rcases resumeParent executionData with _ | parentNode
    · exact ⟨hv1', .refl _⟩
    · rcases executionData.data.get? .main with _ | main
      · exact ⟨hv1', .refl _⟩
      · exact ⟨hv1', putOver_addAll hv1' _ _⟩
  · rw [hprepare] at horder
    exact ⟨horder.trans hv1, .refl _⟩

/-! ## Over the rest of the stack -/

section

variable {ctx : Context P} {below : List (IExecuteData P V)}
  {l : MainLoop P V}

/-- The loop is over these entries: what it may still take from above them
    has main data. -/
structure Over (below : List (IExecuteData P V)) (l : MainLoop P V) :
    Prop where
  order : l.workflow.executionOrder = some .v1
  stack : ∃ above, l.state.nodeExecutionStack = above ++ below
    ∧ (l.ended = none → ∀ x ∈ above, x.data.has .main = true)

/-- The loop is about to take the first of them. -/
def Exposes (below : List (IExecuteData P V)) (l : MainLoop P V) : Prop :=
  l.phase = .head ∧ l.state.nodeExecutionStack = below

variable {l' : MainLoop P V}

theorem Over.putOver (h : Over below l)
    (horder : l'.workflow.executionOrder = l.workflow.executionOrder)
    (hstack : PutOver l.state.nodeExecutionStack l'.state.nodeExecutionStack)
    (hended : l'.ended = none → l.ended = none) : Over below l' := by
  obtain ⟨above, heq, hmain⟩ := h.stack
  obtain ⟨more, hmore, hmoreMain⟩ := hstack
  refine ⟨horder.trans h.order, more ++ above, ?_, fun hrunning => ?_⟩
  · rw [hmore, heq, List.append_assoc]
  · exact List.forall_mem_append.mpr ⟨hmoreMain, hmain (hended hrunning)⟩

theorem Over.same (h : Over below l) (hworkflow : l'.workflow = l.workflow)
    (hstack : l'.state.nodeExecutionStack = l.state.nodeExecutionStack)
    (hended : l'.ended = none → l.ended = none) : Over below l' :=
  h.putOver (hworkflow ▸ rfl) (hstack ▸ .refl _) hended

theorem Over.putBack (h : Over below l) (hworkflow : l'.workflow = l.workflow)
    {x : IExecuteData P V} (hstack : l'.state.nodeExecutionStack = x :: l.state.nodeExecutionStack)
    (hended : l'.ended ≠ none) : Over below l' := by
  obtain ⟨above, heq, -⟩ := h.stack
  refine ⟨hworkflow ▸ h.order, x :: above, ?_, fun h => absurd h hended⟩
  rw [hstack, heq, List.cons_append]

theorem Over.throw (h : Over below l) (error : EngineError) : Over below (l.throw error) :=
  h.same rfl rfl fun hended => by cases hended

section

variable (h : Over below l) (hended : l.ended = none) (r : Running P V)
include h hended

theorem over_settleNode (outputs : Option (Outputs V)) :
    Over below (settleNode ctx l r outputs) := by
  unfold settleNode
  split
  · exact h.throw _
  · rename_i outputs
    split
    · exact h.throw _
    · dsimp only
      split
      · exact h.putBack rfl rfl (Option.some_ne_none _)
      · split
        · exact h.same rfl rfl fun _ => hended
        · have hover := putOver_addChildren h.order r.node.name outputs
            r.runIndex { l.state with
              runData := storeTaskData r.node r.runIndex l.state.runData
                (successTaskData r.node r.runIndex l.state.runData
                  outputs) }
          split
          · rename_i state error hadd
            rw [hadd] at hover
            exact h.putOver rfl hover fun _ => hended
          · rename_i state hadd
            rw [hadd] at hover
            exact h.putOver rfl hover fun _ => hended

theorem over_failTry (message : String) (outputs : Option (Outputs V)) :
    Over below (failTry l r message outputs) :=
  h.same rfl rfl fun _ => hended

theorem over_tryNode (t : Try V) : Over below (tryNode ctx l r t) := by
  cases t with
  | request request =>
    obtain ⟨horder, hover⟩ := request_over h.order r.node request r.runIndex r.executionData l.state
    have hhandled : Over below { l with
        workflow := (handleEngineRequest l.workflow r.node request
          r.runIndex r.executionData l.state).workflow
        state := (handleEngineRequest l.workflow r.node request r.runIndex
          r.executionData l.state).state } :=
      h.putOver (horder.trans h.order.symm) hover fun _ => hended
    rw [tryNode]
    split
    · exact hhandled.same rfl rfl fun _ => hended
    · exact over_failTry hhandled hended _ _ _
  | data outputs =>
    rw [tryNode]
    split
    · exact over_failTry h hended _ _ _
    · split
      · split
        · exact h.throw _
        · exact h.same rfl rfl fun _ => hended
      · exact over_settleNode h hended _ _
  | failed message outputs => exact over_failTry h hended _ _ _

theorem over_giveUp (message : String) : Over below (giveUp ctx l r message) := by
  rw [giveUp]
  split
  · exact over_settleNode h hended _ _
  · exact h.putBack rfl rfl (Option.some_ne_none _)

end

theorem over_finish (hbelow : below ≠ []) (h : Over below l)
    (hended : l.ended = none) : Over below (finish ctx l) := by
  obtain ⟨above, heq, -⟩ := h.stack
  have hstack : l.state.nodeExecutionStack ≠ [] := by
    rw [heq]
    exact List.append_ne_nil_of_right_ne_nil _ hbelow
  rw [finish, if_neg hstack]
  exact h.same rfl rfl fun _ => hended

theorem over_take (h : Over below l) (hended : l.ended = none)
    (habove : l.state.nodeExecutionStack ≠ below) :
    Over below (take ctx l) := by
  obtain ⟨above, heq, hmain⟩ := h.stack
  cases above with
  | nil => exact absurd heq habove
  | cons x above =>
    obtain ⟨hx, hrest⟩ := List.forall_mem_cons.mp (hmain hended)
    have hset : Over below (l.setStack (above ++ below)) := ⟨h.order, above, rfl, fun _ => hrest⟩
    have hhas : (updatePairedItems x).has .main = true := by
      rw [has_updatePairedItems]
      exact hx
    rw [take, heq]
    simp only [List.cons_append]
    split
    · exact hset.throw _
    · rw [takeEntry]
      split
      · exact hset.throw _
      · split
        · exact hset
        · split
          · exact hset.throw _
          · rename_i hensure
            exact absurd hensure (ensureInputs_v1 h.order hhas _)
          · exact hset.same rfl rfl fun _ => hended

/-- **STEP**: until the loop takes the first of the entries, it stays over
    them. -/
theorem over_next (hbelow : below ≠ []) (h : Over below l) {e : Event V}
    (hstep : Step ctx l e l') (hnot : ¬ Exposes below l) : Over below l' := by
  obtain ⟨henabled, rfl⟩ := hstep
  cases e with
  | take =>
    obtain ⟨hended, hphase, -⟩ := henabled
    exact over_take h hended fun heq => hnot ⟨hphase, heq⟩
  | runTry t again waitTill =>
    have hended : l.ended = none := henabled.1
    have hwaits : Over below
        { l with waitTill := l.waitTill || waitTill } :=
      h.same rfl rfl fun _ => hended
    rw [next]
    split
    · exact over_tryNode hwaits hended _ _
    · exact h
  | giveUp =>
    rw [next]
    split
    · exact over_giveUp h henabled.1 _ _
    · exact h
  | finish => exact over_finish hbelow h henabled.1
  | cancel => exact h.same rfl rfl fun _ => henabled.1

/-- **RUN**: a run stays over the entries or comes to take the first of
    them. -/
theorem over_run (hbelow : below ≠ []) (h : Over below l) {path : List (Event V × MainLoop P V)}
    (hrun : IsRun (Step ctx) l path) :
    EveryState (Over below) l path ∨ SomeState (Exposes below) l path :=
  everyState_or_someState hrun h fun _ _ _ hover hnot hstep =>
    over_next hbelow hover hstep hnot

end

/-! ## The branches of a node -/

/-- Until the loop is about to take the first of these entries, they are at
    the bottom of the stack. -/
def KeepsBelow (ctx : Context P) (below : List (IExecuteData P V)) (l : MainLoop P V) : Prop :=
  ∀ path, IsRun (Step ctx) l path → EveryState
        (fun l => ∃ above, l.state.nodeExecutionStack = above ++ below) l path
      ∨ SomeState (Exposes below) l path

/-- The children of a node that has run: each connection of an output with
    items, from the top left on, over what was on the stack.  All that comes
    to the stack from the upper ones is taken before the next. -/
structure ChildrenInOrder (ctx : Context P) (workflow : Workflow P)
    (nodeName : String) (outputs : Outputs V) (runIndex : Nat)
    (s : IRunExecutionData P V) (children : List (Nat × IConnection)) :
    Prop where
  all : children.Perm ((outgoing workflow nodeName).filter (outputHasItems outputs))
  sorted : (children.map fun p => positionOf workflow p.2.node).Pairwise TopLeft
  stack : (addChildren workflow nodeName outputs runIndex s).1
    = { s with
        nodeExecutionStack :=
          children.map (childEntry workflow nodeName outputs runIndex) ++ s.nodeExecutionStack }
  keeps : ∀ upper child lower, children = upper ++ child :: lower →
    ∀ l : MainLoop P V, l.workflow = workflow →
      l.state = (addChildren workflow nodeName outputs runIndex s).1 → KeepsBelow ctx
          ((child :: lower).map (childEntry workflow nodeName outputs
            runIndex) ++ s.nodeExecutionStack) l

section

variable {ctx : Context P} {workflow : Workflow P} (hv1 : workflow.executionOrder = some .v1)
include hv1

theorem known_of_scheduled {nodeName : String} {outputs : Outputs V}
    {runIndex : Nat} {s : IRunExecutionData P V}
    (h : (addChildren workflow nodeName outputs runIndex s).2 = none) :
    (outgoing workflow nodeName).takeWhile (fun p => workflow.nodes.has p.2.node)
      = outgoing workflow nodeName := by
  have hlegacy := isLegacyExecutionOrder_v1 hv1
  have hwhile := List.takeWhile_prefix (l := outgoing workflow nodeName)
    fun p => workflow.nodes.has p.2.node
  refine hwhile.eq_of_length (hwhile.length_le.antisymm ?_)
  by_contra hless
  rw [addChildren] at h
  simp only [hlegacy, Bool.false_eq_true, if_false,
    if_pos (Nat.not_le.mp hless), Option.isSome_some, if_true] at h
  cases h

/-- **BRANCHES IN ORDER**: a node with any number of children with one input
    puts them on the stack from the top left on, and what comes to the stack
    from one of them is taken before the next. -/
theorem branches_in_order {nodeName : String} {outputs : Outputs V}
    {runIndex : Nat} {s : IRunExecutionData P V}
    (hscheduled : (addChildren workflow nodeName outputs runIndex s).2 = none)
    (hinputs : ∀ p ∈ outgoing workflow nodeName, outputHasItems outputs p = true →
        numberOfInputs workflow p.2.node ≤ 1) :
    ∃ children, ChildrenInOrder ctx workflow nodeName outputs runIndex s children := by
  have hlegacy := isLegacyExecutionOrder_v1 hv1
  have hall := known_of_scheduled hv1 hscheduled
  set sorted := ((outgoing workflow nodeName).filter
    (outputHasItems outputs)).insertionSort fun a b =>
      before (positionOf workflow a.2.node) (positionOf workflow b.2.node)
    with hsorted
  have hperm := List.perm_insertionSort (fun a b =>
      before (positionOf workflow a.2.node) (positionOf workflow b.2.node))
    ((outgoing workflow nodeName).filter (outputHasItems outputs))
  have hstack : (addChildren workflow nodeName outputs runIndex s).1
      = { s with
          nodeExecutionStack :=
            sorted.reverse.map (childEntry workflow nodeName outputs runIndex)
              ++ s.nodeExecutionStack } := by
    have hdirect : ∀ d ∈ sorted.map (deliveryTo nodeName outputs runIndex),
        numberOfInputs workflow d.connectionData.node ≤ 1 := by
      intro d hd
      obtain ⟨p, hp, rfl⟩ := List.mem_map.mp hd
      obtain ⟨hmem, hitems⟩ := List.mem_filter.mp (hperm.mem_iff.mp hp)
      exact hinputs p hmem hitems
    rw [addChildren]
    simp only [hall, lt_irrefl, if_false, hlegacy, Bool.false_eq_true,
      Option.isSome_none, goesTo_v1 hv1]
    rw [addAll_direct hv1 hdirect, List.map_map, List.map_reverse]
    rfl
  refine ⟨sorted.reverse, (List.reverse_perm _).trans hperm, ?_, hstack, ?_⟩
  · have htotal : Std.Total fun a b : Nat × IConnection =>
        before (positionOf workflow a.2.node) (positionOf workflow b.2.node) :=
      ⟨fun a b => before_total _ _⟩
    have htrans : IsTrans (Nat × IConnection) fun a b =>
        before (positionOf workflow a.2.node) (positionOf workflow b.2.node) :=
      ⟨fun a b c => before_trans⟩
    rw [List.map_reverse, List.pairwise_reverse, List.pairwise_map]
    exact (List.pairwise_insertionSort _ _).imp topLeft_of_before
  · intro upper child lower heq l hworkflow hstate path hrun
    have hover : Over ((child :: lower).map (childEntry workflow nodeName
        outputs runIndex) ++ s.nodeExecutionStack) l := by
      refine ⟨hworkflow ▸ hv1, upper.map (childEntry workflow nodeName outputs runIndex), ?_, ?_⟩
      · rw [hstate, hstack, heq, List.map_append, List.append_assoc]
      · intro _ x hx
        obtain ⟨p, -, rfl⟩ := List.mem_map.mp hx
        exact has_mainOnly _
    exact (over_run (List.cons_ne_nil _ _) hover hrun).imp_left
      (·.mono fun _ h => h.stack.imp fun _ habove => habove.1)

end

/-! ## A node that waits comes later -/

/-- The nodes whose entries are taken along a path. -/
def takenNodes : MainLoop P V → List (Event V × MainLoop P V) → List String
  | _, [] => []
  | l, (.take, l') :: rest =>
    (l.state.nodeExecutionStack.head?.bind (·.node)).toList.map (·.name) ++ takenNodes l' rest
  | _, (_, l') :: rest => takenNodes l' rest

/-- The node is the child or below it. -/
def InBranch (workflow : Workflow P) (child nodeName : String) : Prop :=
  nodeName = child ∨ child ∈ getParentNodes workflow nodeName

instance (workflow : Workflow P) (child nodeName : String) :
    Decidable (InBranch workflow child nodeName) :=
  inferInstanceAs (Decidable (_ ∨ _))

/-- Once the lower child is taken, no node of the branch of the upper child
    alone is. -/
def BranchFirst (workflow : Workflow P) (upper lower : String) (taken : List String) : Prop :=
  ∀ earlier later, taken = earlier ++ lower :: later →
    ∀ nodeName ∈ later, InBranch workflow upper nodeName → InBranch workflow lower nodeName

section

open N8nPartialExecution

/-- Of the children of the first node the upper one is connected to both
    inputs of a merge node. -/
def switchWorkflow : Workflow Unit :=
  let node (name : String) (position : Int × Int) : INode Unit :=
    { plainNode name with position }
  .new [node "Split" (0, 0), node "Switch" (1, 0), node "Lower" (1, 1), node "Merge" (2, 0)]
    ((OrderedMap.empty.set "Split" (OrderedMap.empty.set .main
        [some [⟨"Lower", .main, 0⟩, ⟨"Switch", .main, 0⟩]])).set "Switch"
      (OrderedMap.empty.set .main
        [some [⟨"Merge", .main, 0⟩], some [⟨"Merge", .main, 1⟩]])) (some .v1)

/-- Nothing has run yet. -/
def noRuns : IRunExecutionData Unit Unit :=
  { runData := .empty, nodeExecutionStack := [], waitingExecution := .empty }

/-- The upper child comes first, although it is connected second. -/
theorem branches_in_order_switch :
    ∃ children, ChildrenInOrder mergeContext switchWorkflow "Split" oneItem 0 noRuns children :=
  branches_in_order rfl rfl (by decide)

/-- The first node is on the stack. -/
def splitOnStack : MainLoop Unit Unit :=
  .start switchWorkflow { noRuns with
    nodeExecutionStack :=
      [{ itemFor "Split" with node := switchWorkflow.nodes.get? "Split" }] }

/-- The switch has an item for the first input of the merge node alone. -/
def switchPath : List (Event Unit × MainLoop Unit Unit) :=
  pathOf (next mergeContext) splitOnStack
    [.take, .runTry (.data (some oneItem)) 0 false, .finish,
      .take, .runTry (.data (some (oneItem ++ [.value []]))) 0 false, .finish,
      .take, .runTry (.data (some oneItem)) 0 false, .finish, .take]

theorem isRun_switchPath : IsRun (Step mergeContext) splitOnStack switchPath :=
  ⟨⟨⟨rfl, rfl, List.cons_ne_nil _ _⟩, rfl⟩, ⟨⟨rfl, _, rfl, Nat.one_pos⟩, rfl⟩, ⟨⟨rfl, rfl⟩, rfl⟩,
    ⟨⟨rfl, rfl, List.cons_ne_nil _ _⟩, rfl⟩, ⟨⟨rfl, _, rfl, Nat.one_pos⟩, rfl⟩, ⟨⟨rfl, rfl⟩, rfl⟩,
    ⟨⟨rfl, rfl, List.cons_ne_nil _ _⟩, rfl⟩, ⟨⟨rfl, _, rfl, Nat.one_pos⟩, rfl⟩, ⟨⟨rfl, rfl⟩, rfl⟩,
    ⟨⟨rfl, rfl, List.cons_ne_nil _ _⟩, rfl⟩, trivial⟩

/-- **A MERGE NODE OF THE UPPER BRANCH RUNS LAST**: it waits for its second
    input until the stack is empty. -/
theorem not_branchFirst_switch :
    IsRun (Step mergeContext) splitOnStack switchPath
      ∧ takenNodes splitOnStack switchPath = ["Split", "Switch", "Lower", "Merge"]
      ∧ ¬ BranchFirst switchWorkflow "Switch" "Lower" (takenNodes splitOnStack switchPath) := by
  refine ⟨isRun_switchPath, rfl, fun hfirst => ?_⟩
  have hmerge := hfirst ["Split", "Switch"] ["Merge"] rfl "Merge"
    (List.mem_singleton.mpr rfl) (by decide)
  exact absurd hmerge (by decide)

end

end N8nBranchOrder
