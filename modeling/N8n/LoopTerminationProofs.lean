import N8n.DirectedPathsProofs
import N8n.MainLoopProofs

/-! # The main loop ends — every iteration uses up a path

    An entry weighs as many paths as start at its node, wherever it is: on
    the stack, in the waiting table, or in hand.  Running it uses up the
    empty path, and each of its connections gets at most one entry for the
    paths that are left, or lets one that waits become more complete.  So
    the weight of all entries goes down with every iteration
    (`weigh_take`), and never up (`weigh_next`).

    This is the v1 order, where nothing but a delivery starts a node. -/

namespace N8nLoopTermination

open N8nRun N8nOrderedMap N8nWorkflow N8nWorkflowExecute N8nEngineRequest
open N8nDirectedPaths N8nMainLoop N8nExcept

variable {P V : Type}

/-! ## Weights -/

/-- The node a connection leads to. -/
def leadsTo (p : Nat × IConnection) : String := p.2.node

/-- No node is connected to itself along main connections. -/
def MainAcyclic (workflow : Workflow P) : Prop := Acyclic (outgoing workflow) leadsTo

/-- The number of directed paths that start at a node. -/
def pathsFrom (workflow : Workflow P) (nodeName : String) : Nat :=
  count (outgoing workflow) leadsTo workflow.connectionsBySourceNode.keys nodeName

/-- The paths of a node without the empty one. -/
def pathsAfter (workflow : Workflow P) (nodeName : String) : Nat :=
  ((outgoing workflow nodeName).map fun p =>
    pathsFrom workflow (leadsTo p)).sum

/-- An entry without a node counts as one path. -/
def weighEntry (workflow : Workflow P) (executionData : IExecuteData P V) : Nat :=
  match executionData.node with
  | none => 1
  | some node => pathsFrom workflow node.name

/-- The paths from the nodes of the entries on the stack and in the waiting
    table. -/
def weigh (workflow : Workflow P) (s : IRunExecutionData P V) : Nat :=
  (s.nodeExecutionStack.map (weighEntry workflow)).sum
    + weighWaiting (pathsFrom workflow) s.waitingExecution

def weighPhase (workflow : Workflow P) : Phase P V → Nat
  | .running r => pathsAfter workflow r.node.name
  | .head | .promoting => 0

/-- What the loop still has to do. -/
def weighLoop (l : MainLoop P V) : Nat :=
  match l.ended with
  | some _ => 0
  | none => weigh l.workflow l.state + weighPhase l.workflow l.phase

/-- How many steps the loop can take before the next iteration; a node is
    tried five times at most. -/
def phaseSteps : Phase P V → Nat
  | .running r => 4 + (5 - r.tryIndex)
  | .promoting => 2
  | .head => 1

/-- The workflow is in the v1 order, a node is stored under its name, and no
    node is connected to itself. -/
structure Plain (workflow : Workflow P) : Prop where
  order : workflow.executionOrder = some .v1
  named : ∀ p ∈ workflow.nodes.entries, p.2.name = p.1
  acyclic : MainAcyclic workflow

/-- All entries on the stack have main data. -/
def HaveMain (s : IRunExecutionData P V) : Prop :=
  ∀ x ∈ s.nodeExecutionStack, x.data.has .main = true

section

variable {workflow : Workflow P}

theorem mem_keys_of_outgoing {nodeName : String} (h : outgoing workflow nodeName ≠ []) :
    nodeName ∈ workflow.connectionsBySourceNode.keys := by
  rcases hget : workflow.connectionsBySourceNode.get? nodeName with _ | byType
  · refine absurd ?_ h
    rw [outgoing, hget]
    rfl
  · exact OrderedMap.mem_keys_of_get? hget

theorem pathsFrom_pos (nodeName : String) : 0 < pathsFrom workflow nodeName := count_pos _

theorem pathsFrom_eq (h : MainAcyclic workflow) (nodeName : String) :
    pathsFrom workflow nodeName = 1 + pathsAfter workflow nodeName :=
  count_eq h (fun _ hne => mem_keys_of_outgoing hne) nodeName

theorem weighEntry_pos (workflow : Workflow P) (x : IExecuteData P V) :
    0 < weighEntry workflow x := by
  rw [weighEntry]
  split
  · exact Nat.one_pos
  · exact pathsFrom_pos _

theorem weighEntry_le (h : Plain workflow) {nodeName : String}
    {x : IExecuteData P V} (hx : x.node = workflow.nodes.get? nodeName) :
    weighEntry workflow x ≤ pathsFrom workflow nodeName := by
  rw [weighEntry, hx]
  rcases hnode : workflow.nodes.get? nodeName with _ | node
  · exact pathsFrom_pos nodeName
  · have hname : node.name = nodeName := h.named _ (mem_of_findKey hnode)
    dsimp only
    rw [hname]

end

/-! ## Deliveries -/

section

variable {workflow : Workflow P}

section

variable (h : workflow.executionOrder = some .v1) (runData : IRunData V) (d : Delivery V)
  (stack : List (IExecuteData P V)) (outputNodes : List String)
include h

theorem startInput_v1 (inputNode : String) (x : IExecuteData P V) :
    startInput workflow runData d stack outputNodes inputNode ≠ .ok (some x) := by
  intro hstart
  rw [startInput] at hstart
  have hv1 := isLegacyExecutionOrder_v1 h
  by_cases hparent : inputNode = d.parentNodeName
  · rw [if_pos hparent] at hstart
    cases hstart
  · rw [if_neg hparent] at hstart
    obtain ⟨stackNodes, -, hstart⟩ := bind_eq_ok.mp hstart
    obtain ⟨left, hleft, hstart⟩ := bind_eq_ok.mp hstart
    have hall : left = true := by
      rw [leftAlone] at hleft
      simp only [hv1, Bool.not_false, Bool.or_true] at hleft
      split at hleft
      · obtain ⟨inputs, -, hleft⟩ := bind_eq_ok.mp hleft
        obtain ⟨empty, -, hleft⟩ := bind_eq_ok.mp hleft
        split at hleft <;> cases hleft <;> rfl
      · cases hleft
        rfl
    rw [hall] at hstart
    cases hstart

theorem startInputs_v1 (inputNodes : List String) :
    (startInputs workflow runData d stack outputNodes inputNodes []).1 = [] := by
  induction inputNodes with
  | nil => rfl
  | cons inputNode rest ih =>
    rw [startInputs]
    rcases hstart : startInput workflow runData d
        (([] : List (IExecuteData P V)).foldl (enqueue workflow) stack)
        outputNodes inputNode with e | _ | x
    · rfl
    · exact ih
    · exact absurd hstart (startInput_v1 h _ _ _ _ _ _)

end

theorem startsWith_v1 (h : workflow.executionOrder = some .v1)
    (s : IRunExecutionData P V) (d : Delivery V) :
    (startsWith workflow s d).1 = [] := by
  rw [startsWith]
  split
  · rfl
  · rw [forcedStarts]
    split
    · rfl
    · exact startInputs_v1 h ..

/-- What is enqueued and what waits, taken together. -/
def weighAdded (workflow : Workflow P) (added : Added P V) : Nat :=
  (added.enqueued.map (weighEntry workflow)).sum
    + weighWaiting (pathsFrom workflow) added.waitingExecution

/-- The weight of a delivery is at most the weight of its node, and what it
    enqueues has main data. -/
structure Delivered (workflow : Workflow P) (s : IRunExecutionData P V)
    (nodeName : String) (added : Added P V) : Prop where
  weight : added.error = none → weighAdded workflow added
    ≤ weighWaiting (pathsFrom workflow) s.waitingExecution
      + pathsFrom workflow nodeName
  main : ∀ x ∈ added.enqueued, x.data.has .main = true

theorem has_mainOnly {α : Type} (array : List (Slot α)) : (mainOnly array).has .main = true := by
  rw [OrderedMap.has, get?_mainOnly]
  rfl

theorem main_of_receive {entry entry' : WaitingEntry V} {d : Delivery V}
    (h : entry.receive d = (entry', none)) :
    entry'.data.has .main = true := by
  rw [WaitingEntry.receive] at h
  rcases hmain : entry.data.get? .main with _ | main
  · rw [hmain] at h
    cases h
  · rcases hsource : entry.source.get? .main with _ | source
    · simp only [hmain, hsource] at h
      cases h
    · simp only [hmain, hsource] at h
      cases h
      rw [OrderedMap.has, OrderedMap.get?_set, if_pos rfl]
      rfl

theorem main_of_added (hv1 : workflow.executionOrder = some .v1)
    (s : IRunExecutionData P V) (d : Delivery V) :
    ∀ x ∈ (addNodeToBeExecuted workflow s d).enqueued, x.data.has .main = true := by
  rw [addNodeToBeExecuted]
  split
  · rw [addToWaiting]
    rcases waitingTarget (numberOfInputs workflow d.connectionData.node)
        d.connectionData.index (waitingNode s.waitingExecution d.connectionData.node)
      with e | ⟨key, entry⟩
    · exact fun x hx => absurd hx List.not_mem_nil
    · rcases hreceive : entry.receive d with ⟨entry', _ | e⟩
      · simp only [hreceive, settleWaiting]
        split
        · intro x hx
          rw [List.mem_singleton.mp hx]
          exact main_of_receive hreceive
        · have hstarts := startsWith_v1 hv1 s d
          rcases hstart : startsWith workflow s d with ⟨enqueued, _ | e⟩ <;>
            rw [hstart] at hstarts <;> cases hstarts <;>
              exact fun x hx => absurd hx List.not_mem_nil
      · simp only [hreceive]
        exact fun x hx => absurd hx List.not_mem_nil
  · intro x hx
    rw [List.mem_singleton.mp hx]
    exact has_mainOnly _

section

variable (hw : Plain workflow) (s : IRunExecutionData P V) (d : Delivery V)
include hw

theorem weigh_settleWaiting (key : Nat) (entry : WaitingEntry V) (h : (settleWaiting workflow s d
      ((waitingNode s.waitingExecution d.connectionData.node).set key entry)
      key entry).error = none) :
    weighAdded workflow (settleWaiting workflow s d
        ((waitingNode s.waitingExecution d.connectionData.node).set key entry) key entry)
      ≤ weighWaiting (pathsFrom workflow) s.waitingExecution
        + pathsFrom workflow d.connectionData.node := by
  have hsplit := weighWaiting_split (pathsFrom workflow) s.waitingExecution d.connectionData.node
  rw [settleWaiting] at h ⊢
  by_cases hfound : entry.allDataFound = true
  · rw [if_pos hfound, OrderedMap.delete_set, weighAdded, weighWaiting_setWaiting, hsplit,
      List.map_singleton, List.sum_singleton]
    have hle : weighEntry workflow _ ≤ _ := weighEntry_le (x :=
      { node := workflow.nodes.get? d.connectionData.node
        data := entry.data
        source := some entry.source
        runIndex := none
        metadata := none }) hw rfl
    have hsize := Nat.mul_le_mul_right (pathsFrom workflow d.connectionData.node)
      (OrderedMap.size_delete_le (waitingNode s.waitingExecution d.connectionData.node) key)
    omega
  · rw [if_neg hfound] at h ⊢
    have hstarts := startsWith_v1 hw.order s d
    rcases hstart : startsWith workflow s d with ⟨enqueued, _ | e⟩
    · rw [hstart] at hstarts
      cases hstarts
      rw [weighAdded, weighWaiting_set, OrderedMap.set_set, hsplit]
      have hsize := Nat.mul_le_mul_right (pathsFrom workflow d.connectionData.node)
        (OrderedMap.size_set_le (waitingNode s.waitingExecution d.connectionData.node) key
          (entry.rewrite (numberOfInputs workflow d.connectionData.node) d))
      rw [Nat.add_mul, Nat.one_mul] at hsize
      rw [List.map_nil, List.sum_nil]
      omega
    · rw [hstart] at h
      cases h

/-- **A DELIVERY** weighs no more than the node it goes to. -/
theorem delivered_addNodeToBeExecuted :
    Delivered workflow s d.connectionData.node (addNodeToBeExecuted workflow s d) := by
  refine ⟨?_, main_of_added hw.order s d⟩
  rw [addNodeToBeExecuted]
  split
  · rw [addToWaiting]
    rcases waitingTarget (numberOfInputs workflow d.connectionData.node)
        d.connectionData.index (waitingNode s.waitingExecution d.connectionData.node)
      with e | ⟨key, entry⟩
    · exact fun herror => by cases herror
    · rcases hreceive : entry.receive d with ⟨entry', _ | e⟩
      · simp only [hreceive]
        exact weigh_settleWaiting hw s d key entry'
      · simp only [hreceive]
        exact fun herror => by cases herror
  · intro _
    rw [weighAdded, List.map_singleton, List.sum_singleton, Nat.add_comm]
    have hle := weighEntry_le hw (x := directEntry workflow d) rfl
    exact Nat.add_le_add_left hle _

end

theorem weigh_enqueued (workflow : Workflow P) (weight : IExecuteData P V → Nat)
    (enqueued stack : List (IExecuteData P V)) :
    ((enqueued.foldl (enqueue workflow) stack).map weight).sum
      = (enqueued.map weight).sum + (stack.map weight).sum := by
  induction enqueued generalizing stack with
  | nil => exact (Nat.zero_add _).symm
  | cons x rest ih =>
    rw [List.foldl_cons, ih, List.map_cons, List.sum_cons, enqueue]
    split
    · rw [List.map_cons, List.sum_cons]
      omega
    · rw [List.map_append, List.sum_append, List.map_singleton, List.sum_singleton]
      omega

theorem mem_enqueued {enqueued stack : List (IExecuteData P V)} {x : IExecuteData P V}
    (hx : x ∈ enqueued.foldl (enqueue workflow) stack) :
    x ∈ enqueued ∨ x ∈ stack := by
  induction enqueued generalizing stack with
  | nil => exact .inr hx
  | cons y rest ih =>
    rcases ih hx with hrest | hstack
    · exact .inl (List.mem_cons_of_mem _ hrest)
    · rw [enqueue] at hstack
      split at hstack
      · rcases List.mem_cons.mp hstack with rfl | hstack
        · exact .inl (List.mem_cons_self ..)
        · exact .inr hstack
      · rcases List.mem_append.mp hstack with hstack | hlast
        · exact .inr hstack
        · rw [List.mem_singleton.mp hlast]
          exact .inl (List.mem_cons_self ..)

variable {s : IRunExecutionData P V}

theorem haveMain_afterAdding (hw : Plain workflow) (h : HaveMain s) (d : Delivery V) :
    HaveMain (s.afterAdding workflow (addNodeToBeExecuted workflow s d)) := by
  intro x hx
  rcases mem_enqueued hx with hnew | hold
  · exact (delivered_addNodeToBeExecuted hw s d).main x hnew
  · exact h x hold

theorem weigh_afterAdding (hw : Plain workflow) (s : IRunExecutionData P V)
    (d : Delivery V) (herror : (addNodeToBeExecuted workflow s d).error = none) :
    weigh workflow (s.afterAdding workflow (addNodeToBeExecuted workflow s d))
      ≤ weigh workflow s + pathsFrom workflow d.connectionData.node := by
  have h := (delivered_addNodeToBeExecuted hw s d).weight herror
  have henqueued := weigh_enqueued workflow
    (weighEntry workflow) (addNodeToBeExecuted workflow s d).enqueued s.nodeExecutionStack
  rw [weigh, weigh, IRunExecutionData.afterAdding]
  dsimp only
  rw [weighAdded] at h
  omega

/-- **ALL DELIVERIES** of an output together. -/
theorem weigh_addAll (hw : Plain workflow) {deliveries : List (Delivery V)}
    {s' : IRunExecutionData P V}
    (h : addAll workflow deliveries s = (s', none)) (hmain : HaveMain s) :
    HaveMain s' ∧ weigh workflow s' ≤ weigh workflow s
      + (deliveries.map fun d =>
          pathsFrom workflow d.connectionData.node).sum := by
  induction deliveries generalizing s with
  | nil =>
    cases h
    exact ⟨hmain, Nat.le_refl _⟩
  | cons d rest ih =>
    rw [addAll] at h
    rcases herror : (addNodeToBeExecuted workflow s d).error with _ | e
    · simp only [herror] at h
      obtain ⟨hmain', hle⟩ := ih h (haveMain_afterAdding hw hmain d)
      have hone := weigh_afterAdding hw s d herror
      rw [List.map_cons, List.sum_cons]
      exact ⟨hmain', by omega⟩
    · simp only [herror] at h
      cases h

theorem sum_map_le_of_sublist {α : Type} {l l' : List α} (f : α → Nat)
    (h : l.Sublist l') : (l.map f).sum ≤ (l'.map f).sum := by
  induction h with
  | slnil => exact Nat.le_refl _
  | cons a _ ih =>
    rw [List.map_cons, List.sum_cons]
    exact Nat.le_add_left_of_le ih
  | cons_cons a _ ih =>
    rw [List.map_cons, List.sum_cons, List.map_cons, List.sum_cons]
    exact Nat.add_le_add_left ih _

theorem weigh_addChildren (hw : Plain workflow) {nodeName : String}
    {outputs : Outputs V} {runIndex : Nat} {s' : IRunExecutionData P V}
    (h : addChildren workflow nodeName outputs runIndex s = (s', none))
    (hmain : HaveMain s) :
    HaveMain s' ∧ weigh workflow s' ≤ weigh workflow s + pathsAfter workflow nodeName := by
  have hv1 := isLegacyExecutionOrder_v1 hw.order
  rw [addChildren] at h
  simp only [hv1, Bool.false_eq_true, if_false] at h
  split at h
  · rw [Option.isSome_some, if_pos rfl] at h
    cases h
  · rw [Option.isSome_none, if_neg Bool.false_ne_true] at h
    obtain ⟨hmain', hle⟩ := weigh_addAll hw h hmain
    refine ⟨hmain', Nat.le_trans hle (Nat.add_le_add_left ?_ _)⟩
    rw [List.map_map, ((List.perm_insertionSort _ _).map _).sum_nat, pathsAfter]
    exact sum_map_le_of_sublist _ (List.filter_sublist.trans (List.takeWhile_sublist _))

end

/-! ## One step -/

section

variable {ctx : Context P} {workflow : Workflow P}

theorem has_updatePairedItems (x : IExecuteData P V) (type : NodeConnectionType) :
    (updatePairedItems x).has type = x.data.has type := by
  rw [updatePairedItems, OrderedMap.has, OrderedMap.has, OrderedMap.get?_map, Option.isSome_map]

theorem ensureInputs_v1 (hv1 : workflow.executionOrder = some .v1)
    {nodeName : String} {data : ITaskDataConnections V}
    (hmain : data.has .main = true) (indices : List Nat) :
    ensureInputs workflow nodeName data indices ≠ .ok false := by
  have hlegacy := isLegacyExecutionOrder_v1 hv1
  induction indices with
  | nil => exact fun h => by cases h
  | cons connectionIndex rest ih =>
    intro h
    rw [ensureInputs] at h
    obtain ⟨⟨highest, checked⟩, -, h⟩ := bind_eq_ok.mp h
    dsimp only at h
    split at h
    · cases h
    · obtain ⟨main, hget⟩ := Option.isSome_iff_exists.mp hmain
      simp only [hget, hlegacy, Bool.false_and, Bool.false_eq_true, if_false] at h
      exact ih h

/-- Looking through the waiting nodes moves entries to the stack or takes
    them out. -/
theorem weigh_promote (hw : Plain workflow) {fuel : Nat} {s s' : IRunExecutionData P V}
    (h : promote ctx workflow fuel s = (s', none)) (hmain : HaveMain s) :
    HaveMain s' ∧ weigh workflow s' ≤ weigh workflow s := by
  induction fuel generalizing s with
  | zero =>
    cases h
    exact ⟨hmain, Nat.le_refl _⟩
  | succ fuel ih =>
    rw [promote] at h
    rcases hlook : lookThrough ctx workflow s.waitingExecution
        s.waitingExecution.keys with _ | ⟨nodeName, look⟩
    · rw [hlook] at h
      cases h
      exact ⟨hmain, Nat.le_refl _⟩
    · obtain ⟨-, hne, hat⟩ := lookThrough_some hlook
      rw [hlook] at h
      rcases look with _ | ⟨key, x⟩ | e
      · exact absurd rfl hne
      · obtain ⟨node, entry, main, -, hmem, hx⟩ := lookAt_take hat
        have htaken := weighWaiting_taken (pathsFrom workflow) hmem
        rcases x with _ | x
        · obtain ⟨hmain', hle⟩ := ih h hmain
          refine ⟨hmain', Nat.le_trans hle ?_⟩
          rw [weigh, weigh]
          exact Nat.add_le_add_left (Nat.le.intro htaken) _
        · cases h
          have hpromoted := hx x rfl
          have hentry : weighEntry workflow x ≤ pathsFrom workflow nodeName := by
            rw [hpromoted]
            exact weighEntry_le hw rfl
          refine ⟨?_, ?_⟩
          · intro y hy
            rcases List.mem_append.mp hy with hold | hnew
            · exact hmain y hold
            · rw [List.mem_singleton.mp hnew, hpromoted]
              exact has_mainOnly _
          · rw [weigh, weigh]
            dsimp only
            rw [List.map_append, List.sum_append, List.map_singleton, List.sum_singleton]
            omega
      · cases h

/-- The loop is still that of the workflow, all its entries have main data
    while it runs, it weighs no more than this, and the next iteration is no
    more steps away. -/
structure Fits (workflow : Workflow P) (bound steps : Nat)
    (l : MainLoop P V) : Prop where
  same : l.workflow = workflow
  main : l.ended = none → HaveMain l.state
  weight : weighLoop l ≤ bound
  phase : l.ended = none → phaseSteps l.phase ≤ steps

variable {l : MainLoop P V} {bound steps : Nat}

section

variable (hsame : l.workflow = workflow)
include hsame

theorem fits_of_ended (hended : l.ended ≠ none) :
    Fits workflow bound steps l where
  same := hsame
  main := fun h => absurd h hended
  phase := fun h => absurd h hended
  weight := by
    obtain ⟨ending, hended⟩ := Option.ne_none_iff_exists'.mp hended
    rw [weighLoop, hended]
    exact Nat.zero_le _

theorem fits_throw (error : EngineError) : Fits workflow bound steps (l.throw error) :=
  fits_of_ended hsame (Option.some_ne_none _)

theorem fits_of_running (hended : l.ended = none) (hmain : HaveMain l.state)
    (hweight : weigh workflow l.state + weighPhase workflow l.phase
      ≤ bound) (hphase : phaseSteps l.phase ≤ steps) :
    Fits workflow bound steps l where
  same := hsame
  main := fun _ => hmain
  phase := fun _ => hphase
  weight := by
    rw [weighLoop, hended, hsame]
    exact hweight

end

theorem fits_settleNode (hw : Plain l.workflow) (hended : l.ended = none)
    (hmain : HaveMain l.state) (r : Running P V) (nodeSuccessData : Option (Outputs V)) :
    Fits l.workflow (weigh l.workflow l.state + pathsAfter l.workflow r.node.name) 2
      (settleNode ctx l r nodeSuccessData) := by
  unfold settleNode
  split
  · exact fits_throw rfl _
  · rename_i outputs
    split
    · exact fits_throw rfl _
    · dsimp only
      split
      · exact fits_of_ended rfl (Option.some_ne_none _)
      · split
        · exact fits_of_running rfl hended hmain (Nat.le_add_right _ _) (Nat.le_succ 1)
        · split
          · refine fits_throw ?_ _
            rfl
          · rename_i state hadd
            obtain ⟨hmain', hle⟩ := weigh_addChildren hw hadd hmain
            exact fits_of_running rfl hended hmain' hle (Nat.le_refl 2)

theorem fits_failTry (hended : l.ended = none) (hmain : HaveMain l.state) (r : Running P V)
    (message : String) (nodeSuccessData : Option (Outputs V)) :
    Fits l.workflow (weigh l.workflow l.state + pathsAfter l.workflow r.node.name)
      (4 + (5 - (r.tryIndex + 1))) (failTry l r message nodeSuccessData) :=
  fits_of_running rfl hended hmain (Nat.le_refl _) (Nat.le_refl _)

theorem Fits.mono {steps' : Nat} (h : Fits workflow bound steps l) (hle : steps ≤ steps') :
    Fits workflow bound steps' l :=
  ⟨h.same, h.main, h.weight, fun hended => Nat.le_trans (h.phase hended) hle⟩

/-- **A TRY** weighs no more than the connections of the node. -/
theorem fits_tryNode (ctx : Context P) (hw : Plain l.workflow)
    (hended : l.ended = none) (hmain : HaveMain l.state) (r : Running P V)
    {t : Try V} (ht : ∀ request, t ≠ .request request) :
    Fits l.workflow (weigh l.workflow l.state + pathsAfter l.workflow r.node.name)
      (4 + (5 - (r.tryIndex + 1))) (tryNode ctx l r t) := by
  cases t with
  | request request => exact absurd rfl (ht request)
  | data nodeSuccessData =>
    rw [tryNode]
    split
    · exact fits_failTry hended hmain r _ _
    · split
      · split
        · exact fits_throw rfl _
        · exact fits_of_running rfl hended hmain (Nat.le_add_right _ _)
            (Nat.le_add_right_of_le (show 1 ≤ 4 by omega))
      · exact (fits_settleNode hw hended hmain r _).mono (Nat.le_add_right_of_le (by decide))
  | failed message nodeSuccessData => exact fits_failTry hended hmain r _ _

section

variable (hw : Plain l.workflow) (hended : l.ended = none) (hmain : HaveMain l.state)
include hw hended hmain

theorem fits_giveUp (r : Running P V) (message : String) :
    Fits l.workflow (weigh l.workflow l.state + pathsAfter l.workflow r.node.name) 2
      (giveUp ctx l r message) := by
  rw [giveUp]
  split
  · exact fits_settleNode hw hended hmain r _
  · exact fits_of_ended rfl (Option.some_ne_none _)

theorem fits_finish : Fits l.workflow (weigh l.workflow l.state) 1 (finish ctx l) := by
  rw [finish]
  split
  · split
    · rename_i state hpromote
      obtain ⟨hmain', hle⟩ := weigh_promote hw hpromote hmain
      exact fits_of_running rfl hended hmain' hle (Nat.le_refl _)
    · refine fits_throw ?_ _
      rfl
  · exact fits_of_running rfl hended hmain (Nat.le_refl _) (Nat.le_refl _)

end

/-- **AN ITERATION BEGINS**: the entry in hand weighs one path less than it
    did on the stack. -/
theorem fits_take (ctx : Context P) (hw : Plain l.workflow)
    (hended : l.ended = none) (hphase : l.phase = .head) (hmain : HaveMain l.state)
    (hstack : l.state.nodeExecutionStack ≠ []) :
    ∃ bound, bound + 1 = weigh l.workflow l.state ∧ Fits l.workflow bound 9 (take ctx l) := by
  rcases hentries : l.state.nodeExecutionStack with _ | ⟨x, rest⟩
  · exact absurd hentries hstack
  · have hpos := weighEntry_pos l.workflow x
    have hsplit : weigh l.workflow l.state = weighEntry l.workflow x
        + weigh l.workflow (l.setStack rest).state := by
      rw [weigh, hentries, List.map_cons, List.sum_cons, Nat.add_assoc]
      rfl
    have hrest : HaveMain (l.setStack rest).state := fun y hy =>
      hmain y (hentries ▸ List.mem_cons_of_mem x hy)
    refine ⟨weigh l.workflow l.state - 1, by omega, ?_⟩
    rw [take]
    simp only [hentries]
    rcases hnode : x.node with _ | node
    · refine fits_throw ?_ _
      rfl
    · have hweight : weighEntry l.workflow x
          = 1 + pathsAfter l.workflow node.name := by
        rw [weighEntry, hnode]
        exact pathsFrom_eq hw.acyclic node.name
      have hhas : (updatePairedItems x).has .main = true := by
        rw [has_updatePairedItems]
        exact hmain x (hentries ▸ List.mem_cons_self ..)
      dsimp only
      rw [takeEntry]
      split
      · refine fits_throw ?_ _
        rfl
      · split
        · refine fits_of_running rfl hended hrest ?_ ?_
          · show weigh l.workflow (l.setStack rest).state
              + weighPhase l.workflow l.phase ≤ _
            rw [hphase, weighPhase]
            omega
          · show phaseSteps l.phase ≤ 9
            rw [hphase, phaseSteps]
            omega
        · split
          · refine fits_throw ?_ _
            rfl
          · rename_i hensure
            exact absurd hensure (ensureInputs_v1 hw.order hhas _)
          · refine fits_of_running rfl hended hrest ?_ (Nat.le_refl _)
            show weigh l.workflow (l.setStack rest).state + pathsAfter l.workflow node.name ≤ _
            omega

/-- The node does not ask for its tools. -/
def NoRequest : Event V → Prop
  | .runTry (.request _) _ _ => False
  | _ => True

/-- Whether an iteration of the loop begins. -/
def isTake : Event V → Bool
  | .take => true
  | _ => false

theorem tries_le (settings : NodeSettings) : settings.tries ≤ 5 := by
  rw [NodeSettings.tries]
  split
  · exact Nat.min_le_left ..
  · omega

theorem next_runTry {r : Running P V} (hphase : l.phase = .running r)
    (t : Try V) (again : Nat) (waitTill : Bool) :
    next ctx l (.runTry t again waitTill)
      = tryNode ctx { l with waitTill := l.waitTill || waitTill }
          { r with tryIndex := r.tryIndex + again } t := by
  rw [next, hphase]

/-- **EVERY STEP**: an iteration uses up a path, and nothing adds one. -/
theorem weigh_next {l' : MainLoop P V} {e : Event V} (hw : Plain l.workflow)
    (hmain : l.ended = none → HaveMain l.state) (hstep : Step ctx l e l') (he : NoRequest e) :
    l.ended = none ∧ ∃ bound steps, Fits l.workflow bound steps l'
      ∧ bound + (if isTake e then 1 else 0) ≤ weighLoop l
      ∧ (l'.ended = none → 9 * bound + steps < 9 * weighLoop l + phaseSteps l.phase) := by
  obtain ⟨henabled, rfl⟩ := hstep
  cases e with
  | take =>
    obtain ⟨hended, hphase, hstack⟩ := henabled
    obtain ⟨bound, hbound, hfits⟩ := fits_take ctx hw hended hphase (hmain hended) hstack
    have hweight : weighLoop l = weigh l.workflow l.state := by
      rw [weighLoop, hended, hphase]
      rfl
    refine ⟨hended, bound, 9, hfits, ?_, fun _ => ?_⟩
    · rw [hweight, ← hbound]
      exact Nat.le_refl _
    · rw [hweight, hphase, phaseSteps]
      omega
  | runTry t again waitTill =>
    obtain ⟨hended, r, hphase, htry⟩ := henabled
    have ht : ∀ request, t ≠ .request request := by
      rintro request rfl
      exact he
    have hweight : weighLoop l = weigh l.workflow l.state
        + pathsAfter l.workflow r.node.name := by
      rw [weighLoop, hended, hphase]
      rfl
    have hless := tries_le (ctx.settings r.node)
    have hfits := fits_tryNode ctx (l := { l with waitTill := l.waitTill || waitTill }) hw hended
      (hmain hended) { r with tryIndex := r.tryIndex + again } ht
    rw [next_runTry hphase]
    refine ⟨hended, _, _, hfits, ?_, fun _ => ?_⟩
    · rw [hweight]
      exact Nat.le_refl _
    · rw [hweight, hphase, phaseSteps]
      dsimp only
      omega
  | giveUp =>
    obtain ⟨hended, r, hphase, -⟩ := henabled
    have hweight : weighLoop l = weigh l.workflow l.state
        + pathsAfter l.workflow r.node.name := by
      rw [weighLoop, hended, hphase]
      rfl
    rw [next, hphase]
    refine ⟨hended, _, _, fits_giveUp hw hended (hmain hended) r _, ?_, fun _ => ?_⟩
    · rw [hweight]
      exact Nat.le_refl _
    · rw [hweight, phaseSteps]
      omega
  | finish =>
    obtain ⟨hended, hphase⟩ := henabled
    have hweight : weighLoop l = weigh l.workflow l.state := by
      rw [weighLoop, hended, hphase]
      rfl
    refine ⟨hended, _, _, fits_finish hw hended (hmain hended), ?_, fun _ => ?_⟩
    · rw [hweight]
      exact Nat.le_refl _
    · rw [hweight, hphase, phaseSteps]
      omega
  | cancel =>
    obtain ⟨hended, -, -⟩ := henabled
    refine ⟨hended, 0, 0, fits_of_ended rfl (Option.some_ne_none _), Nat.zero_le _, fun h => ?_⟩
    exact absurd h (Option.some_ne_none _)

/-- What a run can still do from a state it comes by. -/
def stepsLeft (l : MainLoop P V) : Nat :=
  match l.ended with
  | some _ => 0
  | none => 9 * weighLoop l + phaseSteps l.phase

/-- **EVERY RUN** has no more iterations than paths, and comes to an end. -/
theorem run_le_weight (hw : Plain l.workflow) (hmain : l.ended = none → HaveMain l.state)
    {path : List (Event V × MainLoop P V)} (hrun : IsRun (Step ctx) l path)
    (hnone : ∀ p ∈ path, NoRequest p.1) :
    (path.countP fun p => isTake p.1) ≤ weighLoop l ∧ path.length ≤ stepsLeft l := by
  induction path generalizing l with
  | nil => exact ⟨Nat.zero_le _, Nat.zero_le _⟩
  | cons p rest ih =>
    obtain ⟨e, l'⟩ := p
    obtain ⟨hstep, hrest⟩ := hrun
    obtain ⟨he, hnone⟩ := List.forall_mem_cons.mp hnone
    obtain ⟨hended, bound, steps, hfits, hbound, hsteps⟩ := weigh_next hw hmain hstep he
    obtain ⟨hcount, hlength⟩ := ih (hfits.same ▸ hw) hfits.main hrest hnone
    have hweight := hfits.weight
    constructor
    · rw [List.countP_cons]
      dsimp only
      omega
    · have hleft : stepsLeft l' + 1 ≤ stepsLeft l := by
        rw [stepsLeft, stepsLeft, hended]
        rcases hended' : l'.ended with _ | ending
        · have hphase := hfits.phase hended'
          have := hsteps hended'
          dsimp only
          omega
        · cases hphase : l.phase <;> rw [phaseSteps] <;> dsimp only <;>
            omega
      rw [List.length_cons]
      omega

end

/-- **THE MAIN LOOP ENDS**: a run without requests has no more iterations
    than there are directed paths from the nodes of the entries it starts
    with, and no more than nine steps for each of them. -/
theorem iterations_le_paths (ctx : Context P) (nodes : List (INode P))
    (connections : IConnections) (hacyclic : MainAcyclic (.new nodes connections (some .v1)))
    (state : IRunExecutionData P V) (hmain : HaveMain state)
    {path : List (Event V × MainLoop P V)}
    (hrun : IsRun (Step ctx) (.start (.new nodes connections (some .v1)) state) path)
    (hnone : ∀ p ∈ path, NoRequest p.1) :
    (path.countP fun p => isTake p.1)
        ≤ weigh (.new nodes connections (some .v1)) state
      ∧ path.length ≤ 9 * weigh (.new nodes connections (some .v1)) state + 1 :=
  run_le_weight
    { order := rfl
      named := (Workflow.new_consistent nodes connections _).named
      acyclic := hacyclic } (fun _ => hmain) hrun hnone

section

open N8nPartialExecution

theorem mainAcyclic_intoMerge : MainAcyclic (intoMerge ["First", "Second"]) := by
  refine acyclic_of_rank (fun name => if name = "Merge" then 0 else 1) ?_
  intro name p hp
  have hkey := mem_keys_of_outgoing (List.ne_nil_of_mem hp)
  have hkeys : (intoMerge ["First", "Second"]).connectionsBySourceNode.keys
      = ["First", "Second"] := rfl
  rw [hkeys] at hkey
  rcases List.mem_cons.mp hkey with rfl | hkey
  · rw [List.mem_singleton.mp hp]
    decide
  · rw [List.mem_singleton.mp hkey] at hp ⊢
    rw [List.mem_singleton.mp hp]
    decide

/-- Two nodes before a merge node: at most four iterations. -/
theorem iterations_le_intoMerge : ((mergePath none).countP fun p => isTake p.1)
        ≤ weigh (intoMerge ["First", "Second"]) bothOnStack.state
      ∧ (mergePath none).length
        ≤ 9 * weigh (intoMerge ["First", "Second"]) bothOnStack.state + 1 := by
  refine iterations_le_paths mergeContext _ _ mainAcyclic_intoMerge
    bothOnStack.state ?_ (isRun_mergePath none) ?_
  · intro x hx
    rcases List.mem_cons.mp hx with rfl | hx
    · rfl
    · rw [List.mem_singleton.mp hx]
      rfl
  · intro p hp
    have hall : ∀ q ∈ mergePath none, NoRequest q.1 := by
      refine List.forall_mem_cons.mpr ⟨trivial, List.forall_mem_cons.mpr
        ⟨trivial, List.forall_mem_cons.mpr ⟨trivial,
          List.forall_mem_cons.mpr ⟨trivial, List.forall_mem_cons.mpr ⟨trivial, fun q hq => ?_⟩⟩⟩⟩⟩
      cases hq
    exact hall p hp

end

end N8nLoopTermination
