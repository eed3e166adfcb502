import N8n.DirectedPathsProofs
import N8n.PartialGraphProofs

/-! # The subgraph between trigger and destination

    `findSubgraph` goes backwards from the destination, branch by branch, and
    keeps a branch when it comes to the trigger, or when it closes a cycle.
    What it keeps should be the Main connections on a walk from the trigger
    to the destination.

    It keeps all of those.  But a branch that closes a cycle is kept before
    it is known whether the trigger leads to the cycle, so that the result
    is right exactly if the trigger leads to every cycle that the
    destination can be reached from (`keepsBetween_iff`). -/

namespace N8nFindSubgraph

open Relation N8nExcept N8nOrderedMap N8nDirectedPaths N8nDirectedGraph List
  N8nDepthFirst N8nPartialGraph

/-! ## The search -/

section

/-- `addNodes(connection.from, connection.to)`, then
    `addConnection(connection)`. -/
def addWithNodes (newGraph : DirectedGraph) (connection : GraphConnection) :
    Except GraphError DirectedGraph :=
  (newGraph.addNodes [connection.fromNode, connection.toNode]).addConnection (asInput connection)

variable (g : DirectedGraph)

def findSubgraphRecursive (destinationNode trigger : INode) : Nat → INode →
    DirectedGraph → List GraphConnection → Except GraphError DirectedGraph
  | 0, _, _, _ => .error .rangeError
  | fuel + 1, current, newGraph, currentBranch =>
    if current = trigger then
      currentBranch.foldlM addWithNodes (newGraph.addNode trigger)
    else do
      let parentConnections ← getDirectParentConnections g current
      let isCycleWithDestinationNode := current = destinationNode
        ∧ currentBranch.any (·.toNode = destinationNode)
      let isCycleWithCurrentNode := currentBranch.any (·.toNode = current)
      if parentConnections.length = 0 then return newGraph
      else if isCycleWithDestinationNode then return newGraph
      else if isCycleWithCurrentNode then
        currentBranch.foldlM addWithNodes newGraph
      else
        parentConnections.foldlM (fun newGraph parentConnection =>
          if parentConnection.type ≠ .main then .ok newGraph
          else findSubgraphRecursive destinationNode trigger fuel
            parentConnection.fromNode newGraph (currentBranch ++ [parentConnection])) newGraph

/-- The connections of other types that lead to the node, with what they
    come from. -/
def addParents (subgraph : DirectedGraph) (node : INode) :
    Except GraphError DirectedGraph := do
  let parentConnections ← getParentConnections g node
  parentConnections.foldlM (fun subgraph connection =>
    if connection.type = .main then .ok subgraph
    else addWithNodes subgraph connection) subgraph

def findSubgraph (destination trigger : INode) :
    Except GraphError DirectedGraph := do
  let subgraph ← findSubgraphRecursive g destination trigger (depth g) destination .empty []
  subgraph.getNodes.foldlM (addParents g) subgraph

end

/-! ## What the result should be -/

/-- Neither the trigger nor the destination. -/
def Inner (destination trigger node : INode) : Prop := node ≠ trigger ∧ node ≠ destination

section

variable (connections : List GraphConnection) (destination trigger : INode)

/-- The connection is on a walk of Main connections from the trigger to the
    destination that passes through them only at its ends. -/
def OnMainWalk (c : GraphConnection) : Prop :=
  OnPathBetween (mainOut connections) (·.toNode) (Inner destination trigger) trigger destination c

/-- A Main connection leads from the one node to the other. -/
def MainStep (a b : INode) : Prop := ∃ c ∈ mainOut connections a, c.toNode = b

/-- The result keeps exactly what lies between trigger and destination, and
    all of that is connected inside the result. -/
def KeepsBetween (result : Except GraphError DirectedGraph) : Prop :=
  ∃ subgraph, result = .ok subgraph
    ∧ (∀ c, (c ∈ subgraph.getConnections ∧ c.type = .main)
      ↔ OnMainWalk connections destination trigger c)
    ∧ ∀ c ∈ subgraph.getConnections, c.type = .main →
      ∀ node, (node = c.fromNode ∨ node = c.toNode) →
        ReflTransGen (MainStep subgraph.getConnections) trigger node
        ∧ ReflTransGen (MainStep subgraph.getConnections) node destination

/-- A Main connection to a node between the two. -/
abbrev StepInto : INode → INode → Prop :=
  Into (mainOut connections) (·.toNode) (Inner destination trigger)

/-- A Main connection from a node between the two. -/
abbrev StepOutOf : INode → INode → Prop :=
  OutOf (mainOut connections) (·.toNode) (Inner destination trigger)

/-- Every cycle between the two that leads to the destination can be got to
    from the trigger; and a trigger that is its own destination is on no
    cycle. -/
def CyclesReached : Prop :=
  if trigger = destination then
    ¬ TransGen (MainStep connections) trigger trigger
  else
    ∀ node, TransGen (StepInto connections destination trigger) node node →
      ReflTransGen (StepOutOf connections destination trigger) node destination →
      ReflTransGen (StepInto connections destination trigger) trigger node

end

/-! ## Parts of a graph -/

/-- A graph whose nodes and connections are among those of another. -/
structure IsPart (g : Graph) (h : DirectedGraph) : Prop where
  keyed : Keyed h
  own : OwnNodes h
  nodes : h.getNodes ⊆ g.nodes
  connections : h.getConnections ⊆ g.connections

section

variable {g : Graph} {h : DirectedGraph}

theorem isPart_empty : IsPart g .empty :=
  ⟨keyed_empty, (fun _ hc => by cases hc), (fun _ hn => by cases hn), (fun _ hc => by cases hc)⟩

theorem mem_getNodes_addNode (hkeyed : Keyed h) {node x : INode}
    (hx : x ∈ (h.addNode node).getNodes) : x ∈ h.getNodes ∨ x = node := by
  have hget := (hkeyed.addNode node).mem_getNodes.mp hx
  replace hget := (OrderedMap.get?_set ..).symm.trans hget
  split at hget
  · exact .inr (Option.some.inj hget).symm
  · exact .inl (hkeyed.mem_getNodes.mpr hget)

theorem IsPart.owns_addNode (hpart : IsPart g h) {node x : INode}
    (hnode : node ∈ g.nodes) (hx : x = node ∨ h.owns x = true) :
    (h.addNode node).owns x = true := by
  refine decide_eq_true ?_
  show (h.nodes.set node.name node).get? x.name = some x
  rw [OrderedMap.get?_set]
  rcases hx with rfl | hx
  · rw [if_pos rfl]
  · have hget : h.nodes.get? x.name = some x := of_decide_eq_true hx
    have hmem := hpart.nodes (hpart.keyed.mem_getNodes.mpr hget)
    split
    · next hname => exact congrArg some (g.keyed.eq_of_name node hnode x hmem hname)
    · exact hget

theorem IsPart.addNode (hpart : IsPart g h) {node : INode}
    (hnode : node ∈ g.nodes) : IsPart g (h.addNode node) := by
  refine ⟨hpart.keyed.addNode node, fun c hc => ?_, fun x hx => ?_, hpart.connections⟩
  · obtain ⟨hfrom, hto⟩ := hpart.own c hc
    exact ⟨hpart.owns_addNode hnode (.inr hfrom), hpart.owns_addNode hnode (.inr hto)⟩
  · rcases mem_getNodes_addNode hpart.keyed hx with hx | rfl
    · exact hpart.nodes hx
    · exact hnode

theorem IsPart.addWithNodes (hpart : IsPart g h) {c : GraphConnection} (hc : c ∈ g.connections) :
    ∃ h', addWithNodes h c = .ok h' ∧ IsPart g h'
      ∧ ∀ d, d ∈ h'.getConnections ↔ d ∈ h.getConnections ∨ d = c := by
  have hfrom := Graph.fromNode_mem hc
  have hto := Graph.toNode_mem hc
  have hpart₁ := hpart.addNode hfrom
  have hpart₂ := hpart₁.addNode hto
  have hownFrom := hpart₁.owns_addNode hto (.inr (hpart.owns_addNode hfrom (.inl rfl)))
  have hownTo := hpart₁.owns_addNode hto (.inl rfl)
  have hmem : ∀ d, d ∈ DirectedGraph.getConnections
      { (h.addNode c.fromNode).addNode c.toNode with
        connections := h.connections.set (makeKey c) c }
        ↔ d ∈ h.getConnections ∨ d = c := by
    intro d
    refine (hpart₂.keyed.mem_addConnection c d).trans ?_
    rw [or_comm]
    refine ⟨Or.imp_left And.left, ?_⟩
    rintro (hd | rfl)
    · by_cases hkey : makeKey c = makeKey d
      · exact .inr (g.keyed.eq_of_makeKey c hc d (hpart.connections hd) hkey).symm
      · exact .inl ⟨hd, hkey⟩
    · exact .inr rfl
  refine ⟨_, addConnection_of_owns hownFrom hownTo,
    ⟨hpart₂.keyed.addConnection c, fun d hd => ?_, hpart₂.nodes, fun d hd => ?_⟩, hmem⟩
  · rcases (hmem d).mp hd with hd | rfl
    · exact hpart₂.own d hd
    · exact ⟨hownFrom, hownTo⟩
  · rcases (hmem d).mp hd with hd | rfl
    · exact hpart.connections hd
    · exact hc

theorem IsPart.keepBranch (hpart : IsPart g h)
    {branch : List GraphConnection} (hbranch : branch ⊆ g.connections) :
    ∃ h', branch.foldlM N8nFindSubgraph.addWithNodes h = .ok h' ∧ IsPart g h'
      ∧ ∀ d, d ∈ h'.getConnections ↔ d ∈ h.getConnections ∨ d ∈ branch := by
  induction branch generalizing h with
  | nil => exact ⟨h, rfl, hpart, fun d => (or_iff_left not_mem_nil).symm⟩
  | cons c rest ih =>
    obtain ⟨hc, hrest⟩ := cons_subset.mp hbranch
    obtain ⟨next, hnext, hpart', hmem⟩ := hpart.addWithNodes hc
    obtain ⟨h', hok, hpart'', hmem'⟩ := ih hpart' hrest
    refine ⟨h', ?_, hpart'', fun d => ?_⟩
    · rw [foldlM_cons, hnext]
      exact hok
    · rw [hmem', hmem, mem_cons, or_assoc]

end

/-! ## What the search keeps -/

/-- The nodes that a branch has been to. -/
def been (branch : List GraphConnection) : List INode := branch.map (·.toNode)

theorem mem_been_concat {branch : List GraphConnection} {c : GraphConnection}
    {x : INode} : x ∈ been (branch ++ [c]) ↔ x ∈ been branch ∨ x = c.toNode := by
  rw [been, map_append, mem_append]
  exact or_congr_right mem_singleton

theorem ne_nil_of_mem_been {branch : List GraphConnection} {x : INode}
    (h : x ∈ been branch) : branch ≠ [] := by
  rintro rfl
  cases h

/-- From the node, the branch leads to one that is kept. -/
inductive Kept (g : Graph) (destination trigger : INode) :
    INode → List GraphConnection → List GraphConnection → Prop
  | trigger (branch : List GraphConnection) : Kept g destination trigger trigger branch branch
  | cycle {current : INode} {branch : List GraphConnection} :
      current ≠ destination → current ∈ been branch →
        Kept g destination trigger current branch branch
  | step {branch full : List GraphConnection} (c : GraphConnection) :
      c ∈ g.connections → c.type = .main → c.toNode ≠ trigger → c.toNode ∉ been branch →
        Kept g destination trigger c.fromNode (branch ++ [c]) full →
        Kept g destination trigger c.toNode branch full

/-- What a call adds: the connections of the branches that are kept. -/
def Adds (kept : List GraphConnection → Prop) (h h' : DirectedGraph) : Prop :=
  ∀ c, c ∈ h'.getConnections ↔ c ∈ h.getConnections ∨ ∃ full, kept full ∧ c ∈ full

section

variable {g : Graph} {destination trigger : INode} {h : DirectedGraph}

variable {kept : List GraphConnection → Prop}

theorem Adds.none (hnone : ∀ full, ¬ kept full) : Adds kept h h := by
  refine fun c => (or_iff_left ?_).symm
  rintro ⟨full, hfull, -⟩
  exact hnone full hfull

theorem Adds.trans {kept' : List GraphConnection → Prop}
    {h' h'' : DirectedGraph} (hadds : Adds kept h h')
    (hadds' : Adds kept' h' h'') :
    Adds (fun full => kept full ∨ kept' full) h h'' := by
  intro c
  rw [hadds' c, hadds c, or_assoc]
  refine or_congr_right ?_
  simp [or_and_right, exists_or]

theorem Adds.congr {kept' : List GraphConnection → Prop}
    {h' : DirectedGraph} (hadds : Adds kept h h')
    (hkept : ∀ full, kept full ↔ kept' full) : Adds kept' h h' := by
  rwa [← funext fun full => propext (hkept full)]

variable {current : INode} {branch full : List GraphConnection}

theorem kept_here (hend : current = trigger ∨ (current ≠ destination ∧ current ∈ been branch)) :
    Kept g destination trigger current branch full ↔ full = branch := by
  constructor
  · intro hkept
    cases hkept with
    | trigger => rfl
    | cycle => rfl
    | step c _ _ htrigger hnew =>
      rcases hend with heq | ⟨-, hmem⟩
      · exact absurd heq htrigger
      · exact absurd hmem hnew
  · rintro rfl
    rcases hend with rfl | ⟨hne, hmem⟩
    · exact .trigger full
    · exact .cycle hne hmem

theorem kept_further (htrigger : current ≠ trigger) (hnew : current ∉ been branch) :
    Kept g destination trigger current branch full
      ↔ ∃ c ∈ g.connections, c.toNode = current ∧ c.type = .main
        ∧ Kept g destination trigger c.fromNode (branch ++ [c]) full := by
  constructor
  · intro hkept
    cases hkept with
    | trigger => exact absurd rfl htrigger
    | cycle _ hmem => exact absurd hmem hnew
    | step c hc hmain _ _ hrest => exact ⟨c, hc, rfl, hmain, hrest⟩
  · rintro ⟨c, hc, rfl, hmain, hrest⟩
    exact .step c hc hmain htrigger hnew hrest

theorem kept_nowhere (htrigger : current ≠ trigger) (hdestination : current = destination)
    (hmem : current ∈ been branch) :
    ¬ Kept g destination trigger current branch full := by
  intro hkept
  cases hkept with
  | trigger => exact htrigger rfl
  | cycle hne _ => exact hne hdestination
  | step c _ _ _ hnew _ => exact hnew hmem

theorem any_toNode {node : INode} : branch.any (·.toNode = node) = true ↔ node ∈ been branch := by
  rw [any_eq_true, been, mem_map]
  simp only [decide_eq_true_iff]

theorem foldlM_parents {fuel : Nat} {rest : List GraphConnection}
    (hcall : ∀ c ∈ rest, c.type = .main → ∀ h, IsPart g h →
      ∃ h', findSubgraphRecursive g.graph destination trigger fuel c.fromNode h
          (branch ++ [c]) = .ok h' ∧ IsPart g h'
        ∧ Adds (Kept g destination trigger c.fromNode (branch ++ [c])) h h') (hpart : IsPart g h) :
    ∃ h', rest.foldlM (fun newGraph c =>
        if c.type ≠ .main then .ok newGraph
        else findSubgraphRecursive g.graph destination trigger fuel c.fromNode
          newGraph (branch ++ [c])) h = .ok h' ∧ IsPart g h'
      ∧ Adds (fun full => ∃ c ∈ rest, c.type = .main
        ∧ Kept g destination trigger c.fromNode (branch ++ [c]) full) h h' := by
  induction rest generalizing h with
  | nil =>
    refine ⟨h, rfl, hpart, Adds.none ?_⟩
    rintro full ⟨c, hc, -⟩
    cases hc
  | cons c rest ih =>
    have hfirst : ∃ h', (if c.type ≠ .main then .ok h
        else findSubgraphRecursive g.graph destination trigger fuel
          c.fromNode h (branch ++ [c])) = .ok h' ∧ IsPart g h'
        ∧ Adds (fun full => c.type = .main
          ∧ Kept g destination trigger c.fromNode (branch ++ [c]) full) h h' := by
      by_cases hmain : c.type = .main
      · obtain ⟨h', hok, hpart', hadds⟩ :=
          hcall c (mem_cons_self ..) hmain h hpart
        exact ⟨h', (if_neg (not_not.mpr hmain)).trans hok, hpart',
          hadds.congr fun full => (and_iff_right hmain).symm⟩
      · exact ⟨h, if_pos hmain, hpart, Adds.none fun full hfull =>
          hmain hfull.1⟩
    obtain ⟨next, hnext, hpart', hadds⟩ := hfirst
    obtain ⟨h', hok, hpart'', hadds'⟩ := ih (fun d hd => hcall d (mem_cons_of_mem c hd)) hpart'
    refine ⟨h', ?_, hpart'', (hadds.trans hadds').congr fun full => ?_⟩
    · rw [foldlM_cons, hnext]
      exact hok
    · simp

/-- **ONE CALL** adds the connections of the branches that are kept. -/
theorem findSubgraphRecursive_ok (trigger : INode) {fuel : Nat} (hpart : IsPart g h)
    (hcurrent : current ∈ g.nodes) (hbranch : branch ⊆ g.connections)
    (hfuel : (unseen g.nodes (been branch)).length < fuel) :
    ∃ h', findSubgraphRecursive g.graph destination trigger fuel current h
        branch = .ok h' ∧ IsPart g h'
      ∧ Adds (Kept g destination trigger current branch) h h' := by
  induction fuel generalizing current branch h with
  | zero => omega
  | succ fuel ih =>
    have hkeep : ∀ {h}, IsPart g h → (current = trigger
        ∨ (current ≠ destination ∧ current ∈ been branch)) →
        ∃ h', branch.foldlM addWithNodes h = .ok h' ∧ IsPart g h'
          ∧ Adds (Kept g destination trigger current branch) h h' := by
      intro h hpart hend
      obtain ⟨h', hok, hpart', hmem⟩ := hpart.keepBranch hbranch
      refine ⟨h', hok, hpart', fun c => (hmem c).trans ?_⟩
      simp [kept_here hend]
    rw [findSubgraphRecursive]
    by_cases htrigger : current = trigger
    · rw [if_pos htrigger]
      exact hkeep (hpart.addNode (htrigger ▸ hcurrent)) (.inl htrigger)
    rw [if_neg htrigger, Graph.getDirectParentConnections_ok hcurrent]
    by_cases hmem : current ∈ been branch
    · have hsome : ¬ (g.connections.filter (·.toNode = current)).length
          = 0 := by
        obtain ⟨c, hc, hto⟩ := mem_map.mp hmem
        exact (length_pos_of_mem (mem_filter.mpr ⟨hbranch hc, decide_eq_true hto⟩)).ne'
      by_cases hdestination : current = destination
      · refine ⟨h, ?_, hpart, Adds.none fun full =>
          kept_nowhere htrigger hdestination hmem⟩
        refine (if_neg hsome).trans (if_pos ⟨hdestination, ?_⟩)
        exact any_toNode.mpr (hdestination ▸ hmem)
      · obtain ⟨h', hok, hkept⟩ := hkeep hpart (.inr ⟨hdestination, hmem⟩)
        refine ⟨h', ?_, hkept⟩
        refine (if_neg hsome).trans ((if_neg ?_).trans ((if_pos (any_toNode.mpr hmem)).trans hok))
        exact fun hcycle => hdestination hcycle.1
    · have hlt : (unseen g.nodes (been branch ++ [current])).length
          < (unseen g.nodes (been branch)).length :=
        length_unseen_lt hcurrent hmem prefix_rfl
      have hparent : ∀ c ∈ g.connections.filter (·.toNode = current),
          c ∈ g.connections ∧ c.toNode = current := fun c hc =>
        ⟨(mem_filter.mp hc).1, of_decide_eq_true (mem_filter.mp hc).2⟩
      have hcall : ∀ c ∈ g.connections.filter (·.toNode = current),
          c.type = .main → ∀ h, IsPart g h →
            ∃ h', findSubgraphRecursive g.graph destination trigger fuel
                c.fromNode h (branch ++ [c]) = .ok h' ∧ IsPart g h'
              ∧ Adds (Kept g destination trigger c.fromNode (branch ++ [c])) h h' := by
        intro c hc _ h hpart
        obtain ⟨hc, hto⟩ := hparent c hc
        refine ih hpart (Graph.fromNode_mem hc)
          (append_subset.mpr ⟨hbranch, cons_subset.mpr ⟨hc, nil_subset _⟩⟩) ?_
        rw [been, map_append, map_singleton, hto]
        exact Nat.lt_of_lt_of_le hlt (Nat.le_of_lt_succ hfuel)
      obtain ⟨h', hok, hpart', hadds⟩ := foldlM_parents hcall hpart
      refine ⟨h', ?_, hpart', hadds.congr fun full => ?_⟩
      · have hcycle : ¬ branch.any (·.toNode = current) = true :=
          mt any_toNode.mp hmem
        by_cases hnone : (g.connections.filter (·.toNode = current)).length = 0
        · rw [length_eq_zero_iff.mp hnone] at hok ⊢
          exact hok
        · refine (if_neg hnone).trans ((if_neg ?_).trans ((if_neg hcycle).trans hok))
          rintro ⟨rfl, hany⟩
          exact hcycle hany
      · rw [kept_further htrigger hmem]
        refine exists_congr fun c => ?_
        rw [mem_filter, decide_eq_true_iff, and_assoc]

/-- Adding connections of other types leaves the Main connections. -/
def SameMain (h h' : DirectedGraph) : Prop :=
  ∀ c, c.type = .main → (c ∈ h'.getConnections ↔ c ∈ h.getConnections)

theorem foldlM_otherTypes {rest : List GraphConnection}
    (hrest : rest ⊆ g.connections) (hpart : IsPart g h) :
    ∃ h', rest.foldlM (fun subgraph connection =>
        if connection.type = .main then .ok subgraph
        else addWithNodes subgraph connection) h = .ok h'
      ∧ IsPart g h' ∧ SameMain h h' := by
  induction rest generalizing h with
  | nil => exact ⟨h, rfl, hpart, fun _ _ => Iff.rfl⟩
  | cons c rest ih =>
    obtain ⟨hc, hrest⟩ := cons_subset.mp hrest
    rw [foldlM_cons]
    by_cases hmain : c.type = .main
    · rw [if_pos hmain]
      exact ih hrest hpart
    · obtain ⟨next, hnext, hpart', hmem⟩ := hpart.addWithNodes hc
      obtain ⟨h', hok, hpart'', hsame⟩ := ih hrest hpart'
      rw [if_neg hmain, hnext]
      refine ⟨h', hok, hpart'', fun d hd => ?_⟩
      rw [hsame d hd, hmem d]
      exact or_iff_left fun heq => hmain (heq ▸ hd)

theorem foldlM_addParents {nodes : List INode} (hnodes : nodes ⊆ g.nodes) (hpart : IsPart g h) :
    ∃ h', nodes.foldlM (addParents g.graph) h = .ok h' ∧ IsPart g h' ∧ SameMain h h' := by
  induction nodes generalizing h with
  | nil => exact ⟨h, rfl, hpart, fun _ _ => Iff.rfl⟩
  | cons node rest ih =>
    obtain ⟨hnode, hrest⟩ := cons_subset.mp hnodes
    obtain ⟨parents, hparents, hmem⟩ := Graph.getParentConnections_ok hnode
    obtain ⟨next, hnext, hpart', hsame⟩ := foldlM_otherTypes (fun c hc => ((hmem c).mp hc).1) hpart
    obtain ⟨h', hok, hpart'', hsame'⟩ := ih hrest hpart'
    refine ⟨h', ?_, hpart'', fun c hc => (hsame' c hc).trans (hsame c hc)⟩
    rw [foldlM_cons, addParents, hparents]
    exact (congrArg (· >>= _) hnext).trans hok

theorem Kept.main (hkept : Kept g destination trigger current branch full)
    (hbranch : ∀ c ∈ branch, c ∈ g.connections ∧ c.type = .main) :
    ∀ c ∈ full, c ∈ g.connections ∧ c.type = .main := by
  induction hkept with
  | trigger => exact hbranch
  | cycle => exact hbranch
  | step c hc hmain _ _ _ ih =>
    exact ih (forall_mem_append.mpr ⟨hbranch,
      forall_mem_cons.mpr ⟨⟨hc, hmain⟩, fun d hd => by cases hd⟩⟩)

/-- The connection is on a branch that is kept. -/
def IsKept (g : Graph) (destination trigger : INode) (c : GraphConnection) : Prop :=
  ∃ full, Kept g destination trigger destination [] full ∧ c ∈ full

/-- **THE RESULT** has the Main connections of the branches that are
    kept. -/
theorem findSubgraph_ok (trigger : INode) (hdestination : destination ∈ g.nodes) :
    ∃ subgraph, findSubgraph g.graph destination trigger = .ok subgraph
      ∧ ∀ c, (c ∈ subgraph.getConnections ∧ c.type = .main) ↔ IsKept g destination trigger c := by
  have hfuel : (unseen g.nodes (been [])).length < depth g.graph :=
    Nat.lt_succ_of_lt (Nat.lt_succ_of_le (length_filter_le ..))
  obtain ⟨h, hh, hpart, hadds⟩ := findSubgraphRecursive_ok
    trigger isPart_empty hdestination (nil_subset _) hfuel
  obtain ⟨subgraph, hok, -, hsame⟩ := foldlM_addParents hpart.nodes hpart
  refine ⟨subgraph, ?_, fun c => ?_⟩
  · rw [findSubgraph, hh]
    exact hok
  · constructor
    · rintro ⟨hc, hmain⟩
      rcases (hadds c).mp ((hsame c hmain).mp hc) with hc | hc
      · cases hc
      · exact hc
    · rintro ⟨full, hfull, hc⟩
      have hmain := (hfull.main (fun d hd => by cases hd) c hc).2
      exact ⟨(hsame c hmain).mpr ((hadds c).mpr (.inr ⟨full, hfull, hc⟩)), hmain⟩

end

/-! ## Branches and walks -/

section

variable {g : Graph} {destination trigger : INode}

/-- The search comes to the node with the branch. -/
inductive Explored (g : Graph) (destination trigger : INode) :
    INode → List GraphConnection → Prop
  | start : Explored g destination trigger destination []
  | step {branch : List GraphConnection} (c : GraphConnection) :
      Explored g destination trigger c.toNode branch →
        c ∈ g.connections → c.type = .main → c.toNode ≠ trigger → c.toNode ∉ been branch →
        Explored g destination trigger c.fromNode (branch ++ [c])

variable {current : INode} {branch full : List GraphConnection}

theorem Kept.subset (h : Kept g destination trigger current branch full) : branch ⊆ full := by
  induction h with
  | trigger => exact List.Subset.refl _
  | cycle => exact List.Subset.refl _
  | step c _ _ _ _ _ ih => exact (append_subset.mp ih).1

section

variable (h : Explored g destination trigger current branch)
  (hkept : Kept g destination trigger current branch full)
include h hkept

theorem Explored.kept : Kept g destination trigger destination [] full := by
  induction h with
  | start => exact hkept
  | step c _ hc hmain htrigger hnew ih => exact ih (.step c hc hmain htrigger hnew hkept)

theorem Explored.end_of_kept :
    ∃ last, Explored g destination trigger last full
      ∧ (last = trigger ∨ (last ≠ destination ∧ last ∈ been full)) := by
  induction hkept with
  | trigger => exact ⟨trigger, h, .inl rfl⟩
  | cycle hne hmem => exact ⟨_, h, .inr ⟨hne, hmem⟩⟩
  | step c hc hmain htrigger hnew _ ih => exact ih (.step c h hc hmain htrigger hnew)

end

theorem exists_kept {start : INode} (branch : List GraphConnection)
    (h : ReflTransGen (StepInto g.connections destination trigger) start current)
    (hstart : ∀ more, ∃ full, Kept g destination trigger start (branch ++ more) full) :
    ∃ full, Kept g destination trigger current branch full := by
  induction h generalizing branch with
  | refl =>
    obtain ⟨full, hfull⟩ := hstart []
    rw [append_nil] at hfull
    exact ⟨full, hfull⟩
  | tail _ hstep ih =>
    obtain ⟨⟨c, hout, rfl⟩, htrigger, hdestination⟩ := hstep
    obtain ⟨hc, rfl, hmain⟩ := mem_mainOut.mp hout
    by_cases hmem : c.toNode ∈ been branch
    · exact ⟨branch, .cycle hdestination hmem⟩
    · have hstart' : ∀ more, ∃ full, Kept g destination trigger start
          ((branch ++ [c]) ++ more) full := fun more => by
        rw [append_assoc]
        exact hstart _
      obtain ⟨full, hfull⟩ := ih (branch ++ [c]) hstart'
      exact ⟨full, .step c hc hmain htrigger hmem hfull⟩

theorem Explored.before {x : INode}
    (h : Explored g destination trigger current branch) (hx : x ∈ been branch) :
    ∃ first, Explored g destination trigger x first ∧ x ∉ been first := by
  induction h with
  | start => cases hx
  | step c h _ _ _ hnew ih =>
    rcases mem_been_concat.mp hx with hx | rfl
    · exact ih hx
    · exact ⟨_, h, hnew⟩

variable {node : INode}

section

variable (hne : trigger ≠ destination)
  (h : ReflTransGen (StepOutOf g.connections destination trigger) node destination)
include hne h

theorem ne_trigger : node ≠ trigger := by
  rcases h.cases_head with rfl | ⟨next, hstep, -⟩
  · exact hne.symm
  · exact hstep.1.1

theorem exists_explored :
    ∃ branch, Explored g destination trigger node branch ∧ node ∉ been branch := by
  induction h using ReflTransGen.head_induction_on with
  | refl => exact ⟨[], .start, not_mem_nil⟩
  | head hstep hrest ih =>
    obtain ⟨-, c, hout, rfl⟩ := hstep
    obtain ⟨hc, rfl, hmain⟩ := mem_mainOut.mp hout
    obtain ⟨branch, hexplored, hnew⟩ := ih
    by_cases hmem : c.fromNode ∈ been (branch ++ [c])
    · rcases mem_been_concat.mp hmem with hmem | hself
      · exact hexplored.before hmem
      · exact ⟨branch, hself ▸ hexplored, hself ▸ hnew⟩
    · exact ⟨branch ++ [c], .step c hexplored hc hmain (ne_trigger hne hrest) hnew, hmem⟩

end

section

variable (h : Explored g destination trigger current branch)
include h

theorem Explored.start_or : (branch = [] ∧ current = destination)
      ∨ (destination ∈ been branch ∧ ∃ c ∈ branch, c ∈ mainOut g.connections current) := by
  induction h with
  | start => exact .inl ⟨rfl, rfl⟩
  | step c _ hc hmain _ _ ih =>
    refine .inr ⟨mem_been_concat.mpr ?_, c,
      mem_append_right _ (mem_singleton_self c), mem_mainOut.mpr ⟨hc, rfl, hmain⟩⟩
    rcases ih with ⟨-, heq⟩ | ⟨hmem, -⟩
    · exact .inr heq.symm
    · exact .inl hmem

theorem Explored.inner (hbranch : branch ≠ []) (htrigger : current ≠ trigger)
    (hnew : current ∉ been branch) : Inner destination trigger current := by
  rcases h.start_or with ⟨hnil, -⟩ | ⟨hmem, -⟩
  · exact absurd hnil hbranch
  · exact ⟨htrigger, fun heq => hnew (heq ▸ hmem)⟩

theorem Explored.leads :
    ∀ c ∈ branch, ReflTransGen (StepOutOf g.connections destination trigger) c.toNode
        destination := by
  induction h with
  | start => exact fun c hc => by cases hc
  | step c hbefore hc hmain htrigger hnew ih =>
    refine forall_mem_append.mpr ⟨ih, forall_mem_cons.mpr ⟨?_, fun d hd => by cases hd⟩⟩
    rcases hbefore.start_or with ⟨-, heq⟩ | ⟨-, d, hd, hout⟩
    · rw [heq]
    · have hinner := hbefore.inner (ne_nil_of_mem hd) htrigger hnew
      exact .head ⟨hinner, d, hout, rfl⟩ (ih d hd)

theorem Explored.reached
    (hcurrent : ReflTransGen (StepInto g.connections destination trigger) trigger current) :
    ∀ c ∈ branch, ReflTransGen (StepInto g.connections destination trigger) trigger c.fromNode := by
  induction h with
  | start => exact fun c hc => by cases hc
  | step c hbefore hc hmain htrigger hnew ih =>
    intro d hd
    rcases mem_append.mp hd with hd | hd
    · have hinner := hbefore.inner (ne_nil_of_mem hd) htrigger hnew
      exact ih (hcurrent.tail ⟨⟨c, mem_mainOut.mpr ⟨hc, rfl, hmain⟩, rfl⟩, hinner⟩) d hd
    · rw [mem_singleton.mp hd]
      exact hcurrent

theorem Explored.comes_by {x : INode} (hx : x ∈ been branch) (hdestination : x ≠ destination) :
    TransGen (StepInto g.connections destination trigger) current x := by
  induction h with
  | start => cases hx
  | step c hbefore hc hmain htrigger hnew ih =>
    have hstep : Inner destination trigger c.toNode →
        StepInto g.connections destination trigger c.fromNode c.toNode :=
      fun hinner => ⟨⟨c, mem_mainOut.mpr ⟨hc, rfl, hmain⟩, rfl⟩, hinner⟩
    rcases mem_been_concat.mp hx with hx | rfl
    · exact .head (hstep (hbefore.inner (ne_nil_of_mem_been hx) htrigger hnew)) (ih hx)
    · exact .single (hstep ⟨htrigger, hdestination⟩)

end

/-! ## What is kept lies between the two -/

variable {c : GraphConnection}

theorem onMainWalk_iff :
    OnMainWalk g.connections destination trigger c
      ↔ c ∈ mainOut g.connections c.fromNode
        ∧ ReflTransGen (StepInto g.connections destination trigger) trigger c.fromNode
        ∧ ReflTransGen (StepOutOf g.connections destination trigger) c.toNode destination := by
  rw [OnMainWalk, onPathBetween_iff]
  constructor
  · rintro ⟨x, hc, hwalk⟩
    obtain ⟨-, rfl, -⟩ := mem_mainOut.mp hc
    exact ⟨hc, hwalk⟩
  · intro hwalk
    exact ⟨c.fromNode, hwalk⟩

section

variable (hne : trigger ≠ destination)
include hne

theorem isKept_of_onMainWalk (h : OnMainWalk g.connections destination trigger c) :
    IsKept g destination trigger c := by
  obtain ⟨hout, hfrom, hto⟩ := onMainWalk_iff.mp h
  obtain ⟨hc, -, hmain⟩ := mem_mainOut.mp hout
  obtain ⟨branch, hexplored, hnew⟩ := exists_explored hne hto
  obtain ⟨full, hfull⟩ := exists_kept (branch ++ [c]) hfrom fun more => ⟨_, .trigger _⟩
  exact ⟨full, hexplored.kept (.step c hc hmain (ne_trigger hne hto) hnew
    hfull), hfull.subset (mem_append_right _ (mem_singleton_self c))⟩

theorem onMainWalk_of_isKept (hcycles : CyclesReached g.connections destination trigger)
    (h : IsKept g destination trigger c) :
    OnMainWalk g.connections destination trigger c := by
  obtain ⟨full, hfull, hc⟩ := h
  obtain ⟨hconnection, hmain⟩ := hfull.main (fun d hd => by cases hd) c hc
  obtain ⟨last, hexplored, hend⟩ := Explored.end_of_kept .start hfull
  have hlast : ReflTransGen (StepInto g.connections destination trigger) trigger last := by
    rcases hend with rfl | ⟨hdestination, hmem⟩
    · exact .refl
    · obtain ⟨d, hd, rfl⟩ := mem_map.mp hmem
      rw [CyclesReached, if_neg hne] at hcycles
      exact hcycles d.toNode (hexplored.comes_by hmem hdestination) (hexplored.leads d hd)
  exact onMainWalk_iff.mpr ⟨mem_mainOut.mpr ⟨hconnection, rfl, hmain⟩,
    hexplored.reached hlast c hc, hexplored.leads c hc⟩

theorem exists_kept_of_cycle
    (hcycle : TransGen (StepInto g.connections destination trigger) node node)
    (hto : ReflTransGen (StepOutOf g.connections destination trigger) node destination)
    (hfrom : ¬ ReflTransGen (StepInto g.connections destination trigger) trigger node) :
    ∃ c, IsKept g destination trigger c ∧ ¬ OnMainWalk g.connections destination trigger c := by
  obtain ⟨branch, hexplored, hnew⟩ := exists_explored hne hto
  obtain ⟨last, hreach, hstep⟩ := TransGen.tail'_iff.mp hcycle
  obtain ⟨⟨c, hout, rfl⟩, hinner⟩ := hstep
  obtain ⟨hc, rfl, hmain⟩ := mem_mainOut.mp hout
  obtain ⟨full, hfull⟩ := exists_kept (branch ++ [c]) hreach fun more =>
    ⟨_, .cycle hinner.2 (mem_map_of_mem
      (mem_append_left _ (mem_append_right _ (mem_singleton_self c))))⟩
  refine ⟨c, ⟨full, hexplored.kept (.step c hc hmain hinner.1 hnew hfull),
    hfull.subset (mem_append_right _ (mem_singleton_self c))⟩, ?_⟩
  intro hwalk
  exact hfrom ((onMainWalk_iff.mp hwalk).2.1.tail ⟨⟨c, hout, rfl⟩, hinner⟩)

end

theorem not_isKept_self : ¬ IsKept g trigger trigger c := by
  rintro ⟨full, hfull, hc⟩
  rw [(kept_here (.inl rfl)).mp hfull] at hc
  cases hc

theorem exists_onMainWalk_self (h : TransGen (MainStep g.connections) trigger trigger) :
    ∃ c, OnMainWalk g.connections trigger trigger c := by
  obtain ⟨last, hreach, c, hout, hback⟩ := TransGen.tail'_iff.mp h
  have hstays : ∀ a b, MainStep g.connections a b ∧ a ≠ trigger →
      StepOutOf g.connections trigger trigger a b :=
    fun a b hab => ⟨⟨hab.2, hab.2⟩, hab.1⟩
  have hself : last = trigger → ∃ c, OnMainWalk g.connections trigger trigger c := by
    rintro rfl
    obtain ⟨-, hfrom, -⟩ := mem_mainOut.mp hout
    exact ⟨c, onMainWalk_iff.mpr ⟨hfrom.symm ▸ hout, hfrom ▸ .refl, hback ▸ .refl⟩⟩
  by_cases hlast : last = trigger
  · exact hself hlast
  rcases exists_last_visit trigger hreach with hnever | ⟨next, hfirst, hrest⟩
  · rcases hnever.cases_head with heq | ⟨next, ⟨-, hne⟩, -⟩
    · exact hself heq.symm
    · exact absurd rfl hne
  · obtain ⟨first, hfirst, rfl⟩ := hfirst
    obtain ⟨-, hfrom, -⟩ := mem_mainOut.mp hfirst
    refine ⟨first, onMainWalk_iff.mpr ⟨hfrom.symm ▸ hfirst, hfrom ▸ .refl, ?_⟩⟩
    exact (ReflTransGen.mono hstays _ _ hrest).tail ⟨⟨hlast, hlast⟩, c, hout, hback⟩

theorem isKept_iff_onMainWalk : (∀ c, IsKept g destination trigger c
      ↔ OnMainWalk g.connections destination trigger c)
      ↔ CyclesReached g.connections destination trigger := by
  by_cases heq : trigger = destination
  · subst heq
    rw [CyclesReached, if_pos rfl]
    constructor
    · intro hall hcycle
      obtain ⟨c, hc⟩ := exists_onMainWalk_self hcycle
      exact not_isKept_self ((hall c).mpr hc)
    · refine fun hno c => iff_of_false not_isKept_self fun hwalk => ?_
      obtain ⟨hout, hfrom, hto⟩ := onMainWalk_iff.mp hwalk
      refine hno (TransGen.trans_right (ReflTransGen.mono
        (fun _ _ hab => hab.1) _ _ hfrom) (TransGen.head' ⟨c, hout, rfl⟩
        (ReflTransGen.mono (fun _ _ hab => hab.2) _ _ hto)))
  · constructor
    · intro hall
      rw [CyclesReached, if_neg heq]
      intro node hcycle hto
      by_contra hfrom
      obtain ⟨c, hkept, hnot⟩ := exists_kept_of_cycle heq hcycle hto hfrom
      exact hnot ((hall c).mp hkept)
    · exact fun hcycles c => ⟨onMainWalk_of_isKept heq hcycles, isKept_of_onMainWalk heq⟩

theorem walk_inside {subgraph : DirectedGraph}
    (hall : ∀ c, (c ∈ subgraph.getConnections ∧ c.type = .main)
      ↔ OnMainWalk g.connections destination trigger c)
    (hc : OnMainWalk g.connections destination trigger c)
    (hnode : node = c.fromNode ∨ node = c.toNode) :
    ReflTransGen (MainStep subgraph.getConnections) trigger node
      ∧ ReflTransGen (MainStep subgraph.getConnections) node destination := by
  obtain ⟨p, hp, hend, hmem, hinner⟩ := hc
  have hp' : IsPath (mainOut subgraph.getConnections) (·.toNode) trigger p := by
    refine hp.mono fun e he m hout => ?_
    obtain ⟨-, hfrom, -⟩ := mem_mainOut.mp hout
    obtain ⟨hsub, hmain⟩ := (hall e).mpr ⟨p, hp, hend, he, hinner⟩
    exact mem_mainOut.mpr ⟨hsub, hfrom, hmain⟩
  obtain ⟨first, last, rfl⟩ := append_of_mem hmem
  obtain ⟨hfirst, hout, hlast⟩ := isPath_append.mp hp'
  rw [endOf_append] at hend
  obtain ⟨-, hfrom, -⟩ := mem_mainOut.mp hout
  have hto : ReflTransGen (MainStep subgraph.getConnections) c.toNode
      destination := hend ▸ hlast.reach
  have hstep : MainStep subgraph.getConnections c.fromNode c.toNode := ⟨c, hfrom ▸ hout, rfl⟩
  have htrigger : ReflTransGen (MainStep subgraph.getConnections) trigger
      c.fromNode := hfrom ▸ hfirst.reach
  rcases hnode with rfl | rfl
  · exact ⟨htrigger, .head hstep hto⟩
  · exact ⟨htrigger.tail hstep, hto⟩

end

/-- **BETWEEN TRIGGER AND DESTINATION**: `findSubgraph` keeps exactly what
    lies between them, if and only if the trigger leads to every cycle that
    leads to the destination. -/
theorem keepsBetween_iff {g : Graph} {destination : INode} (trigger : INode)
    (hdestination : destination ∈ g.nodes) :
    KeepsBetween g.connections destination trigger (findSubgraph g.graph destination trigger)
      ↔ CyclesReached g.connections destination trigger := by
  obtain ⟨subgraph, hok, hkept⟩ := findSubgraph_ok trigger hdestination
  rw [← isKept_iff_onMainWalk]
  constructor
  · rintro ⟨subgraph', hok', hall, -⟩ c
    rw [hok] at hok'
    cases hok'
    rw [← hkept c, hall c]
  · intro hall
    have hwalks : ∀ c, (c ∈ subgraph.getConnections ∧ c.type = .main)
        ↔ OnMainWalk g.connections destination trigger c :=
      fun c => (hkept c).trans (hall c)
    exact ⟨subgraph, hok, hwalks, fun c hc hmain node hnode =>
      walk_inside hwalks ((hwalks c).mp ⟨hc, hmain⟩) hnode⟩

/-! ## A cycle beside the way -/

section

def trigger₀ : INode := ⟨1, "trigger"⟩

def node₁ : INode := ⟨2, "node1"⟩

def node₂ : INode := ⟨3, "node2"⟩

def destination₀ : INode := ⟨4, "destination"⟩

/-- From the trigger to the destination, by one node. -/
def lineGraph : Graph :=
  .of [trigger₀, node₁, destination₀]
    [⟨trigger₀, node₁, .main, 0, 0⟩, ⟨node₁, destination₀, .main, 0, 0⟩] (by decide)

/-- From the trigger to the destination; and from a cycle that the trigger
    does not lead to. -/
def cycleGraph : Graph :=
  .of [trigger₀, node₁, node₂, destination₀]
    [⟨trigger₀, destination₀, .main, 0, 0⟩, ⟨node₁, node₂, .main, 0, 0⟩,
      ⟨node₂, node₁, .main, 0, 0⟩, ⟨node₁, destination₀, .main, 0, 0⟩] (by decide)

/-- Without a cycle the result is right. -/
theorem keepsBetween_lineGraph :
    KeepsBetween lineGraph.connections destination₀ trigger₀
      (findSubgraph lineGraph.graph destination₀ trigger₀) := by
  refine (keepsBetween_iff trigger₀ (by decide)).mpr ?_
  intro node hcycle _
  exfalso
  have hstep : ∀ {a b}, StepInto lineGraph.connections destination₀ trigger₀
      a b → a = trigger₀ ∧ b = node₁ := by
    rintro a b ⟨⟨c, hout, rfl⟩, hinner⟩
    obtain ⟨hc, rfl, -⟩ := mem_mainOut.mp hout
    have hall : ∀ c ∈ lineGraph.connections, c.toNode ≠ destination₀ →
        c.fromNode = trigger₀ ∧ c.toNode = node₁ := by decide
    exact hall c hc hinner.2
  obtain ⟨last, -, hlast⟩ := TransGen.tail'_iff.mp hcycle
  obtain ⟨next, hnext, -⟩ := TransGen.head'_iff.mp hcycle
  have heq : trigger₀ = node₁ := (hstep hnext).1.symm.trans (hstep hlast).2
  exact absurd heq (by decide)

/-- The cycle is kept, and the trigger does not lead to it. -/
theorem cycleGraph_keeps_more :
    ¬ KeepsBetween cycleGraph.connections destination₀ trigger₀
      (findSubgraph cycleGraph.graph destination₀ trigger₀) := by
  rintro ⟨subgraph, hok, hall, -⟩
  have hkept : (findSubgraph cycleGraph.graph destination₀ trigger₀).map
      (fun h => decide (⟨node₂, node₁, .main, 0, 0⟩ ∈ h.getConnections))
        = .ok true := by decide
  rw [hok] at hkept
  have hmem := of_decide_eq_true (Except.ok.inj hkept)
  obtain ⟨-, hfrom, -⟩ := onMainWalk_iff.mp ((hall _).mp ⟨hmem, rfl⟩)
  rcases hfrom.cases_head with heq | ⟨next, ⟨⟨c, hleaves, rfl⟩, hinner⟩, -⟩
  · exact absurd heq (by decide)
  · obtain ⟨hc, hfrom, -⟩ := mem_mainOut.mp hleaves
    have hout : ∀ c ∈ cycleGraph.connections, c.fromNode = trigger₀ →
        c.toNode = destination₀ := by decide
    exact hinner.2 (hout c hc hfrom)

end

end N8nFindSubgraph
