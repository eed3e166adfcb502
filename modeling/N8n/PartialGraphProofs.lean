import N8n.ExceptProofs
import N8n.DirectedGraphProofs
import N8n.DepthFirstProofs

/-! # The graph of a partial execution — its methods

    What a partial execution asks of a `DirectedGraph`: the connections of a
    node, its children, and a search for a node.  The methods assert that
    the node is one of the graph, and they recurse, here with a bound on the
    depth that the number of nodes gives.

    A `Graph` carries what the methods that change it keep: nodes are stored
    under their names, connections under their keys, and both ends of a
    connection are nodes of the graph.  On such a graph no assertion fails
    and the bound is never reached. -/

namespace N8nPartialGraph

open Relation N8nExcept N8nOrderedMap N8nDirectedGraph N8nDepthFirst List

/-! ## Sets of nodes -/

/-- `nodes.add(node)`: a set has its nodes in the order they were added. -/
def addTo (nodes : List INode) (node : INode) : List INode :=
  if node ∈ nodes then nodes else nodes ++ [node]

theorem mem_addTo {nodes : List INode} {node x : INode} :
    x ∈ addTo nodes node ↔ x ∈ nodes ∨ x = node := by
  rw [addTo]
  split
  · next hnode => exact (or_iff_left_of_imp fun heq => heq ▸ hnode).symm
  · rw [mem_append, mem_singleton]

/-! ## The methods -/

section

variable (g : DirectedGraph)

def getDirectChildConnections (node : INode) : Except GraphError (List GraphConnection) :=
  if g.owns node then .ok (g.getConnections.filter (·.fromNode = node))
  else .error .assertionError

def getDirectParentConnections (node : INode) : Except GraphError (List GraphConnection) :=
  if g.owns node then .ok (g.getConnections.filter (·.toNode = node))
  else .error .assertionError

/-- A connection of a graph as it is passed to `addConnection`. -/
def asInput (c : GraphConnection) : ConnectionInput :=
  { fromNode := c.fromNode, toNode := c.toNode, type := some c.type
    outputIndex := some c.outputIndex, inputIndex := some c.inputIndex }

/-- Two more calls than nodes can be open at a time. -/
def depth : Nat := g.getNodes.length + 2

def getChildrenRecursive : Nat → List INode → INode → Except GraphError (List INode)
  | 0, _, _ => .error .rangeError
  | fuel + 1, children, node => do
      let directChildren ← getDirectChildConnections g node
      directChildren.foldlM (fun children directChild =>
        if directChild.toNode ∈ children then .ok children
        else getChildrenRecursive fuel (children ++ [directChild.toNode])
          directChild.toNode) children

def getChildren (node : INode) : Except GraphError (List INode) :=
  getChildrenRecursive g (depth g) [] node

/-- Two more calls than connections can be open at a time. -/
def connectionDepth : Nat := g.getConnections.length + 2

def getParentConnectionsRecursive : Nat → List GraphConnection → INode →
    Except GraphError (List GraphConnection)
  | 0, _, _ => .error .rangeError
  | fuel + 1, connections, node => do
      let parentConnections ← getDirectParentConnections g node
      parentConnections.foldlM (fun connections connection =>
        if connection ∈ connections then .ok connections
        else getParentConnectionsRecursive fuel (connections ++ [connection])
          connection.fromNode) connections

def getParentConnections (node : INode) : Except GraphError (List GraphConnection) :=
  getParentConnectionsRecursive g (connectionDepth g) [] node

/-- The node that is found, and the nodes seen until then. -/
def depthFirstSearchRecursive (fn : INode → Bool) : Nat → List INode →
    INode → Except GraphError (Option INode × List INode)
  | 0, _, _ => .error .rangeError
  | fuel + 1, seen, fromNode =>
    if fromNode ∈ seen then .ok (none, seen)
    else if fn fromNode then .ok (some fromNode, seen ++ [fromNode])
    else do
      let childConnections ← getDirectChildConnections g fromNode
      childConnections.foldlM (fun found childConnection =>
        match found.1 with
        | some node => .ok (some node, found.2)
        | none => depthFirstSearchRecursive fn fuel found.2
            childConnection.toNode) (none, seen ++ [fromNode])

def depthFirstSearch (fromNode : INode) (fn : INode → Bool) :
    Except GraphError (Option INode) := do
  let (found, _) ← depthFirstSearchRecursive g fn (depth g) [] fromNode
  return found

end

/-- The Main connections out of a node. -/
def mainOut (connections : List GraphConnection) (node : INode) : List GraphConnection :=
  connections.filter fun c => c.fromNode = node ∧ c.type = .main

theorem mem_mainOut {connections : List GraphConnection} {node : INode}
    {c : GraphConnection} : c ∈ mainOut connections node
      ↔ c ∈ connections ∧ c.fromNode = node ∧ c.type = .main := by
  rw [mainOut, mem_filter, decide_eq_true_iff]

/-! ## Graphs -/

/-- A graph as its methods leave it. -/
structure Graph where
  graph : DirectedGraph
  keyed : Keyed graph
  own : OwnNodes graph

/-- The graph of the nodes and connections, added in this order. -/
def ofParts (nodes : List INode) (connections : List GraphConnection) : DirectedGraph :=
  { DirectedGraph.empty.addNodes nodes with
    connections := connections.foldl (fun m c => m.set (makeKey c) c)
      .empty }

theorem keyed_empty : Keyed .empty := ⟨fun _ _ h => (by cases h), fun _ _ h => (by cases h)⟩

theorem keyed_ofParts (nodes : List INode) (connections : List GraphConnection) :
    Keyed (ofParts nodes connections) := by
  have hnodes : Keyed (DirectedGraph.empty.addNodes nodes) := by
    induction nodes using List.reverseRecOn with
    | nil => exact keyed_empty
    | append_singleton nodes node ih =>
      rw [DirectedGraph.addNodes, foldl_append]
      exact ih.addNode node
  induction connections using List.reverseRecOn with
  | nil => exact ⟨hnodes.nodes, keyed_empty.connections⟩
  | append_singleton connections c ih =>
    rw [ofParts, foldl_append]
    exact ih.addConnection c

namespace Graph

/-- The graph that is built from nodes and the connections between them. -/
def of (nodes : List INode) (connections : List GraphConnection)
    (own : OwnNodes (ofParts nodes connections)) : Graph :=
  { graph := ofParts nodes connections
    keyed := keyed_ofParts nodes connections
    own }

variable (g : Graph)

def nodes : List INode := g.graph.getNodes

def connections : List GraphConnection := g.graph.getConnections

/-- The nodes that the connections out of a node lead to. -/
def children (node : INode) : List INode :=
  (g.connections.filter (·.fromNode = node)).map (·.toNode)

variable {g}

variable {node : INode}

theorem owns_iff : g.graph.owns node = true ↔ node ∈ g.nodes := by
  rw [DirectedGraph.owns, decide_eq_true_iff]
  exact g.keyed.mem_getNodes.symm

variable {c : GraphConnection}

theorem fromNode_mem (hc : c ∈ g.connections) : c.fromNode ∈ g.nodes := owns_iff.mp (g.own c hc).1

theorem toNode_mem (hc : c ∈ g.connections) : c.toNode ∈ g.nodes := owns_iff.mp (g.own c hc).2

variable {child : INode}

theorem mem_children : child ∈ g.children node
    ↔ ∃ c ∈ g.connections, c.fromNode = node ∧ c.toNode = child := by
  simp only [children, mem_map, mem_filter, decide_eq_true_iff, and_assoc]

theorem closed_children : Closed g.children g.nodes := by
  intro v _ child hchild
  obtain ⟨c, hc, -, rfl⟩ := mem_children.mp hchild
  exact toNode_mem hc

theorem getDirectChildConnections_ok (h : node ∈ g.nodes) :
    getDirectChildConnections g.graph node = .ok (g.connections.filter (·.fromNode = node)) :=
  if_pos (owns_iff.mpr h)

theorem getDirectParentConnections_ok (h : node ∈ g.nodes) :
    getDirectParentConnections g.graph node = .ok (g.connections.filter (·.toNode = node)) :=
  if_pos (owns_iff.mpr h)

/-! ## What the recursions return -/

/-- The body of the loop of `getChildrenRecursive`. -/
def followChild (g : DirectedGraph) (fuel : Nat) (children : List INode)
    (child : INode) : Except GraphError (List INode) :=
  if child ∈ children then .ok children
  else getChildrenRecursive g fuel (children ++ [child]) child

variable {children : List INode} {fuel : Nat}

theorem followChild_seen (hseen : child ∈ children) :
    followChild g.graph fuel children child = .ok children := if_pos hseen

theorem followChild_new (hchild : child ∈ g.nodes) (hnew : child ∉ children) :
    followChild g.graph (fuel + 1) children child
      = (g.children child).foldlM (followChild g.graph fuel) (children ++ [child]) := by
  rw [followChild, if_neg hnew, getChildrenRecursive,
    getDirectChildConnections_ok hchild, Graph.children, foldlM_map]
  rfl

theorem followChild_ok (hchild : child ∈ g.nodes)
    (hfuel : (unseen g.nodes children).length ≤ fuel) :
    followChild g.graph fuel children child = .ok (visit g.children fuel children child) :=
  follow_ok (followChild g.graph) closed_children (fun _ _ _ hseen => followChild_seen hseen)
    (fun _ _ _ hchild hnew => followChild_new hchild hnew) hchild hfuel

/-- **THE CHILDREN** of a node are the nodes that a way of at least one
    connection leads to. -/
theorem getChildren_ok (hnode : node ∈ g.nodes) :
    ∃ children, getChildren g.graph node = .ok children
      ∧ ∀ x, x ∈ children ↔ TransGen (Edge g.children) node x := by
  refine ⟨(g.children node).foldl (visit g.children (g.nodes.length + 1)) [], ?_, fun x => ?_⟩
  · rw [← foldlM_follow (followChild g.graph)
      (fun children child hchild hfuel => followChild_ok hchild hfuel)
      (closed_children node hnode) (Nat.le_succ_of_le (length_filter_le ..)), getChildren, depth,
      getChildrenRecursive, getDirectChildConnections_ok hnode, Graph.children, foldlM_map]
    rfl
  · refine (mem_visitAll closed_children ?_ (Nat.lt_succ_self _)).trans ?_
    · exact fun child hchild => closed_children node hnode child hchild
    · exact ⟨fun ⟨r, hr, hreach⟩ => TransGen.head' hr hreach, TransGen.head'_iff.mp⟩

def parentConnections (g : Graph) (c : GraphConnection) : List GraphConnection :=
  g.connections.filter (·.toNode = c.fromNode)

/-- The body of the loop of `getParentConnectionsRecursive`. -/
def followParent (g : DirectedGraph) (fuel : Nat)
    (connections : List GraphConnection) (c : GraphConnection) :
    Except GraphError (List GraphConnection) :=
  if c ∈ connections then .ok connections
  else getParentConnectionsRecursive g fuel (connections ++ [c]) c.fromNode

theorem closed_parentConnections : Closed g.parentConnections g.connections :=
  fun _ _ _ hc => (mem_filter.mp hc).1

variable {connections : List GraphConnection}

theorem followParent_seen (hseen : c ∈ connections) :
    followParent g.graph fuel connections c = .ok connections :=
  if_pos hseen

theorem followParent_new (hc : c ∈ g.connections) (hnew : c ∉ connections) :
    followParent g.graph (fuel + 1) connections c
      = (g.parentConnections c).foldlM (followParent g.graph fuel) (connections ++ [c]) := by
  rw [followParent, if_neg hnew, getParentConnectionsRecursive,
    getDirectParentConnections_ok (fromNode_mem hc)]
  rfl

theorem followParent_ok (hc : c ∈ g.connections)
    (hfuel : (unseen g.connections connections).length ≤ fuel) :
    followParent g.graph fuel connections c = .ok (visit g.parentConnections fuel connections c) :=
  follow_ok (followParent g.graph) closed_parentConnections
    (fun _ _ _ hseen => followParent_seen hseen)
    (fun _ _ _ hc hnew => followParent_new hc hnew) hc hfuel

theorem reach_parentConnections :
    (∃ r ∈ g.connections.filter (·.toNode = node), Reach g.parentConnections r c)
      ↔ c ∈ g.connections ∧ Reach g.children c.toNode node := by
  constructor
  · rintro ⟨r, hr, hreach⟩
    obtain ⟨hr, hnode⟩ := mem_filter.mp hr
    have hnode := of_decide_eq_true hnode
    suffices h : c ∈ g.connections ∧ Reach g.children c.toNode r.toNode by
      rw [hnode] at h
      exact h
    induction hreach with
    | refl => exact ⟨hr, .refl⟩
    | @tail b c _ hstep ih =>
      obtain ⟨hc, hto⟩ := mem_filter.mp hstep
      refine ⟨hc, .head (mem_children.mpr ⟨b, ih.1, ?_, rfl⟩) ih.2⟩
      exact (of_decide_eq_true hto).symm
  · rintro ⟨hc, hreach⟩
    generalize hto : c.toNode = start at hreach
    induction hreach using ReflTransGen.head_induction_on generalizing c with
    | refl => exact ⟨c, mem_filter.mpr ⟨hc, decide_eq_true hto⟩, .refl⟩
    | head hstep _ ih =>
      obtain ⟨d, hd, hfrom, hdto⟩ := mem_children.mp hstep
      obtain ⟨r, hr, hrd⟩ := ih hd hdto
      exact ⟨r, hr, hrd.tail (mem_filter.mpr ⟨hc, decide_eq_true (hto.trans hfrom.symm)⟩)⟩

/-- **THE PARENT CONNECTIONS** of a node are the connections to the nodes
    that lead to it. -/
theorem getParentConnections_ok (hnode : node ∈ g.nodes) :
    ∃ connections, getParentConnections g.graph node = .ok connections
      ∧ ∀ c, c ∈ connections ↔ c ∈ g.connections ∧ Reach g.children c.toNode node := by
  have hparents : g.connections.filter (·.toNode = node) ⊆ g.connections := filter_subset_self _
  refine ⟨(g.connections.filter (·.toNode = node)).foldl
    (visit g.parentConnections (g.connections.length + 1)) [], ?_,
    fun c => (mem_visitAll closed_parentConnections hparents
      (Nat.lt_succ_self _)).trans reach_parentConnections⟩
  rw [← foldlM_follow (followParent g.graph)
    (fun connections c hc hfuel => followParent_ok hc hfuel) hparents
    (Nat.le_succ_of_le (length_filter_le ..)), getParentConnections, connectionDepth,
    getParentConnectionsRecursive, getDirectParentConnections_ok hnode]
  rfl

/-- The nodes in the order a depth-first search meets them. -/
def preorder (g : Graph) (fromNode : INode) : List INode :=
  visit g.children (depth g.graph) [] fromNode

/-- What a search for a node gives, next to all that is met if it finds
    none. -/
structure Found (fn : INode → Bool) (seen all : List INode)
    (found : Option INode × List INode) : Prop where
  first : ∃ new, all = seen ++ new ∧ found.1 = new.find? fn
  seen : found.1 = none → found.2 = all

/-- The body of the loop of `depthFirstSearchRecursive`. -/
def searchChild (g : DirectedGraph) (fn : INode → Bool) (fuel : Nat)
    (found : Option INode × List INode) (child : INode) :
    Except GraphError (Option INode × List INode) :=
  match found.1 with
  | some node => .ok (some node, found.2)
  | none => depthFirstSearchRecursive g fn fuel found.2 child

theorem foldlM_searchChild {fn : INode → Bool}
    (hstep : ∀ seen, ∀ child ∈ g.nodes, (unseen g.nodes seen).length < fuel →
        ∃ found, depthFirstSearchRecursive g.graph fn fuel seen child
            = .ok found
          ∧ Found fn seen (visit g.children fuel seen child) found)
    {rest : List GraphConnection} (hrest : rest ⊆ g.connections)
    {start seen : List INode} {found : Option INode × List INode}
    (hfound : Found fn start seen found)
    (hfuel : (unseen g.nodes seen).length < fuel) :
    ∃ found', rest.foldlM (fun found c =>
        searchChild g.graph fn fuel found c.toNode) found = .ok found'
      ∧ Found fn start ((rest.map (·.toNode)).foldl (visit g.children fuel) seen) found' := by
  induction rest generalizing seen found with
  | nil => exact ⟨found, rfl, hfound⟩
  | cons c rest ih =>
    obtain ⟨hc, hrest⟩ := cons_subset.mp hrest
    have hprefix := prefix_visit g.children fuel seen c.toNode
    have hfuel' := Nat.lt_of_le_of_lt (length_unseen_le g.nodes hprefix) hfuel
    obtain ⟨new, hnew, hfirst⟩ := hfound.first
    rw [foldlM_cons, searchChild]
    rcases hnone : found.1 with _ | node
    · obtain ⟨next, hnext, hinner⟩ := hstep seen c.toNode (toNode_mem hc) hfuel
      rw [hfound.seen hnone, hnext]
      refine ih hrest ⟨?_, hinner.seen⟩ hfuel'
      obtain ⟨more, hmore, hfirst'⟩ := hinner.first
      refine ⟨new ++ more, ?_, ?_⟩
      · rw [hmore, hnew, append_assoc]
      · rw [find?_append, ← hfirst, hnone, Option.none_or, hfirst']
    · refine ih hrest ⟨?_, fun hsome => by cases hsome⟩ hfuel'
      obtain ⟨more, hmore⟩ := hprefix
      refine ⟨new ++ more, ?_, ?_⟩
      · rw [← hmore, hnew, append_assoc]
      · rw [find?_append, ← hfirst, hnone, Option.some_or]

variable {fromNode : INode}

theorem depthFirstSearchRecursive_ok (fn : INode → Bool)
    {seen : List INode} (hfrom : fromNode ∈ g.nodes)
    (hfuel : (unseen g.nodes seen).length < fuel) :
    ∃ found, depthFirstSearchRecursive g.graph fn fuel seen fromNode
        = .ok found
      ∧ Found fn seen (visit g.children fuel seen fromNode) found := by
  induction fuel generalizing seen fromNode with
  | zero => omega
  | succ fuel ih =>
    rw [depthFirstSearchRecursive, visit]
    by_cases hseen : fromNode ∈ seen
    · rw [if_pos hseen, if_pos hseen]
      exact ⟨_, rfl, ⟨[], (append_nil seen).symm, rfl⟩, fun _ => rfl⟩
    · have hlt := length_unseen_lt hfrom hseen prefix_rfl
      rw [if_neg hseen, if_neg hseen]
      by_cases hfn : fn fromNode = true
      · obtain ⟨more, hmore⟩ := prefix_foldl
          (prefix_visit g.children fuel) (seen ++ [fromNode]) (g.children fromNode)
        rw [if_pos hfn]
        refine ⟨_, rfl, ⟨fromNode :: more, ?_, ?_⟩, fun hsome => by cases hsome⟩
        · rw [← hmore, append_assoc, singleton_append]
        · rw [find?_cons_of_pos hfn]
      · rw [if_neg hfn, getDirectChildConnections_ok hfrom]
        refine foldlM_searchChild (fun seen child hchild hfuel =>
          ih hchild hfuel) (filter_subset_self _)
          ⟨⟨[fromNode], rfl, ?_⟩, fun _ => rfl⟩ (by omega)
        rw [find?_cons_of_neg hfn, find?_nil]

/-- **THE SEARCH** finds the first node in the order of the search. -/
theorem depthFirstSearch_ok (fn : INode → Bool) (hfrom : fromNode ∈ g.nodes) :
    depthFirstSearch g.graph fromNode fn = .ok ((g.preorder fromNode).find? fn) := by
  have hfuel : (unseen g.nodes []).length < depth g.graph :=
    Nat.lt_succ_of_lt (Nat.lt_succ_of_le (length_filter_le ..))
  obtain ⟨found, hfound, hfirst⟩ := depthFirstSearchRecursive_ok fn hfrom hfuel
  obtain ⟨new, hnew, hfind⟩ := hfirst.first
  rw [depthFirstSearch, hfound, preorder, hnew]
  exact congrArg Except.ok hfind

theorem mem_preorder {x : INode} (hfrom : fromNode ∈ g.nodes) :
    x ∈ g.preorder fromNode ↔ Reach g.children fromNode x := by
  have hmem : x ∈ [fromNode].foldl (visit g.children (depth g.graph)) []
      ↔ ∃ r ∈ [fromNode], Reach g.children r x :=
    mem_visitAll closed_children (cons_subset.mpr
      ⟨hfrom, nil_subset _⟩) (Nat.lt_succ_of_lt (Nat.lt_succ_self _))
  rw [preorder]
  simpa using hmem

end Graph

end N8nPartialGraph
