import N8n.OrderedMapProofs

/-! # Workflows — the edge list behind the two connection tables

    A workflow stores its edges twice: by the node they leave and by the
    node they enter.  Both tables are read here as lists of edges, so that
    "one is the transpose of the other" is a permutation of two lists.

    `mapConnectionsByDestination` builds the second table from the first by
    pushing every edge into the slot of its target; `edges_pushConnection`
    says what one push does, and the transpose follows by folding it. -/

namespace N8nWorkflow

open N8nOrderedMap List OrderedMap

inductive NodeConnectionType where
  | aiAgent | aiChain | aiDocument | aiEmbedding | aiLanguageModel
  | aiMemory | aiOutputParser | aiRetriever | aiReranker | aiTextSplitter
  | aiTool | aiVectorStore | main
deriving DecidableEq

/-- One end of a connection: a node, and an input or output of it. -/
structure IConnection where
  node : String
  type : NodeConnectionType
  index : Nat
deriving DecidableEq

/-- The connections at each input (or output) of one type; a slot can be
    `null`. -/
abbrev NodeInputConnections := List (Option (List IConnection))

abbrev INodeConnections := OrderedMap NodeConnectionType NodeInputConnections

abbrev IConnections := OrderedMap String INodeConnections

/-- A node with the fields the modelled code reads; its parameters are of
    any type. -/
structure INode (P : Type) where
  name : String
  type : String
  typeVersion : Nat
  position : Int × Int
  disabled : Bool
  parameters : P
  rewireOutputLogTo : Option NodeConnectionType
deriving DecidableEq

inductive ExecutionOrder where
  | v0 | v1
deriving DecidableEq

structure Workflow (P : Type) where
  nodes : OrderedMap String (INode P)
  connectionsBySourceNode : IConnections
  connectionsByDestinationNode : IConnections
  executionOrder : Option ExecutionOrder

/-! ## Tables as lists of edges -/

/-- An edge, from an output of a node to an input of a node. -/
structure Edge where
  source : IConnection
  target : IConnection
deriving DecidableEq

/-- The same edge read from its other end. -/
def Edge.flip (e : Edge) : Edge := { source := e.target, target := e.source }

/-- The edges at the slots `n`, `n + 1`, … of one type of one node. -/
def slotEdges (node : String) (type : NodeConnectionType) (n : Nat)
    (slots : NodeInputConnections) : List Edge :=
  (slots.zipIdx n).flatMap fun p =>
    (p.1.getD []).map fun c => ⟨⟨node, type, p.2⟩, c⟩

def nodeEdges (node : String) (byType : INodeConnections) : List Edge :=
  byType.entries.flatMap fun p => slotEdges node p.1 0 p.2

/-- The edges of a connection table, each read from the node it is stored
    under. -/
def edges (table : IConnections) : List Edge := table.entries.flatMap fun p => nodeEdges p.1 p.2

theorem slotEdges_cons (node : String) (type : NodeConnectionType) (n : Nat)
    (slot : Option (List IConnection)) (rest : NodeInputConnections) :
    slotEdges node type n (slot :: rest)
      = (slot.getD []).map (fun c => ⟨⟨node, type, n⟩, c⟩)
        ++ slotEdges node type (n + 1) rest := by
  rfl

/-! ## The table by destination -/

/-- `slots[index]?.push(c)`, after padding with empty slots so that the
    index exists. -/
def pushInput : NodeInputConnections → Nat → IConnection → NodeInputConnections
  | [], 0, c => [some [c]]
  | [], index + 1, c => some [] :: pushInput [] index c
  | slot :: rest, 0, c => slot.map (fun l => l ++ [c]) :: rest
  | slot :: rest, index + 1, c => slot :: pushInput rest index c

/-- The body of the innermost loop: create what is missing on the way to
    the slot of the edge's target, and push the source there. -/
def pushConnection (table : IConnections) (e : Edge) : IConnections :=
  let byType := (table.get? e.target.node).getD .empty
  let slots := (byType.get? e.target.type).getD []
  table.set e.target.node (byType.set e.target.type (pushInput slots e.target.index e.source))

def mapConnectionsByDestination (connections : IConnections) : IConnections :=
  connections.entries.foldl (fun table (sourceNode, byType) =>
    byType.entries.foldl (fun table (type, outputs) =>
      outputs.zipIdx.foldl (fun table (slot, inputIndex) =>
        (slot.getD []).foldl (fun table connectionInfo =>
          pushConnection table ⟨⟨sourceNode, type, inputIndex⟩, connectionInfo⟩)
          table) table) table) .empty

theorem mapConnectionsByDestination_eq_foldl (connections : IConnections) :
    mapConnectionsByDestination connections = (edges connections).foldl pushConnection .empty := by
  simp [mapConnectionsByDestination, edges, nodeEdges, slotEdges, foldl_flatMap, foldl_map]

/-! ## One push -/

/-- No slot of the table is `null`. -/
def AllSlots (table : IConnections) : Prop :=
  ∀ p ∈ table.entries, ∀ q ∈ p.2.entries, ∀ slot ∈ q.2, slot ≠ none

theorem pushInput_slots {slots : NodeInputConnections} {index : Nat}
    {c : IConnection} (h : ∀ slot ∈ slots, slot ≠ none) :
    ∀ slot ∈ pushInput slots index c, slot ≠ none := by
  induction index generalizing slots with
  | zero =>
    cases slots with
    | nil => simp [pushInput]
    | cons slot rest =>
      obtain ⟨hslot, hrest⟩ := forall_mem_cons.mp h
      refine forall_mem_cons.mpr ⟨?_, hrest⟩
      exact fun hnone => hslot (Option.map_eq_none_iff.mp hnone)
  | succ index ih =>
    cases slots with
    | nil =>
      refine forall_mem_cons.mpr ⟨Option.some_ne_none _, ?_⟩
      exact ih fun slot hmem => by cases hmem
    | cons slot rest =>
      obtain ⟨hslot, hrest⟩ := forall_mem_cons.mp h
      exact forall_mem_cons.mpr ⟨hslot, ih hrest⟩

theorem slotEdges_pushInput (node : String) (type : NodeConnectionType)
    (n : Nat) {slots : NodeInputConnections} (index : Nat) (c : IConnection)
    (h : ∀ slot ∈ slots, slot ≠ none) :
    (slotEdges node type n (pushInput slots index c)).Perm
      (⟨⟨node, type, n + index⟩, c⟩ :: slotEdges node type n slots) := by
  induction index generalizing slots n with
  | zero =>
    cases slots with
    | nil => exact List.Perm.refl _
    | cons slot rest =>
      cases slot with
      | none => exact absurd rfl (h none (mem_cons_self ..))
      | some l =>
        rw [pushInput, slotEdges_cons, slotEdges_cons]
        simp only [Option.map_some, Option.getD_some, map_append, map_cons,
          map_nil, append_assoc, singleton_append, Nat.add_zero]
        exact perm_middle
  | succ index ih =>
    have hn : n + (index + 1) = (n + 1) + index := by omega
    cases slots with
    | nil =>
      rw [pushInput, slotEdges_cons, hn]
      exact ih (n + 1) fun slot hmem => by cases hmem
    | cons slot rest =>
      rw [pushInput, slotEdges_cons, slotEdges_cons, hn]
      have hrest := ih (n + 1) (forall_mem_cons.mp h).2
      exact (hrest.append_left _).trans perm_middle

variable {table : IConnections}

theorem AllSlots.slots (h : AllSlots table) (node : String) (type : NodeConnectionType) :
    ∀ slot ∈ (((table.get? node).getD .empty).get? type).getD [], slot ≠ none := by
  intro slot hmem
  rcases hnode : table.get? node with _ | byType
  · rw [hnode] at hmem
    cases hmem
  · rw [hnode, Option.getD_some] at hmem
    rcases htype : byType.get? type with _ | slots
    · rw [htype] at hmem
      cases hmem
    · rw [htype, Option.getD_some] at hmem
      exact h (node, byType) (mem_of_findKey hnode) (type, slots) (mem_of_findKey htype) slot hmem

theorem allSlots_pushConnection (e : Edge)
    (h : AllSlots table) : AllSlots (pushConnection table e) := by
  intro p hp q hq
  rcases mem_entries_set.mp hp with rfl | ⟨hp, -⟩
  · rcases mem_entries_set.mp hq with rfl | ⟨hq, -⟩
    · exact pushInput_slots (h.slots e.target.node e.target.type)
    · rcases hnode : table.get? e.target.node with _ | byType
      · rw [hnode] at hq
        cases hq
      · rw [hnode, Option.getD_some] at hq
        exact h _ (mem_of_findKey hnode) q hq
  · exact h p hp q hq

theorem nodeEdges_push (node : String) (byType : INodeConnections) (type : NodeConnectionType)
    (index : Nat) (c : IConnection) (h : ∀ slot ∈ (byType.get? type).getD [], slot ≠ none) :
    (nodeEdges node (byType.set type (pushInput ((byType.get? type).getD []) index c))).Perm
      (⟨⟨node, type, index⟩, c⟩ :: nodeEdges node byType) := by
  have hset := flatMap_set byType type
    (pushInput ((byType.get? type).getD []) index c) (fun p => slotEdges node p.1 0 p.2)
  have hpush := slotEdges_pushInput node type 0 index c h
  rw [Nat.zero_add] at hpush
  refine hset.trans ((hpush.append_right _).trans ?_)
  refine List.Perm.cons _ ?_
  rcases htype : byType.get? type with _ | slots
  · rw [nodeEdges, flatMap_of_get?_none htype]
    exact List.Perm.refl _
  · exact (flatMap_of_get? htype (fun p => slotEdges node p.1 0 p.2)).symm

/-- **ONE PUSH**: the table gains the flipped edge and nothing else. -/
theorem edges_pushConnection (e : Edge) (h : AllSlots table) :
    (edges (pushConnection table e)).Perm (e.flip :: edges table) := by
  have hpush := nodeEdges_push e.target.node
    ((table.get? e.target.node).getD .empty) e.target.type e.target.index
    e.source (h.slots e.target.node e.target.type)
  refine (flatMap_set table _ _ _).trans ?_
  refine (hpush.append_right _).trans (List.Perm.cons _ ?_)
  rcases hnode : table.get? e.target.node with _ | byType
  · rw [edges, flatMap_of_get?_none hnode]
    exact List.Perm.refl _
  · exact (flatMap_of_get? hnode (fun p => nodeEdges p.1 p.2)).symm

/-- **THE TRANSPOSE**: the table by destination holds the edges of the table
    by source, each exactly as often, read from the other end. -/
theorem edges_mapConnectionsByDestination (connections : IConnections) :
    (edges (mapConnectionsByDestination connections)).Perm ((edges connections).map Edge.flip) := by
  have hfold : ∀ (l : List Edge) (table : IConnections), AllSlots table →
      (edges (l.foldl pushConnection table)).Perm (l.map Edge.flip ++ edges table) := by
    intro l
    induction l with
    | nil => exact fun table _ => List.Perm.refl _
    | cons e rest ih =>
      intro table h
      have hrest := ih (pushConnection table e) (allSlots_pushConnection e h)
      refine hrest.trans ?_
      refine ((edges_pushConnection e h).append_left _).trans ?_
      exact perm_middle
  rw [mapConnectionsByDestination_eq_foldl]
  have h := hfold (edges connections) .empty fun p hp => by cases hp
  rwa [show edges .empty = [] from rfl, append_nil] at h

/-! ## Building a workflow -/

namespace Workflow

variable {P : Type}

/-- The node map by name; of two nodes of one name the later one stays. -/
def setNodes (nodes : List (INode P)) : OrderedMap String (INode P) :=
  nodes.foldl (fun m node => m.set node.name node) .empty

/-- `setNodes` and `setConnections` of the constructor. -/
def new (nodes : List (INode P)) (connections : IConnections)
    (executionOrder : Option ExecutionOrder) : Workflow P :=
  { nodes := setNodes nodes
    connectionsBySourceNode := connections
    connectionsByDestinationNode := mapConnectionsByDestination connections
    executionOrder }

/-- Every node is stored under its own name, and the table by destination
    is the transpose of the table by source. -/
structure Consistent (w : Workflow P) : Prop where
  named : ∀ p ∈ w.nodes.entries, p.2.name = p.1
  transposed : (edges w.connectionsByDestinationNode).Perm
    ((edges w.connectionsBySourceNode).map Edge.flip)

theorem setNodes_named (nodes : List (INode P)) :
    ∀ p ∈ (setNodes nodes).entries, p.2.name = p.1 := by
  refine List.foldlRecOn
    (motive := fun m : OrderedMap String (INode P) =>
      ∀ p ∈ m.entries, p.2.name = p.1) nodes _ ?_ fun m h node _ p hp => ?_
  · intro p hp
    cases hp
  · rcases mem_entries_set.mp hp with rfl | ⟨hp, -⟩
    · rfl
    · exact h p hp

theorem new_consistent (nodes : List (INode P)) (connections : IConnections)
    (executionOrder : Option ExecutionOrder) :
    (new nodes connections executionOrder).Consistent :=
  { named := setNodes_named nodes
    transposed := edges_mapConnectionsByDestination connections }

end Workflow

end N8nWorkflow
