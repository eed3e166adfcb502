import Mathlib.Data.List.Induction
import N8n.RunProofs
import N8n.WorkflowProofs

/-! # Directed graphs and workflows

    A `DirectedGraph` keeps its connections under a key made of their parts,
    a `Workflow` keeps them in nested objects and sparse arrays.  The export
    and the import are followed here loop by loop, over objects that read
    inherited names and that list integer keys first, because this decides
    what the loops lose and where they throw.

    Both tables are read as lists of edges.  What the export writes is, in
    the order of its keys, a rearrangement of the connections of the graph
    (`edgesBy_toIConnections`), and the import adds those back. -/

namespace N8nDirectedGraph

open N8nRun N8nOrderedMap List OrderedMap
open N8nWorkflow (NodeConnectionType IConnection IConnections Edge
  pushConnection)

/-! ## Keys of objects and arrays -/

/-- The numbers below are the indices of an array. -/
def arrayIndexLimit : Nat := 4294967295

/-- The number a key stands for, if it is an index. -/
def arrayIndex? (key : String) : Option Nat :=
  key.toNat?.filter fun n => n < arrayIndexLimit && toString n = key

/-- The keys of an object in the order of `Object.keys`: indices first, by
    their size, then the others as they were inserted. -/
def propertyOrder (keys : List String) : List String :=
  (keys.filter fun key => (arrayIndex? key).isSome).mergeSort
      (fun a b => (arrayIndex? a).getD 0 ≤ (arrayIndex? b).getD 0)
    ++ keys.filter fun key => !(arrayIndex? key).isSome

/-- The indices that `array.entries()` visits. -/
def elementOrder (keys : List Nat) : List Nat :=
  (keys.filter (· < arrayIndexLimit)).mergeSort (· ≤ ·)

/-- The keys of an array in the order of `for … in`: its indices, then what
    are only properties of it. -/
def forInOrder (keys : List Nat) : List Nat :=
  elementOrder keys ++ keys.filter fun key => !(key < arrayIndexLimit : Bool)

/-- The names every object inherits. -/
def objectPrototype : List String :=
  ["constructor", "__defineGetter__", "__defineSetter__", "hasOwnProperty",
    "__lookupGetter__", "__lookupSetter__", "isPrototypeOf",
    "propertyIsEnumerable", "toString", "valueOf", "__proto__", "toLocaleString"]

inductive GraphError where
  | assertionError | typeError | rangeError
deriving DecidableEq

/-! ## The graph -/

/-- A node object: its identity, and its name. -/
structure INode where
  ref : Nat
  name : String
deriving DecidableEq

structure GraphConnection where
  fromNode : INode
  toNode : INode
  type : NodeConnectionType
  outputIndex : Nat
  inputIndex : Nat
deriving DecidableEq

structure ConnectionInput where
  fromNode : INode
  toNode : INode
  type : Option NodeConnectionType
  outputIndex : Option Nat
  inputIndex : Option Nat

def ConnectionInput.connection (c : ConnectionInput) : GraphConnection :=
  { fromNode := c.fromNode, toNode := c.toNode
    type := c.type.getD .main
    outputIndex := c.outputIndex.getD 0
    inputIndex := c.inputIndex.getD 0 }

/-- The text of a connection type. -/
def typeName : NodeConnectionType → String
  | .aiAgent => "ai_agent"
  | .aiChain => "ai_chain"
  | .aiDocument => "ai_document"
  | .aiEmbedding => "ai_embedding"
  | .aiLanguageModel => "ai_languageModel"
  | .aiMemory => "ai_memory"
  | .aiOutputParser => "ai_outputParser"
  | .aiRetriever => "ai_retriever"
  | .aiReranker => "ai_reranker"
  | .aiTextSplitter => "ai_textSplitter"
  | .aiTool => "ai_tool"
  | .aiVectorStore => "ai_vectorStore"
  | .main => "main"

/-- `fromName-outputType-outputIndex-inputIndex-toName`. -/
def makeKey (c : GraphConnection) : String :=
  c.fromNode.name ++ "-" ++ typeName c.type ++ "-" ++ toString c.outputIndex
    ++ "-" ++ toString c.inputIndex ++ "-" ++ c.toNode.name

structure DirectedGraph where
  nodes : OrderedMap String INode
  connections : OrderedMap String GraphConnection

namespace DirectedGraph

def empty : DirectedGraph := { nodes := .empty, connections := .empty }

def getNodes (g : DirectedGraph) : List INode := g.nodes.entries.map Prod.snd

def getConnections (g : DirectedGraph) : List GraphConnection := g.connections.entries.map Prod.snd

def addNode (g : DirectedGraph) (node : INode) : DirectedGraph :=
  { g with nodes := g.nodes.set node.name node }

def addNodes (g : DirectedGraph) (nodes : List INode) : DirectedGraph := nodes.foldl addNode g

/-- `removeNode(node)`, which reconnects nothing. -/
def removeNode (g : DirectedGraph) (node : INode) : DirectedGraph :=
  { nodes := g.nodes.delete node.name
    connections := g.connections.filter fun p =>
      !(p.2.toNode = node || p.2.fromNode = node) }

/-- The node is the one the graph has under its name. -/
def owns (g : DirectedGraph) (node : INode) : Bool := g.nodes.get? node.name = some node

def addConnection (g : DirectedGraph) (c : ConnectionInput) : Except GraphError DirectedGraph :=
  if g.owns c.fromNode && g.owns c.toNode then
    .ok { g with
      connections := g.connections.set (makeKey c.connection) c.connection }
  else .error .assertionError

end DirectedGraph

/-! ## The export -/

/-- A sparse array, by its keys. -/
abbrev SparseArray := OrderedMap Nat

abbrev OutputConnections := OrderedMap NodeConnectionType (SparseArray (List IConnection))

/-- The connections by source node. -/
abbrev SourceTable := OrderedMap String OutputConnections

/-- The body of the loop of `toIConnections`.  A name that is not a key of
    the object may still be inherited; what is found there has no output
    types. -/
def exportConnection (result : SourceTable) (c : GraphConnection) : Except GraphError SourceTable :=
  let found : Option OutputConnections :=
    match result.get? c.fromNode.name with
    | some resultConnection => some resultConnection
    | none =>
      if c.fromNode.name ∈ objectPrototype then none
      else some (OrderedMap.empty.set c.type .empty)
  match found.bind fun byType =>
      (byType.get? c.type).map fun outputs => (byType, outputs) with
  | none => .error .typeError
  | some (resultConnection, outputs) =>
    let group := (outputs.get? c.outputIndex).getD []
    let outputs := outputs.set c.outputIndex (group ++
      [{ node := c.toNode.name, type := c.type, index := c.inputIndex }])
    .ok (result.set c.fromNode.name (resultConnection.set c.type outputs))

def toIConnections (g : DirectedGraph) : Except GraphError SourceTable :=
  g.getConnections.foldlM exportConnection .empty

/-- The edges of the table in the order nested loops visit them, where the
    keys of an array are visited in the order given. -/
def edgesBy (order : List Nat → List Nat) (table : SourceTable) : List Edge :=
  (propertyOrder table.keys).flatMap fun sourceNode =>
    ((table.get? sourceNode).getD .empty).entries.flatMap fun (type, outputs) =>
      (order outputs.keys).flatMap fun index =>
        ((outputs.get? index).getD []).map fun c =>
          ⟨⟨sourceNode, type, index⟩, c⟩

/-- One `push` of `mapConnectionsByDestination`.  The table is asked for
    `hasOwnProperty`, which a node of that name hides; an array cannot grow
    past its last index; and what is pushed under `__proto__` is no entry of
    the table. -/
def pushSource (table : IConnections) (e : Edge) : Except GraphError IConnections :=
  if table.has "hasOwnProperty" then .error .typeError
  else if arrayIndexLimit ≤ e.target.index then .error .rangeError
  else if e.target.node = "__proto__" then .ok table
  else .ok (pushConnection table e)

def mapConnectionsByDestination (connections : SourceTable) : Except GraphError IConnections :=
  (edgesBy forInOrder connections).foldlM pushSource .empty

/-- The nodes by name; one named `__proto__` becomes the prototype of the
    object. -/
structure INodes where
  own : OrderedMap String INode
  prototype : Option INode

structure Workflow where
  nodes : INodes
  connectionsBySourceNode : SourceTable
  connectionsByDestinationNode : IConnections

namespace Workflow

def setNode (nodes : INodes) (node : INode) : INodes :=
  if node.name = "__proto__" then { nodes with prototype := some node }
  else { nodes with own := nodes.own.set node.name node }

def setNodes (nodes : List INode) : INodes :=
  nodes.foldl setNode { own := .empty, prototype := none }

/-- The constructor, with what it does to the nodes and connections. -/
def new (nodes : List INode) (connections : SourceTable) :
    Except GraphError Workflow := do
  let connectionsByDestinationNode ← mapConnectionsByDestination connections
  return { nodes := setNodes nodes
           connectionsBySourceNode := connections
           connectionsByDestinationNode }

/-- `getNode(nodeName)`; what else an object inherits is no node, and fails
    the assertions on it just as `null` does. -/
def getNode (w : Workflow) (nodeName : String) : Option INode :=
  if nodeName = "__proto__" then w.nodes.prototype
  else w.nodes.own.get? nodeName

def nodeValues (w : Workflow) : List INode :=
  (propertyOrder w.nodes.own.keys).filterMap w.nodes.own.get?

end Workflow

def DirectedGraph.toWorkflow (g : DirectedGraph) :
    Except GraphError Workflow := do
  let connections ← toIConnections g
  Workflow.new g.getNodes connections

/-! ## The import -/

/-- The innermost body of the loops of `fromWorkflow`. -/
def importConnection (w : Workflow) (graph : DirectedGraph) (e : Edge) :
    Except GraphError DirectedGraph :=
  match w.getNode e.source.node, w.getNode e.target.node with
  | some fromNode, some toNode =>
    graph.addConnection
      { fromNode, toNode
        type := some e.source.type
        outputIndex := some e.source.index
        inputIndex := some e.target.index }
  | _, _ => .error .assertionError

def fromWorkflow (w : Workflow) : Except GraphError DirectedGraph :=
  (edgesBy elementOrder w.connectionsBySourceNode).foldlM (importConnection w)
  (DirectedGraph.empty.addNodes w.nodeValues)

/-! ## Orders of keys -/

theorem propertyOrder_perm (keys : List String) : (propertyOrder keys).Perm keys :=
  ((mergeSort_perm ..).append_right _).trans (filter_append_perm _ keys)

theorem mem_propertyOrder {key : String} {keys : List String} :
    key ∈ propertyOrder keys ↔ key ∈ keys :=
  (propertyOrder_perm keys).mem_iff

theorem mem_elementOrder {index : Nat} {keys : List Nat} :
    index ∈ elementOrder keys ↔ index ∈ keys ∧ index < arrayIndexLimit := by
  rw [elementOrder, mem_mergeSort, mem_filter, decide_eq_true_iff]

theorem forInOrder_perm (keys : List Nat) : (forInOrder keys).Perm keys :=
  ((mergeSort_perm ..).append_right _).trans (filter_append_perm _ keys)

theorem mem_forInOrder {index : Nat} {keys : List Nat} :
    index ∈ forInOrder keys ↔ index ∈ keys := (forInOrder_perm keys).mem_iff

variable {α : Type}

theorem eraseDups_concat [BEq α] [LawfulBEq α] (l : List α) (a : α) : (l ++ [a]).eraseDups
      = if l.contains a then l.eraseDups else l.eraseDups ++ [a] := by
  rw [eraseDups_append, List.removeAll]
  by_cases h : l.contains a
  · rw [if_pos h, filter_cons_of_neg (by simpa using h)]
    exact append_nil _
  · rw [if_neg h, filter_cons_of_pos (by simpa using h)]
    rfl

/-! ## What the export writes -/

/-- The sources of the connections, each once. -/
def sources (l : List GraphConnection) : List String := (l.map (·.fromNode.name)).eraseDups

/-- The connections that leave a node of the name. -/
def leaving (sourceNode : String) (l : List GraphConnection) : List GraphConnection :=
  l.filter (·.fromNode.name = sourceNode)

/-- The outputs of the connections, each once. -/
def outputs (l : List GraphConnection) : List Nat := (l.map (·.outputIndex)).eraseDups

/-- The connections by source and output. -/
def visitOrder (order : List Nat → List Nat) (l : List GraphConnection) : List GraphConnection :=
  (propertyOrder (sources l)).flatMap fun sourceNode =>
    (order (outputs (leaving sourceNode l))).flatMap fun index =>
      (leaving sourceNode l).filter (·.outputIndex = index)

def GraphConnection.input (c : GraphConnection) : IConnection :=
  { node := c.toNode.name, type := c.type, index := c.inputIndex }

def GraphConnection.edge (c : GraphConnection) : Edge :=
  ⟨⟨c.fromNode.name, c.type, c.outputIndex⟩, c.input⟩

/-- The export does not throw on the connections. -/
structure Exports (l : List GraphConnection) : Prop where
  inherited : ∀ c ∈ l, c.fromNode.name ∉ objectPrototype
  types : ∀ c ∈ l, ∀ d ∈ l, c.fromNode.name = d.fromNode.name → c.type = d.type

/-- The entry of one source holds its connections. -/
def HoldsLeaving (l : List GraphConnection) (type : NodeConnectionType)
    (byOutput : SparseArray (List IConnection)) : Prop :=
  byOutput.keys = outputs l ∧ (∀ c ∈ l, c.type = type)
    ∧ ∀ index, (byOutput.get? index).getD []
      = (l.filter (·.outputIndex = index)).map GraphConnection.input

structure Exported (l : List GraphConnection) (table : SourceTable) :
    Prop where
  keys : table.keys = sources l
  entry : ∀ sourceNode byType, table.get? sourceNode = some byType →
    ∃ type byOutput, byType.entries = [(type, byOutput)]
      ∧ HoldsLeaving (leaving sourceNode l) type byOutput

variable {l : List GraphConnection}

theorem mem_sources {sourceNode : String} :
    sourceNode ∈ sources l ↔ ∃ c ∈ l, c.fromNode.name = sourceNode := by
  rw [sources, mem_eraseDups, mem_map]

variable {c : GraphConnection}

theorem mem_leaving {sourceNode : String} :
    c ∈ leaving sourceNode l ↔ c ∈ l ∧ c.fromNode.name = sourceNode := by
  rw [leaving, mem_filter, decide_eq_true_iff]

theorem mem_visitOrder {order : List Nat → List Nat} :
    c ∈ visitOrder order l ↔ c ∈ l
      ∧ c.outputIndex ∈ order (outputs (leaving c.fromNode.name l)) := by
  simp only [visitOrder, mem_flatMap, mem_filter, mem_leaving,
    mem_propertyOrder, mem_sources, decide_eq_true_iff]
  constructor
  · rintro ⟨sourceNode, -, index, hindex, ⟨hc, rfl⟩, rfl⟩
    exact ⟨hc, hindex⟩
  · rintro ⟨hc, hindex⟩
    exact ⟨_, ⟨c, hc, rfl⟩, _, hindex, ⟨hc, rfl⟩, rfl⟩

theorem output_mem (hc : c ∈ l) : c.outputIndex ∈ outputs (leaving c.fromNode.name l) := by
  rw [outputs, mem_eraseDups]
  exact mem_map_of_mem (mem_leaving.mpr ⟨hc, rfl⟩)

variable {table : SourceTable}

/-- **THE EXPORT**: read in any order of the outputs, the table holds the
    connections. -/
theorem edgesBy_of_exported (h : Exported l table) (order : List Nat → List Nat) :
    edgesBy order table = (visitOrder order l).map GraphConnection.edge := by
  rw [edgesBy, visitOrder, h.keys, map_flatMap]
  refine flatMap_congr fun sourceNode hsource => ?_
  rw [mem_propertyOrder, ← h.keys] at hsource
  obtain ⟨byType, hget⟩ := exists_get? hsource
  obtain ⟨type, byOutput, hentries, hkeys, htypes, hgroups⟩ := h.entry sourceNode byType hget
  rw [hget, Option.getD_some, hentries, flatMap_singleton]
  dsimp only
  rw [hkeys, map_flatMap]
  refine flatMap_congr fun index _ => ?_
  rw [hgroups, map_map]
  refine map_congr_left fun c hc => ?_
  obtain ⟨hc, hindex⟩ := mem_filter.mp hc
  obtain ⟨-, hname⟩ := mem_leaving.mp hc
  rw [decide_eq_true_iff] at hindex
  rw [GraphConnection.edge, hname, hindex, htypes c hc]
  rfl

/-! ## The loop of the export -/

theorem sources_concat (l : List GraphConnection) (c : GraphConnection) :
    sources (l ++ [c]) = if c.fromNode.name ∈ sources l then sources l
      else sources l ++ [c.fromNode.name] := by
  rw [sources, map_append, map_singleton, eraseDups_concat]
  simp only [contains_iff_mem, sources, mem_eraseDups]

theorem leaving_concat (sourceNode : String) (l : List GraphConnection) (c : GraphConnection) :
    leaving sourceNode (l ++ [c])
      = if c.fromNode.name = sourceNode then leaving sourceNode l ++ [c]
        else leaving sourceNode l := by
  rw [leaving, filter_append]
  by_cases h : c.fromNode.name = sourceNode
  · rw [if_pos h, filter_cons_of_pos (by simpa using h)]
    rfl
  · rw [if_neg h, filter_cons_of_neg (by simpa using h)]
    exact append_nil _

theorem holdsLeaving_nil (type : NodeConnectionType) : HoldsLeaving [] type .empty :=
  ⟨rfl, fun _ hc => (by cases hc), fun _ => rfl⟩

theorem HoldsLeaving.push {byOutput : SparseArray (List IConnection)}
    (h : HoldsLeaving l c.type byOutput) :
    HoldsLeaving (l ++ [c]) c.type (byOutput.set c.outputIndex
      ((byOutput.get? c.outputIndex).getD [] ++ [c.input])) := by
  obtain ⟨hkeys, htypes, hgroups⟩ := h
  refine ⟨?_, ?_, ?_⟩
  · rw [keys_set, hkeys, outputs, outputs, map_append, map_singleton, eraseDups_concat]
    simp only [contains_iff_mem, mem_eraseDups]
  · intro d hd
    rcases mem_append.mp hd with hd | hd
    · exact htypes d hd
    · rw [mem_singleton.mp hd]
  · intro index
    rw [get?_set, filter_append, map_append]
    by_cases hindex : c.outputIndex = index
    · rw [if_pos hindex, Option.getD_some, hindex, hgroups,
        filter_cons_of_pos (by simpa using hindex)]
      rfl
    · rw [if_neg hindex, hgroups, filter_cons_of_neg (by simpa using hindex)]
      exact (append_nil _).symm

theorem Exported.concat (h : Exported l table) {byOutput : SparseArray (List IConnection)}
    (hholds : HoldsLeaving (leaving c.fromNode.name l) c.type byOutput)
    {byType : OutputConnections}
    (hentries : byType.entries = [(c.type, byOutput.set c.outputIndex
      ((byOutput.get? c.outputIndex).getD [] ++ [c.input]))]) :
    Exported (l ++ [c]) (table.set c.fromNode.name byType) := by
  constructor
  · rw [keys_set, h.keys, sources_concat]
  · intro sourceNode x hx
    rw [get?_set] at hx
    rw [leaving_concat]
    split at hx
    · next hname =>
        cases hx
        rw [if_pos hname]
        rw [hname] at hholds
        exact ⟨_, _, hentries, hholds.push⟩
    · next hname =>
        rw [if_neg hname]
        exact h.entry sourceNode x hx

theorem Exports.concat :
    Exports (l ++ [c]) ↔ Exports l ∧ c.fromNode.name ∉ objectPrototype
      ∧ ∀ d ∈ leaving c.fromNode.name l, d.type = c.type := by
  constructor
  · intro h
    have hlast : c ∈ l ++ [c] := mem_append_right _ (mem_singleton.mpr rfl)
    refine ⟨⟨?_, ?_⟩, h.inherited c hlast, ?_⟩
    · intro d hd
      exact h.inherited d (mem_append_left _ hd)
    · intro d hd e he
      exact h.types d (mem_append_left _ hd) e (mem_append_left _ he)
    · intro d hd
      obtain ⟨hd, hname⟩ := mem_leaving.mp hd
      exact h.types d (mem_append_left _ hd) c hlast hname
  · rintro ⟨h, hinherited, htypes⟩
    constructor
    · intro d hd
      rcases mem_append.mp hd with hd | hd
      · exact h.inherited d hd
      · rw [mem_singleton.mp hd]
        exact hinherited
    · intro d hd e he hname
      rcases mem_append.mp hd with hd | hd <;>
        rcases mem_append.mp he with he | he
      · exact h.types d hd e he hname
      · rw [mem_singleton.mp he] at hname ⊢
        exact htypes d (mem_leaving.mpr ⟨hd, hname⟩)
      · rw [mem_singleton.mp hd] at hname ⊢
        exact (htypes e (mem_leaving.mpr ⟨he, hname.symm⟩)).symm
      · rw [mem_singleton.mp hd, mem_singleton.mp he]

/-- One pass of the loop: it writes the connection, or throws where its
    source is an inherited name or has another output type. -/
theorem exportConnection_spec (h : Exported l table) (hexports : Exports l) (c : GraphConnection) :
    (∃ table', exportConnection table c = .ok table'
        ∧ Exported (l ++ [c]) table'
        ∧ c.fromNode.name ∉ objectPrototype
        ∧ ∀ d ∈ leaving c.fromNode.name l, d.type = c.type)
      ∨ (exportConnection table c = .error .typeError
        ∧ ¬ (c.fromNode.name ∉ objectPrototype
          ∧ ∀ d ∈ leaving c.fromNode.name l, d.type = c.type)) := by
  rcases hget : table.get? c.fromNode.name with _ | byType
  · have hempty : leaving c.fromNode.name l = [] := by
      refine eq_nil_iff_forall_not_mem.mpr fun d hd => ?_
      obtain ⟨hd, hname⟩ := mem_leaving.mp hd
      refine get?_eq_none.mp hget ?_
      rw [h.keys]
      exact mem_sources.mpr ⟨d, hd, hname⟩
    by_cases hproto : c.fromNode.name ∈ objectPrototype
    · refine .inr ⟨?_, fun hgood => hgood.1 hproto⟩
      simp [exportConnection, hget, hproto]
    · refine .inl ⟨table.set c.fromNode.name
        ((OrderedMap.empty.set c.type .empty).set c.type
          (OrderedMap.empty.set c.outputIndex [c.input])), ?_, ?_, hproto, ?_⟩
      · have hnew : (OrderedMap.empty.set c.type .empty
            : OutputConnections).get? c.type = some .empty := by
          rw [get?_set, if_pos rfl]
        simp only [exportConnection, hget, if_neg hproto, Option.bind_some, hnew, Option.map_some]
        rfl
      · have hnone : HoldsLeaving (leaving c.fromNode.name l) c.type .empty := by
          rw [hempty]
          exact holdsLeaving_nil c.type
        refine h.concat hnone ?_
        rw [OrderedMap.set_set]
        rfl
      · rw [hempty]
        intro d hd
        cases hd
  · obtain ⟨type, byOutput, hentries, hholds⟩ := h.entry _ byType hget
    have hsource : ∃ d ∈ l, d.fromNode.name = c.fromNode.name := by
      refine mem_sources.mp ?_
      rw [← h.keys]
      exact mem_keys_of_get? hget
    obtain ⟨d, hd, hname⟩ := hsource
    have hproto : c.fromNode.name ∉ objectPrototype := by
      rw [← hname]
      exact hexports.inherited d hd
    have htype : byType.get? c.type = if type = c.type then some byOutput else none := by
      rw [OrderedMap.get?, hentries, findKey, findKey]
    by_cases hc : type = c.type
    · subst hc
      refine .inl ⟨table.set c.fromNode.name (byType.set c.type
        (byOutput.set c.outputIndex
          ((byOutput.get? c.outputIndex).getD [] ++ [c.input]))), ?_, ?_, hproto, hholds.2.1⟩
      · simp [exportConnection, hget, htype, GraphConnection.input]
      · refine h.concat hholds ?_
        show setEntry _ _ byType.entries = _
        rw [hentries, setEntry, if_pos rfl]
    · rw [if_neg hc] at htype
      refine .inr ⟨?_, fun hgood => hc ?_⟩
      · simp [exportConnection, hget, htype]
      · have hleaving := mem_leaving.mpr ⟨hd, hname⟩
        exact (hholds.2.1 d hleaving).symm.trans (hgood.2 d hleaving)

theorem toIConnections_spec (l : List GraphConnection) :
    (∃ table, l.foldlM exportConnection .empty = .ok table
        ∧ Exported l table ∧ Exports l)
      ∨ (l.foldlM exportConnection .empty = .error .typeError ∧ ¬ Exports l) := by
  induction l using List.reverseRecOn with
  | nil =>
    refine .inl ⟨.empty, rfl, ⟨rfl, ?_⟩, ⟨?_, ?_⟩⟩
    · intro sourceNode byType hget
      cases hget
    · intro c hc
      cases hc
    · intro c hc
      cases hc
  | append_singleton l c ih =>
    rw [foldlM_append, Exports.concat]
    rcases ih with ⟨table, hfold, hexported, hexports⟩ | ⟨hfold, hnot⟩
    · rw [hfold]
      rcases exportConnection_spec hexported hexports c with
        ⟨table', hstep, hexported', hgood⟩ | ⟨hstep, hbad⟩
      · refine .inl ⟨table', ?_, hexported', hexports, hgood⟩
        show (exportConnection table c).bind _ = _
        rw [hstep]
        rfl
      · refine .inr ⟨?_, fun hall => hbad hall.2⟩
        show (exportConnection table c).bind _ = _
        rw [hstep]
        rfl
    · rw [hfold]
      exact .inr ⟨rfl, fun hall => hnot hall.1⟩

/-! ## The table by destination -/

/-- Only the last of the edges may end in a node named `hasOwnProperty`. -/
def HidesLast (l : List GraphConnection) : Prop :=
  l.Pairwise fun c _ => c.toNode.name ≠ "hasOwnProperty"

theorem hidesLast_of_forall (order : List Nat → List Nat)
    (h : ∀ c ∈ l, c.toNode.name ≠ "hasOwnProperty") :
    HidesLast (visitOrder order l) := by
  refine pairwise_iff_forall_sublist.mpr fun {c d} hsub => ?_
  have hc : c ∈ visitOrder order l := hsub.subset (mem_cons_self ..)
  exact h c (mem_visitOrder.mp hc).1

theorem has_pushConnection (table : IConnections) (e : Edge) (name : String) :
    (pushConnection table e).has name = (e.target.node = name || table.has name : Bool) := by
  rw [pushConnection, OrderedMap.has, get?_set]
  by_cases h : e.target.node = name
  · simp [h]
  · simp [h, OrderedMap.has]

/-- The pushes succeed as long as no node of the name `hasOwnProperty` gets
    its entry in front of another one, and the indices are those of arrays. -/
theorem foldlM_pushSource (l : List GraphConnection) (table : IConnections) :
    (∃ table', (l.map GraphConnection.edge).foldlM pushSource table
        = .ok table')
      ↔ (l = [] ∨ table.has "hasOwnProperty" = false)
        ∧ (∀ c ∈ l, c.inputIndex < arrayIndexLimit) ∧ HidesLast l := by
  induction l generalizing table with
  | nil =>
    constructor
    · intro _
      exact ⟨.inl rfl, fun c hc => (by cases hc), List.Pairwise.nil⟩
    · intro _
      exact ⟨table, rfl⟩
  | cons c rest ih =>
    rw [map_cons, foldlM_cons, HidesLast, pairwise_cons, forall_mem_cons]
    by_cases hhas : table.has "hasOwnProperty" = true
    · constructor
      · rintro ⟨table', hok⟩
        rw [pushSource, if_pos hhas] at hok
        cases hok
      · rintro ⟨hor, -⟩
        rw [hhas] at hor
        rcases hor with hnil | hno
        · cases hnil
        · cases hno
    · by_cases hindex : c.inputIndex < arrayIndexLimit
      · -- The push succeeds, and the rest goes on from its table.
        obtain ⟨table', hstep, hnext⟩ : ∃ table', pushSource table c.edge = .ok table'
              ∧ table'.has "hasOwnProperty" = decide (c.toNode.name = "hasOwnProperty") := by
          have hle : ¬ arrayIndexLimit ≤ c.edge.target.index := Nat.not_le.mpr hindex
          have hno : table.has "hasOwnProperty" = false := by
            simpa using hhas
          rw [pushSource, if_neg hhas, if_neg hle]
          by_cases hproto : c.edge.target.node = "__proto__"
          · rw [if_pos hproto]
            refine ⟨table, rfl, ?_⟩
            have hname : c.toNode.name = "__proto__" := hproto
            rw [hno, hname]
            decide
          · rw [if_neg hproto]
            refine ⟨_, rfl, ?_⟩
            rw [has_pushConnection, hno, Bool.or_false]
            rfl
        have hrest := ih table'
        rw [hstep]
        refine Iff.trans hrest ?_
        rw [hnext]
        constructor
        · rintro ⟨hor, hindices, hpair⟩
          refine ⟨.inr (by simpa using hhas), ⟨hindex, hindices⟩, ?_, hpair⟩
          intro d hd
          rcases hor with rfl | hname
          · cases hd
          · simpa using hname
        · rintro ⟨-, ⟨-, hindices⟩, hlast, hpair⟩
          refine ⟨?_, hindices, hpair⟩
          rcases rest with _ | ⟨d, rest⟩
          · exact .inl rfl
          · have hname := hlast d (mem_cons_self ..)
            exact .inr (by simpa using hname)
      · constructor
        · rintro ⟨table', hok⟩
          have hle : arrayIndexLimit ≤ c.edge.target.index := Nat.not_lt.mp hindex
          rw [pushSource, if_neg hhas, if_pos hle] at hok
          cases hok
        · rintro ⟨-, ⟨hlt, -⟩, -⟩
          exact absurd hlt hindex

/-! ## Maps of values under their own keys -/

theorem get?_foldl_set (key : α → String) {l : List α}
    (hinj : ∀ a ∈ l, ∀ b ∈ l, key a = key b → a = b) {k : String} {a : α} :
    (l.foldl (fun m a => m.set (key a) a) (OrderedMap.empty : OrderedMap String α)).get? k = some a
      ↔ a ∈ l ∧ key a = k := by
  induction l using List.reverseRecOn with
  | nil =>
    constructor
    · intro h
      cases h
    · rintro ⟨h, -⟩
      cases h
  | append_singleton l b ih =>
    have hold := ih fun x hx y hy => hinj x (mem_append_left _ hx) y (mem_append_left _ hy)
    rw [foldl_append, foldl_cons, foldl_nil, get?_set, mem_append, mem_singleton]
    constructor
    · intro h
      split at h
      · next hb =>
          cases h
          exact ⟨.inr rfl, hb⟩
      · obtain ⟨ha, hk⟩ := hold.mp h
        exact ⟨.inl ha, hk⟩
    · rintro ⟨ha, hk⟩
      by_cases hb : key b = k
      · rw [if_pos hb]
        have hsame : a = b := by
          rcases ha with ha | ha
          · exact hinj a (mem_append_left _ ha) b
              (mem_append_right _ (mem_singleton.mpr rfl)) (hk.trans hb.symm)
          · exact ha
        rw [hsame]
      · rw [if_neg hb]
        refine hold.mpr ⟨?_, hk⟩
        rcases ha with ha | ha
        · exact ha
        · rw [ha] at hk
          exact absurd hk hb

theorem mem_values_iff (key : α → String) {m : OrderedMap String α}
    (hkeyed : ∀ k a, m.get? k = some a → key a = k) {a : α} :
    a ∈ m.entries.map Prod.snd ↔ m.get? (key a) = some a := by
  constructor
  · intro h
    obtain ⟨⟨k, x⟩, hmem, rfl⟩ := mem_map.mp h
    have hget := get?_eq_some.mpr hmem
    rw [hkeyed k x hget]
    exact hget
  · intro h
    exact mem_map_of_mem (f := Prod.snd) (get?_eq_some.mp h)

theorem mem_values_foldl_set (key : α → String) {l : List α}
    (hinj : ∀ a ∈ l, ∀ b ∈ l, key a = key b → a = b) {a : α} :
    a ∈ (l.foldl (fun m a => m.set (key a) a)
        (OrderedMap.empty : OrderedMap String α)).entries.map Prod.snd
      ↔ a ∈ l := by
  rw [mem_values_iff key fun k b hb => ((get?_foldl_set key hinj).mp hb).2, get?_foldl_set key hinj]
  exact and_iff_left rfl

/-! ## Graphs with nodes and connections of their own -/

/-- The connections of the graph are between its own nodes. -/
def OwnNodes (g : DirectedGraph) : Prop :=
  ∀ c ∈ g.getConnections, g.owns c.fromNode = true ∧ g.owns c.toNode = true

instance (g : DirectedGraph) : Decidable (OwnNodes g) :=
  inferInstanceAs (Decidable (∀ c ∈ g.getConnections,
    g.owns c.fromNode = true ∧ g.owns c.toNode = true))

/-- Nodes are stored under their names, connections under their keys. -/
structure Keyed (g : DirectedGraph) : Prop where
  nodes : ∀ name node, g.nodes.get? name = some node → node.name = name
  connections : ∀ key c, g.connections.get? key = some c → makeKey c = key

section

variable {g : DirectedGraph}

theorem Keyed.mem_getNodes (h : Keyed g) {node : INode} :
    node ∈ g.getNodes ↔ g.nodes.get? node.name = some node :=
  mem_values_iff INode.name h.nodes

theorem Keyed.mem_getConnections (h : Keyed g) {c : GraphConnection} :
    c ∈ g.getConnections ↔ g.connections.get? (makeKey c) = some c :=
  mem_values_iff makeKey h.connections

theorem Keyed.eq_of_name (h : Keyed g) :
    ∀ a ∈ g.getNodes, ∀ b ∈ g.getNodes, a.name = b.name → a = b := by
  intro a ha b hb hname
  have hget := h.mem_getNodes.mp hb
  rw [← hname, h.mem_getNodes.mp ha] at hget
  exact Option.some.inj hget

theorem Keyed.eq_of_makeKey (h : Keyed g) :
    ∀ c ∈ g.getConnections, ∀ d ∈ g.getConnections, makeKey c = makeKey d → c = d := by
  intro c hc d hd hkey
  have hget := h.mem_getConnections.mp hd
  rw [← hkey, h.mem_getConnections.mp hc] at hget
  exact Option.some.inj hget

end

/-! ## The nodes of the workflow -/

theorem setNodes_concat (l : List INode) (a : INode) :
    Workflow.setNodes (l ++ [a]) = Workflow.setNode (Workflow.setNodes l) a := by
  rw [Workflow.setNodes, foldl_append]
  rfl

theorem own_setNodes (l : List INode) : (Workflow.setNodes l).own
    = (l.filter (·.name ≠ "__proto__")).foldl (fun m a => m.set a.name a) .empty := by
  induction l using List.reverseRecOn with
  | nil => rfl
  | append_singleton l a ih =>
    rw [setNodes_concat, Workflow.setNode, filter_append]
    by_cases ha : a.name = "__proto__"
    · rw [if_pos ha, filter_cons_of_neg (by simpa using ha), filter_nil, append_nil]
      exact ih
    · rw [if_neg ha, filter_cons_of_pos (by simpa using ha), foldl_append]
      exact congrArg (OrderedMap.set · a.name a) ih

theorem prototype_setNodes {l : List INode}
    (hinj : ∀ a ∈ l, ∀ b ∈ l, a.name = b.name → a = b) {node : INode} :
    (Workflow.setNodes l).prototype = some node ↔ node ∈ l ∧ node.name = "__proto__" := by
  induction l using List.reverseRecOn with
  | nil =>
    constructor
    · intro h
      cases h
    · rintro ⟨h, -⟩
      cases h
  | append_singleton l a ih =>
    have hold := ih fun x hx y hy => hinj x (mem_append_left _ hx) y (mem_append_left _ hy)
    have hlast : a ∈ l ++ [a] := mem_append_right _ (mem_singleton.mpr rfl)
    rw [setNodes_concat, Workflow.setNode]
    by_cases ha : a.name = "__proto__"
    · rw [if_pos ha]
      constructor
      · intro h
        cases h
        exact ⟨hlast, ha⟩
      · rintro ⟨hmem, hname⟩
        rw [hinj node hmem a hlast (hname.trans ha.symm)]
    · rw [if_neg ha]
      refine hold.trans ?_
      rw [mem_append, mem_singleton]
      constructor
      · rintro ⟨hmem, hname⟩
        exact ⟨.inl hmem, hname⟩
      · rintro ⟨hmem | hmem, hname⟩
        · exact ⟨hmem, hname⟩
        · rw [hmem] at hname
          exact absurd hname ha

section

variable {w : Workflow} {l : List INode}

section

variable {name : String} (hw : w.nodes = Workflow.setNodes l)
  (hinj : ∀ a ∈ l, ∀ b ∈ l, a.name = b.name → a = b)
include hw hinj

theorem own_get? {node : INode} :
    w.nodes.own.get? name = some node
      ↔ (node ∈ l ∧ node.name ≠ "__proto__") ∧ node.name = name := by
  rw [hw, own_setNodes, get?_foldl_set INode.name]
  · rw [mem_filter, decide_eq_true_iff]
  · intro a ha b hb
    exact hinj a (mem_filter.mp ha).1 b (mem_filter.mp hb).1

theorem getNode_iff {node : INode} : w.getNode name = some node ↔ node ∈ l ∧ node.name = name := by
  rw [Workflow.getNode]
  by_cases hname : name = "__proto__"
  · rw [if_pos hname, hw, prototype_setNodes hinj, hname]
  · rw [if_neg hname, own_get? hw hinj]
    constructor
    · rintro ⟨⟨hmem, -⟩, heq⟩
      exact ⟨hmem, heq⟩
    · rintro ⟨hmem, heq⟩
      refine ⟨⟨hmem, ?_⟩, heq⟩
      rw [heq]
      exact hname

end

theorem mem_nodeValues (hw : w.nodes = Workflow.setNodes l)
    (hinj : ∀ a ∈ l, ∀ b ∈ l, a.name = b.name → a = b) {node : INode} :
    node ∈ w.nodeValues ↔ node ∈ l ∧ node.name ≠ "__proto__" := by
  rw [Workflow.nodeValues, mem_filterMap]
  constructor
  · rintro ⟨name, -, hget⟩
    exact ((own_get? hw hinj).mp hget).1
  · intro hnode
    have hget := (own_get? hw hinj).mpr ⟨hnode, rfl⟩
    refine ⟨node.name, ?_, hget⟩
    exact mem_propertyOrder.mpr (mem_keys_of_get? hget)

end

theorem addNodes_nodes (l : List INode) :
    (DirectedGraph.empty.addNodes l).nodes = l.foldl (fun m a => m.set a.name a) .empty := by
  induction l using List.reverseRecOn with
  | nil => rfl
  | append_singleton l a ih =>
    rw [DirectedGraph.addNodes, foldl_append, foldl_append]
    exact congrArg (OrderedMap.set · a.name a) ih

theorem addNodes_connections (l : List INode) :
    (DirectedGraph.empty.addNodes l).connections = .empty := by
  induction l using List.reverseRecOn with
  | nil => rfl
  | append_singleton l a ih =>
    rw [DirectedGraph.addNodes, foldl_append]
    exact ih

/-! ## The loop of the import -/

theorem foldlM_importConnection {w : Workflow} {es : List Edge} {graph graph' : DirectedGraph}
    (h : es.foldlM (importConnection w) graph = .ok graph') :
    graph'.nodes = graph.nodes
      ∧ ∀ c ∈ graph'.getConnections, c ∈ graph.getConnections
        ∨ ∃ e ∈ es, c.outputIndex = e.source.index := by
  induction es generalizing graph with
  | nil =>
    cases h
    exact ⟨rfl, fun c hc => .inl hc⟩
  | cons e rest ih =>
    rw [foldlM_cons] at h
    rcases hstep : importConnection w graph e with error | next
    · rw [hstep] at h
      cases h
    · rw [hstep] at h
      obtain ⟨hnodes, hconnections⟩ := ih h
      have hadded : next.nodes = graph.nodes
          ∧ ∀ c ∈ next.getConnections, c ∈ graph.getConnections
            ∨ c.outputIndex = e.source.index := by
        unfold importConnection DirectedGraph.addConnection at hstep
        split at hstep
        · split at hstep
          · cases hstep
            refine ⟨rfl, ?_⟩
            intro c hc
            obtain ⟨q, hq, rfl⟩ := mem_map.mp hc
            rcases mem_entries_set.mp hq with rfl | ⟨hq, -⟩
            · exact .inr rfl
            · exact .inl (mem_map_of_mem hq)
          · cases hstep
        · cases hstep
      refine ⟨hnodes.trans hadded.1, ?_⟩
      intro c hc
      rcases hconnections c hc with hnext | ⟨d, hd, hindex⟩
      · rcases hadded.2 c hnext with hold | hindex
        · exact .inl hold
        · exact .inr ⟨e, mem_cons_self .., hindex⟩
      · exact .inr ⟨d, mem_cons_of_mem _ hd, hindex⟩

theorem foldlM_importConnection_edges {w : Workflow} {graph : DirectedGraph}
    (hnodes : ∀ c ∈ l, w.getNode c.fromNode.name = some c.fromNode
      ∧ w.getNode c.toNode.name = some c.toNode)
    (howned : ∀ c ∈ l, graph.owns c.fromNode = true ∧ graph.owns c.toNode = true) :
    (l.map GraphConnection.edge).foldlM (importConnection w) graph
      = .ok { graph with
          connections := l.foldl (fun m c => m.set (makeKey c) c)
            graph.connections } := by
  induction l generalizing graph with
  | nil => rfl
  | cons c rest ih =>
    obtain ⟨hfrom, hto⟩ := hnodes c (mem_cons_self ..)
    obtain ⟨hownFrom, hownTo⟩ := howned c (mem_cons_self ..)
    have hstep : importConnection w graph c.edge
        = .ok { graph with
            connections := graph.connections.set (makeKey c) c } := by
      have hfrom' : w.getNode c.edge.source.node = some c.fromNode := hfrom
      have hto' : w.getNode c.edge.target.node = some c.toNode := hto
      simp only [importConnection, hfrom', hto', DirectedGraph.addConnection, hownFrom,
        hownTo, Bool.and_self, if_true]
      rfl
    rw [map_cons, foldlM_cons, hstep]
    exact ih (fun d hd => hnodes d (mem_cons_of_mem _ hd))
      fun d hd => howned d (mem_cons_of_mem _ hd)

/-! ## The round trip -/

/-- Both translations succeed, and give back the nodes and connections. -/
def RoundTrips (g : DirectedGraph) : Prop :=
  ∃ w g', g.toWorkflow = .ok w ∧ fromWorkflow w = .ok g'
    ∧ (∀ node, node ∈ g'.getNodes ↔ node ∈ g.getNodes)
    ∧ ∀ c, c ∈ g'.getConnections ↔ c ∈ g.getConnections

/-- No node is named `__proto__`; no node with connections is named as what
    every object inherits, or has two types of them; all indices are indices
    of arrays; and what goes to a node named `hasOwnProperty` is visited
    last. -/
structure Exportable (g : DirectedGraph) : Prop where
  nodes : ∀ node ∈ g.getNodes, node.name ≠ "__proto__"
  exports : Exports g.getConnections
  indices : ∀ c ∈ g.getConnections, c.outputIndex < arrayIndexLimit ∧ c.inputIndex < arrayIndexLimit
  hides : HidesLast (visitOrder forInOrder g.getConnections)

section

variable {g : DirectedGraph}

theorem toWorkflow_eq_ok {w : Workflow} :
    g.toWorkflow = .ok w ↔ ∃ table byDestination, toIConnections g = .ok table
        ∧ mapConnectionsByDestination table = .ok byDestination
        ∧ w = { nodes := Workflow.setNodes g.getNodes
                connectionsBySourceNode := table
                connectionsByDestinationNode := byDestination } := by
  rw [DirectedGraph.toWorkflow]
  constructor
  · intro h
    rcases htable : toIConnections g with error | table
    · rw [htable] at h
      cases h
    · rw [htable] at h
      replace h : Workflow.new g.getNodes table = .ok w := h
      rw [Workflow.new] at h
      rcases hmap : mapConnectionsByDestination table with error | dest
      · rw [hmap] at h
        cases h
      · rw [hmap] at h
        cases h
        exact ⟨table, dest, rfl, hmap, rfl⟩
  · rintro ⟨table, dest, htable, hmap, rfl⟩
    rw [htable]
    show Workflow.new g.getNodes table = _
    rw [Workflow.new, hmap]
    rfl

theorem mapConnectionsByDestination_ok {table : SourceTable} (h : Exported g.getConnections table) :
    (∃ byDestination, mapConnectionsByDestination table = .ok byDestination)
      ↔ (∀ c ∈ g.getConnections, c.inputIndex < arrayIndexLimit)
        ∧ HidesLast (visitOrder forInOrder g.getConnections) := by
  rw [mapConnectionsByDestination, edgesBy_of_exported h, foldlM_pushSource]
  constructor
  · rintro ⟨-, hindices, hhides⟩
    refine ⟨fun c hc => hindices c ?_, hhides⟩
    exact mem_visitOrder.mpr ⟨hc, mem_forInOrder.mpr (output_mem hc)⟩
  · rintro ⟨hindices, hhides⟩
    refine ⟨.inr rfl, fun c hc => hindices c ?_, hhides⟩
    exact (mem_visitOrder.mp hc).1

/-- An exportable graph survives the round trip. -/
theorem Exportable.roundTrips (h : Exportable g) (hkeyed : Keyed g)
    (hown : OwnNodes g) : RoundTrips g := by
  obtain ⟨table, htable, hexported⟩ : ∃ table, toIConnections g = .ok table
      ∧ Exported g.getConnections table := by
    rcases toIConnections_spec g.getConnections with
      ⟨table, htable, hexported, -⟩ | ⟨-, hnot⟩
    · exact ⟨table, htable, hexported⟩
    · exact absurd h.exports hnot
  obtain ⟨dest, hmap⟩ := (mapConnectionsByDestination_ok hexported).mpr
    ⟨fun c hc => (h.indices c hc).2, h.hides⟩
  let w : Workflow :=
    { nodes := Workflow.setNodes g.getNodes
      connectionsBySourceNode := table
      connectionsByDestinationNode := dest }
  have hw : g.toWorkflow = .ok w := toWorkflow_eq_ok.mpr ⟨table, dest, htable, hmap, rfl⟩
  have hinj := hkeyed.eq_of_name
  have hvalues : ∀ node, node ∈ w.nodeValues ↔ node ∈ g.getNodes := by
    intro node
    rw [mem_nodeValues rfl hinj]
    constructor
    · rintro ⟨hmem, -⟩
      exact hmem
    · intro hmem
      exact ⟨hmem, h.nodes node hmem⟩
  have hvaluesInj : ∀ a ∈ w.nodeValues, ∀ b ∈ w.nodeValues,
      a.name = b.name → a = b := fun a ha b hb =>
    hinj a ((hvalues a).mp ha) b ((hvalues b).mp hb)
  -- The nodes are added under their names, before any connection is.
  let start := DirectedGraph.empty.addNodes w.nodeValues
  have hstart : ∀ name node, start.nodes.get? name = some node
      ↔ node ∈ g.getNodes ∧ node.name = name := by
    intro name node
    show (DirectedGraph.empty.addNodes w.nodeValues).nodes.get? name = _ ↔ _
    rw [addNodes_nodes, get?_foldl_set INode.name hvaluesInj, hvalues]
  have hmemOwn : ∀ node, g.owns node = true → node ∈ g.getNodes := by
    intro node hnode
    exact hkeyed.mem_getNodes.mpr (of_decide_eq_true hnode)
  let visited := visitOrder elementOrder g.getConnections
  have hvisited : ∀ c, c ∈ visited ↔ c ∈ g.getConnections := by
    intro c
    rw [mem_visitOrder, mem_elementOrder]
    constructor
    · rintro ⟨hc, -⟩
      exact hc
    · intro hc
      exact ⟨hc, output_mem hc, (h.indices c hc).1⟩
  have hfound : ∀ c ∈ visited, w.getNode c.fromNode.name = some c.fromNode
      ∧ w.getNode c.toNode.name = some c.toNode := by
    intro c hc
    obtain ⟨hfrom, hto⟩ := hown c ((hvisited c).mp hc)
    exact ⟨(getNode_iff rfl hinj).mpr ⟨hmemOwn _ hfrom, rfl⟩,
      (getNode_iff rfl hinj).mpr ⟨hmemOwn _ hto, rfl⟩⟩
  have howned : ∀ c ∈ visited, start.owns c.fromNode = true ∧ start.owns c.toNode = true := by
    intro c hc
    obtain ⟨hfrom, hto⟩ := hown c ((hvisited c).mp hc)
    exact ⟨decide_eq_true ((hstart _ _).mpr ⟨hmemOwn _ hfrom, rfl⟩),
      decide_eq_true ((hstart _ _).mpr ⟨hmemOwn _ hto, rfl⟩)⟩
  have himport := foldlM_importConnection_edges hfound howned
  rw [← edgesBy_of_exported hexported] at himport
  refine ⟨w, _, hw, himport, ?_, ?_⟩
  · intro node
    show node ∈ (DirectedGraph.empty.addNodes w.nodeValues).getNodes ↔ _
    rw [DirectedGraph.getNodes, addNodes_nodes, mem_values_foldl_set INode.name hvaluesInj, hvalues]
  · intro c
    have hkeyInj : ∀ a ∈ visited, ∀ b ∈ visited, makeKey a = makeKey b → a = b := fun a ha b hb =>
      hkeyed.eq_of_makeKey a ((hvisited a).mp ha) b ((hvisited b).mp hb)
    show c ∈ (visited.foldl (fun m c => m.set (makeKey c) c)
      (DirectedGraph.empty.addNodes w.nodeValues).connections).entries.map Prod.snd ↔ _
    rw [addNodes_connections, mem_values_foldl_set makeKey hkeyInj, hvisited]

theorem RoundTrips.exportable (h : RoundTrips g) (hkeyed : Keyed g) : Exportable g := by
  obtain ⟨w, g', hw, hg', hnodes, hconnections⟩ := h
  obtain ⟨table, dest, htable, hmap, rfl⟩ := toWorkflow_eq_ok.mp hw
  obtain ⟨hexported, hexports⟩ : Exported g.getConnections table ∧ Exports g.getConnections := by
    rcases toIConnections_spec g.getConnections with
      ⟨table', htable', hexported, hexports⟩ | ⟨herror, -⟩
    · rw [toIConnections, htable'] at htable
      cases htable
      exact ⟨hexported, hexports⟩
    · rw [toIConnections, herror] at htable
      cases htable
  obtain ⟨hinputs, hhides⟩ := (mapConnectionsByDestination_ok hexported).mp ⟨dest, hmap⟩
  obtain ⟨hsame, hadded⟩ := foldlM_importConnection hg'
  have hinj := hkeyed.eq_of_name
  refine ⟨?_, hexports, ?_, hhides⟩
  · intro node hnode
    have hnode' := (hnodes node).mpr hnode
    rw [DirectedGraph.getNodes, hsame, addNodes_nodes] at hnode'
    obtain ⟨⟨name, x⟩, hentry, rfl⟩ := mem_map.mp hnode'
    have hget := get?_eq_some.mpr hentry
    have hvalues := ((get?_foldl_set INode.name fun a ha b hb => hinj a
      ((mem_nodeValues rfl hinj).mp ha).1 b ((mem_nodeValues rfl hinj).mp hb).1).mp hget).1
    exact ((mem_nodeValues rfl hinj).mp hvalues).2
  · intro c hc
    refine ⟨?_, hinputs c hc⟩
    rcases hadded c ((hconnections c).mpr hc) with hold | ⟨e, he, hindex⟩
    · rw [DirectedGraph.getConnections, addNodes_connections] at hold
      cases hold
    · rw [edgesBy_of_exported hexported] at he
      obtain ⟨d, hd, rfl⟩ := mem_map.mp he
      rw [hindex]
      exact (mem_elementOrder.mp (mem_visitOrder.mp hd).2).2

end

/-! ## Histories of a graph -/

/-- A graph, and what was added to it and not removed. -/
structure History where
  graph : DirectedGraph
  added : List GraphConnection

def History.start : History := { graph := .empty, added := [] }

inductive Event where
  | addNode (node : INode)
  | addConnection (c : ConnectionInput)
  | removeNode (node : INode)

/-- A call that fails an assertion changes nothing. -/
def next (s : History) : Event → History
  | .addNode node => { s with graph := s.graph.addNode node }
  | .addConnection c =>
    match s.graph.addConnection c with
    | .ok graph => { graph, added := s.added ++ [c.connection] }
    | .error _ => s
  | .removeNode node =>
    { graph := s.graph.removeNode node
      added := s.added.filter fun c =>
        !(c.toNode = node || c.fromNode = node) }

/-- The graph keeps having connections between its own nodes only. -/
def Step (s : History) (e : Event) (s' : History) : Prop :=
  OwnNodes (next s e).graph ∧ s' = next s e

/-- The graph has what was added to it, and survives the round trip. -/
def Inverse (s : History) : Prop := (∀ c ∈ s.added, c ∈ s.graph.getConnections) ∧ RoundTrips s.graph

/-- No other connection of the graph has the key of the one that is added. -/
def KeyIsFree (s : History) : Event → Prop
  | .addConnection c =>
    s.graph.owns c.fromNode = true → s.graph.owns c.toNode = true →
      ∀ d ∈ s.added, makeKey d = makeKey c.connection → d = c.connection
  | _ => True

/-- The condition on a step. -/
def Invertible (s : History) (e : Event) : Prop := KeyIsFree s e ∧ Exportable (next s e).graph

structure Sound (s : History) : Prop where
  keyed : Keyed s.graph
  own : OwnNodes s.graph
  added : ∀ c, c ∈ s.added ↔ c ∈ s.graph.getConnections
  exportable : Exportable s.graph

section

variable {g : DirectedGraph} {s : History}

theorem Keyed.addNode (h : Keyed g) (node : INode) : Keyed (g.addNode node) := by
  refine ⟨fun name x hx => ?_, h.connections⟩
  replace hx := (get?_set ..).symm.trans hx
  split at hx
  · next hname =>
      cases hx
      exact hname
  · exact h.nodes name x hx

theorem Keyed.removeNode (h : Keyed g) (node : INode) : Keyed (g.removeNode node) := by
  constructor
  · intro name x hx
    replace hx := (get?_delete ..).symm.trans hx
    split at hx
    · cases hx
    · exact h.nodes name x hx
  · intro key c hc
    exact h.connections key c (get?_filter_eq_some.mp hc).1

theorem addConnection_of_owns {c : ConnectionInput}
    (hfrom : g.owns c.fromNode = true) (hto : g.owns c.toNode = true) :
    g.addConnection c = .ok { g with
      connections := g.connections.set (makeKey c.connection)
        c.connection } := by
  rw [DirectedGraph.addConnection, hfrom, hto]
  rfl

theorem Keyed.addConnection (h : Keyed g) (c : GraphConnection) :
    Keyed { g with connections := g.connections.set (makeKey c) c } := by
  refine ⟨h.nodes, fun key d hd => ?_⟩
  replace hd := (get?_set ..).symm.trans hd
  split at hd
  · next hkey =>
      cases hd
      exact hkey
  · exact h.connections key d hd

theorem Keyed.mem_addConnection (h : Keyed g) (c d : GraphConnection) :
    d ∈ DirectedGraph.getConnections
        { g with connections := g.connections.set (makeKey c) c }
      ↔ d = c ∨ (d ∈ g.getConnections ∧ makeKey c ≠ makeKey d) := by
  rw [(h.addConnection c).mem_getConnections, h.mem_getConnections, get?_set]
  by_cases hkey : makeKey c = makeKey d
  · rw [if_pos hkey]
    constructor
    · intro hc
      exact .inl (Option.some.inj hc).symm
    · rintro (rfl | ⟨-, hne⟩)
      · rfl
      · exact absurd hkey hne
  · rw [if_neg hkey]
    constructor
    · intro hd
      exact .inr ⟨hd, hkey⟩
    · rintro (rfl | ⟨hd, -⟩)
      · exact absurd rfl hkey
      · exact hd

theorem mem_removeNode (node : INode) (c : GraphConnection) :
    c ∈ (g.removeNode node).getConnections ↔ c ∈ g.getConnections.filter
      fun c => !(c.toNode = node || c.fromNode = node) := by
  simp only [DirectedGraph.getConnections, DirectedGraph.removeNode, OrderedMap.filter, filter_map]
  rfl

theorem sound_start : Sound .start := by
  refine ⟨⟨?_, ?_⟩, ?_, fun c => Iff.rfl, ?_, ⟨?_, ?_⟩, ?_, ?_⟩
  · intro name node h
    cases h
  · intro key c h
    cases h
  · intro c hc
    cases hc
  · intro node hnode
    cases hnode
  · intro c hc
    cases hc
  · intro c hc
    cases hc
  · intro c hc
    cases hc
  · refine hidesLast_of_forall forInOrder fun c hc => ?_
    cases hc

theorem keyed_next (h : Keyed s.graph) (e : Event) : Keyed (next s e).graph := by
  cases e with
  | addNode node => exact h.addNode node
  | removeNode node => exact h.removeNode node
  | addConnection c =>
    rw [next]
    rcases hadd : s.graph.addConnection c with error | graph
    · exact h
    · unfold DirectedGraph.addConnection at hadd
      split at hadd
      · cases hadd
        exact h.addConnection c.connection
      · cases hadd

theorem Sound.next (h : Sound s) {e : Event} (hown : OwnNodes (next s e).graph)
    (hcond : Invertible s e) : Sound (next s e) := by
  refine ⟨keyed_next h.keyed e, hown, ?_, hcond.2⟩
  cases e with
  | addNode node => exact h.added
  | removeNode node =>
    intro c
    refine Iff.trans ?_ (mem_removeNode node c).symm
    show c ∈ s.added.filter _ ↔ _
    rw [mem_filter, mem_filter, h.added]
  | addConnection c =>
    by_cases hfrom : s.graph.owns c.fromNode = true
    · by_cases hto : s.graph.owns c.toNode = true
      · have hfree := hcond.1 hfrom hto
        rw [N8nDirectedGraph.next, addConnection_of_owns hfrom hto]
        intro d
        refine Iff.trans ?_ (h.keyed.mem_addConnection c.connection d).symm
        rw [mem_append, mem_singleton, h.added]
        constructor
        · rintro (hd | hd)
          · by_cases hkey : makeKey c.connection = makeKey d
            · exact .inl (hfree d ((h.added d).mpr hd) hkey.symm)
            · exact .inr ⟨hd, hkey⟩
          · exact .inl hd
        · rintro (hd | ⟨hd, -⟩)
          · exact .inr hd
          · exact .inl hd
      · have herror : s.graph.addConnection c = .error .assertionError := by
          simp [DirectedGraph.addConnection, hto]
        rw [N8nDirectedGraph.next, herror]
        exact h.added
    · have herror : s.graph.addConnection c = .error .assertionError := by
        simp [DirectedGraph.addConnection, hfrom]
      rw [N8nDirectedGraph.next, herror]
      exact h.added

theorem Sound.bad_step (h : Sound s) {e : Event} (hbad : ¬ Invertible s e) :
    ¬ Inverse (N8nDirectedGraph.next s e) := by
  rintro ⟨hadded, htrips⟩
  have hexportable := htrips.exportable (keyed_next h.keyed e)
  have hcollides : ¬ KeyIsFree s e := fun hfree =>
    hbad ⟨hfree, hexportable⟩
  cases e with
  | addConnection c =>
    simp only [KeyIsFree, not_forall] at hcollides
    obtain ⟨hfrom, hto, d, hd, hkey, hne⟩ := hcollides
    rw [N8nDirectedGraph.next, addConnection_of_owns hfrom hto] at hadded
    have hlost := hadded d (mem_append_left _ hd)
    rcases (h.keyed.mem_addConnection c.connection d).mp hlost with
      hsame | ⟨-, hother⟩
    · exact hne hsame
    · exact hother hkey.symm
  | _ => exact hcollides trivial

end

/-- **INVERSE REPRESENTATIONS**: all graphs of a history have what was added
    to them and survive the round trip through a workflow, exactly when no
    connection is added under the key of another one and every graph is
    exportable. -/
theorem inverse_iff_invertible {path : List (Event × History)} (hrun : IsRun Step .start path) :
    EveryState Inverse .start path ↔ EveryStep Invertible .start path := by
  refine everyState_iff_everyStep hrun sound_start ?_ ?_ ?_
  · intro s h
    exact ⟨fun c hc => (h.added c).mp hc, h.exportable.roundTrips h.keyed h.own⟩
  · rintro s e t h ⟨hown, rfl⟩ hcond
    exact h.next hown hcond
  · rintro s e t h ⟨-, rfl⟩ hbad
    exact h.bad_step hbad

theorem exportable_of_names {g : DirectedGraph}
    (hnodes : ∀ node ∈ g.getNodes, node.name ∉ objectPrototype)
    (hown : OwnNodes g) (hkeyed : Keyed g)
    (htypes : ∀ c ∈ g.getConnections, ∀ d ∈ g.getConnections,
      c.fromNode.name = d.fromNode.name → c.type = d.type)
    (hindices : ∀ c ∈ g.getConnections,
      c.outputIndex < arrayIndexLimit ∧ c.inputIndex < arrayIndexLimit) :
    Exportable g := by
  have hmem : ∀ node, g.owns node = true → node ∈ g.getNodes :=
    fun node hnode => hkeyed.mem_getNodes.mpr (of_decide_eq_true hnode)
  refine ⟨?_, ⟨?_, htypes⟩, hindices, hidesLast_of_forall _ ?_⟩
  · intro node hnode hname
    refine hnodes node hnode ?_
    rw [hname]
    decide
  · intro c hc
    exact hnodes c.fromNode (hmem _ (hown c hc).1)
  · intro c hc hname
    refine hnodes c.toNode (hmem _ (hown c hc).2) ?_
    rw [hname]
    decide

/-- Two nodes, connected over the second output of the first, which is then
    removed. -/
theorem inverse_of_linearGraph :
    let path := pathOf next .start
      [.addNode ⟨1, "node-1"⟩, .addNode ⟨2, "Node2"⟩,
        .addConnection ⟨⟨1, "node-1"⟩, ⟨2, "Node2"⟩, none, some 1, none⟩, .removeNode ⟨1, "node-1"⟩]
    EveryState Inverse .start path := by
  have h₀ := sound_start.keyed
  have h₁ := keyed_next h₀ (.addNode ⟨1, "node-1"⟩)
  have h₂ := keyed_next h₁ (.addNode ⟨2, "Node2"⟩)
  have h₃ := keyed_next h₂ (.addConnection ⟨⟨1, "node-1"⟩, ⟨2, "Node2"⟩, none, some 1, none⟩)
  have h₄ := keyed_next h₃ (.removeNode ⟨1, "node-1"⟩)
  refine (inverse_iff_invertible ?_).mpr ⟨⟨trivial, ?_⟩, ⟨trivial, ?_⟩,
    ⟨fun _ _ d hd => (by cases hd), ?_⟩, ⟨trivial, ?_⟩, trivial⟩
  · exact ⟨⟨by decide, rfl⟩, ⟨by decide, rfl⟩, ⟨by decide, rfl⟩, ⟨by decide, rfl⟩, trivial⟩
  · exact exportable_of_names (by decide) (by decide) h₁ (by decide) (by decide)
  · exact exportable_of_names (by decide) (by decide) h₂ (by decide) (by decide)
  · exact exportable_of_names (by decide) (by decide) h₃ (by decide) (by decide)
  · exact exportable_of_names (by decide) (by decide) h₄ (by decide) (by decide)

/-- A node with two types of connections makes the export throw, and two
    connections can have one key. -/
theorem twoTypes_and_oneKey :
    let a : INode := ⟨1, "A"⟩
    let b : INode := ⟨2, "B"⟩
    let two := pathOf next .start
      [.addNode a, .addNode b, .addConnection ⟨a, b, none, none, none⟩,
        .addConnection ⟨a, b, some .aiTool, none, none⟩]
    let c : INode := ⟨3, "B-main-0-0-C"⟩
    let d : INode := ⟨4, "A-main-0-0-B"⟩
    let e : INode := ⟨5, "C"⟩
    let one := pathOf next .start
      [.addNode a, .addNode c, .addNode d, .addNode e,
        .addConnection ⟨a, c, none, none, none⟩, .addConnection ⟨d, e, none, none, none⟩]
    IsRun Step .start two ∧ IsRun Step .start one
      ∧ (lastState .start two).graph.toWorkflow = .error .typeError
      ∧ (lastState .start one).added.length = 2
      ∧ (lastState .start one).graph.getConnections.length = 1
      ∧ ¬ EveryState Inverse .start two
      ∧ ¬ EveryState Inverse .start one := by
  intro a b two c d e one
  have hthrows : (lastState .start two).graph.toWorkflow = .error .typeError := rfl
  refine ⟨?_, ?_, hthrows, by decide, by decide, ?_, ?_⟩
  · exact ⟨⟨by decide, rfl⟩, ⟨by decide, rfl⟩, ⟨by decide, rfl⟩, ⟨by decide, rfl⟩, trivial⟩
  · exact ⟨⟨by decide, rfl⟩, ⟨by decide, rfl⟩, ⟨by decide, rfl⟩,
      ⟨by decide, rfl⟩, ⟨by decide, rfl⟩, ⟨by decide, rfl⟩, trivial⟩
  · intro hall
    obtain ⟨w, g', hw, -⟩ := hall.last.2
    cases hw
  · intro hall
    have hlost := hall.last.1 ⟨a, c, .main, 0, 0⟩ (by decide)
    exact absurd hlost (by decide)

end N8nDirectedGraph
