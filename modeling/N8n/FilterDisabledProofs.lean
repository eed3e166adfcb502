import N8n.DirectedPathsProofs
import N8n.PartialGraphProofs

/-! # Removing the disabled nodes of a graph

    `filterDisabledNodes` removes one disabled node after the other, and
    connects what leads to it with what it leads to.  Afterwards two enabled
    nodes should be connected just as they were by paths over disabled
    nodes.

    They are (`Stage.complete`, `Stage.sound`): the connections at any stage
    are the paths over the nodes removed so far.  But a node that leads back
    to itself when it is removed is connected with itself, and that
    connection stays without the node.  So the result is a graph exactly if
    the disabled nodes have no cycle of their own
    (`filtersDisabled_iff`). -/

namespace N8nFilterDisabled

open N8nExcept N8nOrderedMap N8nDirectedPaths N8nDirectedGraph N8nPartialGraph List

/-! ## The removal -/

section

variable (g : DirectedGraph)

def clone : Except GraphError DirectedGraph :=
  g.getConnections.foldlM (fun copy connection =>
    copy.addConnection (asInput connection))
    (DirectedGraph.empty.addNodes g.getNodes)

/-- The connection that takes the place of one into a node and one out of
    it. -/
def rewire (incomingConnection outgoingConnection : GraphConnection) : GraphConnection :=
  { incomingConnection with
    toNode := outgoingConnection.toNode
    inputIndex := outgoingConnection.inputIndex }

/-- `removeNode` with `reconnectConnections: true`; the new connections are
    returned next to the graph. -/
def removeNodeReconnecting (skipConnectionFn : GraphConnection → Bool) (node : INode) :
    Except GraphError (DirectedGraph × List GraphConnection) := do
  let incomingConnections ← getDirectParentConnections g node
  let outgoingConnections ← getDirectChildConnections g node
  let newConnections :=
    (incomingConnections.filter (!skipConnectionFn ·)).flatMap fun incomingConnection =>
        (outgoingConnections.filter (!skipConnectionFn ·)).map (rewire incomingConnection)
  let removed := g.removeNode node
  return ({ removed with
    connections := newConnections.foldl (fun m c => m.set (makeKey c) c)
      removed.connections }, newConnections)

/-- The body of the loop of `filterDisabledNodes`. -/
def removeDisabled (disabled : INode → Bool) (filteredGraph : DirectedGraph)
    (node : INode) : Except GraphError DirectedGraph :=
  if disabled node then do
    let (filteredGraph, _) ← removeNodeReconnecting filteredGraph (fun c => c.type ≠ .main) node
    return filteredGraph
  else .ok filteredGraph

def filterDisabledNodes (disabled : INode → Bool) :
    Except GraphError DirectedGraph := do
  let filteredGraph ← clone g
  filteredGraph.getNodes.foldlM (removeDisabled disabled) filteredGraph

end

/-! ## What the result should be -/

section

variable (connections : List GraphConnection)

/-- A Main path, with at least one connection, whose intermediate nodes are
    all `via`. -/
structure MainPath (via : INode → Prop) (u v : INode)
    (p : List GraphConnection) : Prop where
  ne_nil : p ≠ []
  path : IsPath (mainOut connections) (·.toNode) u p
  ends : endOf (·.toNode) u p = v
  via : ∀ e ∈ p.dropLast, via e.toNode

/-- A Main path over such nodes leads from the output to the input. -/
def Connected (via : INode → Prop) (u : INode) (o : Nat) (v : INode) (i : Nat) : Prop :=
  ∃ p, MainPath connections via u v p ∧ p.head?.map (·.outputIndex) = some o
    ∧ p.getLast?.map (·.inputIndex) = some i

/-- The result has no disabled node, only connections between its nodes, and
    the enabled nodes are connected by Main as they were over disabled
    ones. -/
def FiltersDisabled (nodes : List INode) (disabled : INode → Bool)
    (result : Except GraphError DirectedGraph) : Prop :=
  ∃ filtered, result = .ok filtered
    ∧ (∀ node ∈ filtered.getNodes, disabled node = false)
    ∧ OwnNodes filtered
    ∧ ∀ u ∈ nodes, ∀ v ∈ nodes, disabled u = false → disabled v = false →
      ∀ o i, ⟨u, v, .main, o, i⟩ ∈ filtered.getConnections
        ↔ Connected connections (fun n => disabled n = true) u o v i

/-- No Main path over disabled nodes leads from a disabled node back to
    it. -/
def NoDisabledCycle (disabled : INode → Bool) : Prop :=
  ∀ node p, disabled node = true → ¬ MainPath connections (fun n => disabled n = true) node node p

/-- The connection has the ends, the output and the input of a Main path
    over disabled nodes. -/
def StandsForPath (disabled : INode → Bool) (c : GraphConnection) : Prop :=
  c.type = .main ∧ Connected connections (fun n => disabled n = true)
    c.fromNode c.outputIndex c.toNode c.inputIndex

/-- Two Main paths over disabled nodes that differ in an end, the output or
    the input have different keys. -/
def KeysApart (disabled : INode → Bool) : Prop :=
  ∀ c d, StandsForPath connections disabled c →
    StandsForPath connections disabled d → makeKey c = makeKey d → c = d

/-- So have those between enabled nodes. -/
def EnabledKeysApart (disabled : INode → Bool) : Prop :=
  ∀ c d, StandsForPath connections disabled c → StandsForPath connections disabled d →
    disabled c.fromNode = false → disabled c.toNode = false →
    disabled d.fromNode = false → disabled d.toNode = false → makeKey c = makeKey d → c = d

end

/-! ## Paths as connections -/

section

variable {connections : List GraphConnection} {via via' : INode → Prop}

/-- The connections that come from connecting others over nodes that are
    `via`. -/
inductive Bypass (connections : List GraphConnection) (via : INode → Prop) :
    GraphConnection → Prop
  | base {c : GraphConnection} : c ∈ connections → c.type = .main → Bypass connections via c
  | join {c d : GraphConnection} : Bypass connections via c →
      Bypass connections via d → c.toNode = d.fromNode → via c.toNode →
      Bypass connections via (rewire c d)

variable {c : GraphConnection}

theorem Bypass.main (h : Bypass connections via c) : c.type = .main := by
  induction h with
  | base _ hmain => exact hmain
  | join _ _ _ _ ih _ => exact ih

theorem Bypass.mono (h : Bypass connections via c)
    (hvia : ∀ n, via n → via' n) : Bypass connections via' c := by
  induction h with
  | base hc hmain => exact .base hc hmain
  | join _ _ hends hto ihc ihd => exact .join ihc ihd hends (hvia _ hto)

theorem Bypass.split {node : INode} (h : Bypass connections (fun n => via n ∨ n = node) c) :
    Bypass connections via c
      ∨ ∃ d e, Bypass connections via d ∧ Bypass connections via e
        ∧ d.toNode = node ∧ e.fromNode = node ∧ c = rewire d e := by
  induction h with
  | base hc hmain => exact .inl (.base hc hmain)
  | @join c d _ _ hends hvia ihc ihd =>
    rcases ihc with hc | ⟨c₁, c₂, hc₁, hc₂, hto, hfrom, rfl⟩
    · rcases ihd with hd | ⟨d₁, d₂, hd₁, hd₂, hto, hfrom, rfl⟩
      · rcases hvia with hvia | hnode
        · exact .inl (.join hc hd hends hvia)
        · exact .inr ⟨c, d, hc, hd, hnode, hends ▸ hnode, rfl⟩
      · rcases hvia with hvia | hnode
        · exact .inr ⟨rewire c d₁, d₂, .join hc hd₁ hends hvia, hd₂, hto, hfrom, rfl⟩
        · exact .inr ⟨c, d₂, hc, hd₂, hnode, hfrom, rfl⟩
    · rcases ihd with hd | ⟨d₁, d₂, hd₁, hd₂, hto', hfrom', rfl⟩
      · rcases hvia with hvia | hnode
        · exact .inr ⟨c₁, rewire c₂ d, hc₁, .join hc₂ hd hends hvia, hto, hfrom, rfl⟩
        · exact .inr ⟨c₁, d, hc₁, hd, hto, hends ▸ hnode, rfl⟩
      · exact .inr ⟨c₁, d₂, hc₁, hd₂, hto, hfrom', rfl⟩

theorem MainPath.append {u m v : INode} {p q : List GraphConnection}
    (hp : MainPath connections via u m p) (hq : MainPath connections via m v q) (hm : via m) :
    MainPath connections via u v (p ++ q) := by
  refine ⟨fun hnil => hp.ne_nil (append_eq_nil_iff.mp hnil).1, ?_, ?_, ?_⟩
  · rw [isPath_append, hp.ends]
    exact ⟨hp.path, hq.path⟩
  · rw [endOf_append, hp.ends]
    exact hq.ends
  · rw [dropLast_append_of_ne_nil hq.ne_nil]
    refine forall_mem_append.mpr ⟨fun e he => ?_, hq.via⟩
    rcases eq_nil_or_concat p with rfl | ⟨first, last, rfl⟩
    · cases he
    · have hends := hp.ends
      have hvia := hp.via
      rw [concat_eq_append] at he hends hvia
      rw [endOf_append] at hends
      rw [dropLast_concat] at hvia
      rcases mem_append.mp he with he | he
      · exact hvia e he
      · rw [mem_singleton.mp he, show last.toNode = m from hends]
        exact hm

theorem Bypass.connected (h : Bypass connections via c) :
    Connected connections via c.fromNode c.outputIndex c.toNode c.inputIndex := by
  induction h with
  | @base c hc hmain =>
    exact ⟨[c], ⟨cons_ne_nil _ _, ⟨mem_mainOut.mpr ⟨hc, rfl, hmain⟩, trivial⟩, rfl,
      fun e he => by cases he⟩, rfl, rfl⟩
  | @join c d _ _ hends hvia ihc ihd =>
    obtain ⟨p, hp, hhead, -⟩ := ihc
    obtain ⟨q, hq, -, hlast⟩ := ihd
    rw [← hends] at hq
    refine ⟨p ++ q, hp.append hq hvia, ?_, ?_⟩
    · rw [head?_append_of_ne_nil _ hp.ne_nil]
      exact hhead
    · rw [getLast?_append_of_ne_nil _ hq.ne_nil]
      exact hlast

theorem bypass_of_path {p : List GraphConnection}
    (hp : MainPath connections via c.fromNode c.toNode p) (hmain : c.type = .main)
    (hhead : p.head?.map (·.outputIndex) = some c.outputIndex)
    (hlast : p.getLast?.map (·.inputIndex) = some c.inputIndex) :
    Bypass connections via c := by
  obtain ⟨u, v, type, o, i⟩ := c
  cases hmain
  induction p generalizing u o with
  | nil => exact absurd rfl hp.ne_nil
  | cons e rest ih =>
    obtain ⟨hout, hrest⟩ := hp.path
    obtain ⟨he, hfrom, hmain⟩ := mem_mainOut.mp hout
    have hends := hp.ends
    obtain rfl : e.outputIndex = o := Option.some.inj hhead
    obtain rfl : e.fromNode = u := hfrom
    cases rest with
    | nil =>
      obtain rfl : e.inputIndex = i := Option.some.inj hlast
      obtain rfl : e.toNode = v := hends
      have hbase : Bypass connections via e := .base he hmain
      obtain ⟨eFrom, eTo, eType, eOut, eIn⟩ := e
      cases hmain
      exact hbase
    | cons f rest =>
      have hvia := hp.via
      obtain ⟨hto, hvia⟩ := forall_mem_cons.mp hvia
      have hnext := ih e.toNode f.outputIndex ⟨cons_ne_nil _ _, hrest, hends, hvia⟩ rfl hlast
      have hjoin := Bypass.join (.base he hmain) hnext rfl hto
      rw [rewire, hmain] at hjoin
      exact hjoin

/-- **PATHS AND BYPASSES**: the same ends are connected. -/
theorem bypass_iff :
    Bypass connections via c ↔ c.type = .main
      ∧ Connected connections via c.fromNode c.outputIndex c.toNode c.inputIndex := by
  constructor
  · exact fun h => ⟨h.main, h.connected⟩
  · rintro ⟨hmain, p, hp, hhead, hlast⟩
    exact bypass_of_path hp hmain hhead hlast

theorem noDisabledCycle_iff {disabled : INode → Bool} :
    NoDisabledCycle connections disabled ↔ ∀ c, Bypass connections (fun n => disabled n = true) c →
        c.fromNode = c.toNode → disabled c.fromNode ≠ true := by
  constructor
  · intro hno c hc hself hdisabled
    obtain ⟨p, hp, -⟩ := hc.connected
    rw [← hself] at hp
    exact hno c.fromNode p hdisabled hp
  · intro hno node p hdisabled hp
    obtain ⟨e, rest, rfl⟩ := exists_cons_of_ne_nil hp.ne_nil
    obtain ⟨last, hlast⟩ := Option.isSome_iff_exists.mp (getLast?_isSome.mpr hp.ne_nil)
    have hbypass := bypass_of_path
      (c := ⟨node, node, .main, e.outputIndex, last.inputIndex⟩) hp rfl rfl (by rw [hlast]; rfl)
    exact hno _ hbypass rfl hdisabled

end

/-! ## Setting connections -/

section

variable {h : DirectedGraph} {l : List GraphConnection}

/-- The graph with the connections set one after the other. -/
def setAll (h : DirectedGraph) (l : List GraphConnection) : DirectedGraph :=
  { h with
    connections := l.foldl (fun m c => m.set (makeKey c) c) h.connections }

theorem keyed_setAll (hkeyed : Keyed h) : Keyed (setAll h l) := by
  induction l generalizing h with
  | nil => exact hkeyed
  | cons c rest ih => exact ih (hkeyed.addConnection c)

theorem mem_of_setAll (hkeyed : Keyed h) {d : GraphConnection}
    (hd : d ∈ (setAll h l).getConnections) :
    d ∈ h.getConnections ∨ d ∈ l := by
  induction l generalizing h with
  | nil => exact .inl hd
  | cons c rest ih =>
    rcases ih (hkeyed.addConnection c) hd with hd | hd
    · rcases (hkeyed.mem_addConnection c d).mp hd with rfl | ⟨hd, -⟩
      · exact .inr (mem_cons_self ..)
      · exact .inl hd
    · exact .inr (mem_cons_of_mem c hd)

theorem mem_setAll (hkeyed : Keyed h) {d : GraphConnection}
    (hd : d ∈ h.getConnections ∨ d ∈ l) (hapart : ∀ c ∈ l, makeKey c = makeKey d → c = d) :
    d ∈ (setAll h l).getConnections := by
  induction l generalizing h with
  | nil => exact hd.resolve_right not_mem_nil
  | cons c rest ih =>
    obtain ⟨hc, hrest⟩ := forall_mem_cons.mp hapart
    refine ih (hkeyed.addConnection c) ?_ hrest
    rw [hkeyed.mem_addConnection c d]
    by_cases hkey : makeKey c = makeKey d
    · exact .inl (.inl (hc hkey).symm)
    · rcases hd with hd | hd
      · exact .inl (.inr ⟨hd, hkey⟩)
      · rcases mem_cons.mp hd with rfl | hd
        · exact absurd rfl hkey
        · exact .inr hd

end

/-! ## The copy -/

section

variable {g : Graph} {h : DirectedGraph}

theorem foldlM_addConnection {rest : List GraphConnection} (hrest : rest ⊆ g.connections)
    (howns : ∀ node ∈ g.nodes, h.owns node = true) :
    rest.foldlM (fun copy c => copy.addConnection (asInput c)) h
      = .ok (setAll h rest) := by
  induction rest generalizing h with
  | nil => rfl
  | cons c rest ih =>
    obtain ⟨hc, hrest⟩ := cons_subset.mp hrest
    have hadd : h.addConnection (asInput c)
        = .ok { h with connections := h.connections.set (makeKey c) c } :=
      addConnection_of_owns (howns _ (Graph.fromNode_mem hc)) (howns _ (Graph.toNode_mem hc))
    rw [foldlM_cons, hadd]
    exact ih hrest howns

theorem clone_ok : ∃ copy, clone g.graph = .ok copy ∧ Keyed copy
    ∧ (∀ node, node ∈ copy.getNodes ↔ node ∈ g.nodes)
    ∧ ∀ c, c ∈ copy.getConnections ↔ c ∈ g.connections := by
  have hkeyed : Keyed (DirectedGraph.empty.addNodes g.nodes) :=
    ⟨(keyed_ofParts g.nodes []).nodes, fun key c hc => by
      rw [addNodes_connections] at hc
      cases hc⟩
  have hnodes : ∀ node, node ∈ (DirectedGraph.empty.addNodes g.nodes).getNodes
        ↔ node ∈ g.nodes := by
    intro node
    rw [DirectedGraph.getNodes, addNodes_nodes]
    exact mem_values_foldl_set INode.name g.keyed.eq_of_name
  have hempty : ∀ c, c ∉ (DirectedGraph.empty.addNodes g.nodes).getConnections := by
    intro c hc
    rw [DirectedGraph.getConnections, addNodes_connections] at hc
    cases hc
  refine ⟨_, foldlM_addConnection (List.Subset.refl _) fun node hnode =>
    decide_eq_true (hkeyed.mem_getNodes.mp ((hnodes node).mpr hnode)),
    keyed_setAll hkeyed, hnodes, fun c => ⟨fun hc => ?_, fun hc => ?_⟩⟩
  · exact (mem_of_setAll hkeyed hc).resolve_left (hempty c)
  · exact mem_setAll hkeyed (.inr hc) fun d hd hkey =>
      g.keyed.eq_of_makeKey d hd c hc hkey

end

/-! ## One removal -/

section

variable {g : Graph} {h : DirectedGraph} {disabled : INode → Bool}
  {removed : List INode} {node : INode}

def RemovedCycle (g : Graph) (removed : List INode) : Prop :=
  ∃ c, Bypass g.connections (· ∈ removed) c ∧ c.fromNode = c.toNode ∧ c.fromNode ∈ removed

/-- The graph after some nodes were removed: its Main connections are the
    bypasses over these nodes, and one of them stays without its node if the
    nodes have a cycle. -/
structure Stage (g : Graph) (removed : List INode) (h : DirectedGraph) :
    Prop where
  keyed : Keyed h
  nodes : ∀ n, n ∈ h.getNodes ↔ n ∈ g.nodes ∧ n ∉ removed
  other : ∀ c ∈ h.getConnections, c.type ≠ .main → c ∈ g.connections
    ∧ c.fromNode ∉ removed ∧ c.toNode ∉ removed
  sound : ∀ c ∈ h.getConnections, c.type = .main → Bypass g.connections (· ∈ removed) c
  complete : ∀ c, Bypass g.connections (· ∈ removed) c →
    c.fromNode ∉ removed → c.toNode ∉ removed → c ∈ h.getConnections
  closed : ¬ RemovedCycle g removed → ∀ c ∈ h.getConnections,
    c.fromNode ∉ removed ∧ c.toNode ∉ removed
  dangles : RemovedCycle g removed → ∃ c ∈ h.getConnections,
    c.type = .main ∧ c.fromNode = c.toNode ∧ c.fromNode ∈ removed

theorem Stage.start (hkeyed : Keyed h) (hnodes : ∀ n, n ∈ h.getNodes ↔ n ∈ g.nodes)
    (hconnections : ∀ c, c ∈ h.getConnections ↔ c ∈ g.connections) :
    Stage g [] h := by
  refine ⟨hkeyed, fun n => ?_, fun c hc _ => ?_, fun c hc hmain => ?_,
    fun c hc _ _ => ?_, fun _ c _ => ?_, ?_⟩
  · rw [hnodes]
    exact (and_iff_left not_mem_nil).symm
  · exact ⟨(hconnections c).mp hc, not_mem_nil, not_mem_nil⟩
  · exact .base ((hconnections c).mp hc) hmain
  · cases hc with
    | base hc _ => exact (hconnections c).mpr hc
    | join _ _ _ hvia => cases hvia
  · exact ⟨not_mem_nil, not_mem_nil⟩
  · rintro ⟨c, -, -, hc⟩
    cases hc

variable {c : GraphConnection}

theorem Bypass.mem_nodes {via : INode → Prop} (h : Bypass g.connections via c) :
    c.fromNode ∈ g.nodes ∧ c.toNode ∈ g.nodes := by
  induction h with
  | base hc _ => exact ⟨Graph.fromNode_mem hc, Graph.toNode_mem hc⟩
  | join _ _ _ _ ihc ihd => exact ⟨ihc.1, ihd.2⟩

/-- The connections that take the place of those of the node. -/
def rewired (h : DirectedGraph) (node : INode) : List GraphConnection :=
  ((h.getConnections.filter (·.toNode = node)).filter
    fun c => !decide (c.type ≠ .main)).flatMap fun incoming =>
      ((h.getConnections.filter (·.fromNode = node)).filter
        fun c => !decide (c.type ≠ .main)).map (rewire incoming)

theorem mem_rewired :
    c ∈ rewired h node ↔ ∃ d ∈ h.getConnections, ∃ e ∈ h.getConnections,
      d.toNode = node ∧ e.fromNode = node ∧ d.type = .main ∧ e.type = .main ∧ c = rewire d e := by
  simp only [rewired, mem_flatMap, mem_map, mem_filter,
    decide_eq_true_iff, Bool.not_eq_true', decide_eq_false_iff_not, not_not]
  constructor
  · rintro ⟨d, ⟨⟨hd, hto⟩, hmain⟩, e, ⟨⟨he, hfrom⟩, hmain'⟩, rfl⟩
    exact ⟨d, hd, e, he, hto, hfrom, hmain, hmain', rfl⟩
  · rintro ⟨d, hd, e, he, hto, hfrom, hmain, hmain', rfl⟩
    exact ⟨d, ⟨⟨hd, hto⟩, hmain⟩, e, ⟨⟨he, hfrom⟩, hmain'⟩, rfl⟩

theorem removeNodeReconnecting_ok (hkeyed : Keyed h) (hnode : node ∈ h.getNodes) :
    removeNodeReconnecting h (fun c => c.type ≠ .main) node
      = .ok (setAll (h.removeNode node) (rewired h node), rewired h node) := by
  have howns : h.owns node = true := decide_eq_true (hkeyed.mem_getNodes.mp hnode)
  rw [removeNodeReconnecting, getDirectParentConnections,
    getDirectChildConnections, if_pos howns, if_pos howns]
  rfl

theorem mem_removeNode_iff :
    c ∈ (h.removeNode node).getConnections
      ↔ c ∈ h.getConnections ∧ c.fromNode ≠ node ∧ c.toNode ≠ node := by
  rw [mem_removeNode, mem_filter]
  refine and_congr_right fun _ => ?_
  simp [and_comm]

theorem mem_getNodes_removeNode (hkeyed : Keyed h) (hnode : node ∈ h.getNodes) {n : INode} :
    n ∈ (h.removeNode node).getNodes ↔ n ∈ h.getNodes ∧ n ≠ node := by
  rw [(hkeyed.removeNode node).mem_getNodes, hkeyed.mem_getNodes]
  show (h.nodes.delete node.name).get? n.name = some n ↔ _
  rw [OrderedMap.get?_delete]
  by_cases hname : n.name = node.name
  · rw [if_pos hname]
    refine iff_of_false (fun hsome => by cases hsome) ?_
    rintro ⟨hn, hne⟩
    exact hne (hkeyed.eq_of_name n (hkeyed.mem_getNodes.mpr hn) node hnode hname)
  · rw [if_neg hname]
    refine (and_iff_left ?_).symm
    rintro rfl
    exact hname rfl

theorem Stage.bypass (hstage : Stage g removed h)
    (hc : (c ∈ h.getConnections ∧ c.type = .main) ∨ c ∈ rewired h node) :
    Bypass g.connections (· ∈ removed ++ [node]) c := by
  have hold : ∀ d ∈ h.getConnections, d.type = .main →
      Bypass g.connections (· ∈ removed ++ [node]) d := fun d hd hmain =>
    (hstage.sound d hd hmain).mono fun n => mem_append_left [node]
  rcases hc with ⟨hc, hmain⟩ | hc
  · exact hold c hc hmain
  · obtain ⟨d, hd, e, he, hdto, hefrom, hmain, hmain', rfl⟩ :=
      mem_rewired.mp hc
    refine .join (hold d hd hmain) (hold e he hmain') (hdto.trans hefrom.symm) ?_
    rw [hdto]
    exact mem_append_right _ (mem_singleton_self node)

theorem Bypass.split_concat (hc : Bypass g.connections (· ∈ removed ++ [node]) c) :
    Bypass g.connections (· ∈ removed) c
      ∨ ∃ d e, Bypass g.connections (· ∈ removed) d
        ∧ Bypass g.connections (· ∈ removed) e
        ∧ d.toNode = node ∧ e.fromNode = node ∧ c = rewire d e :=
  (hc.mono fun _ hn =>
    (mem_append.mp hn).imp_right mem_singleton.mp).split

theorem Stage.mem_or_rewired (hstage : Stage g removed h) (hnode : node ∉ removed)
    (hc : Bypass g.connections (· ∈ removed ++ [node]) c)
    (hfrom : c.fromNode ∉ removed) (hto : c.toNode ∉ removed) :
    c ∈ h.getConnections ∨ c ∈ rewired h node := by
  rcases hc.split_concat with hold | ⟨d, e, hd, he, hdto, hefrom, rfl⟩
  · exact .inl (hstage.complete c hold hfrom hto)
  · refine .inr (mem_rewired.mpr ⟨d, hstage.complete d hd hfrom ?_, e,
      hstage.complete e he ?_ hto, hdto, hefrom, hd.main, he.main, rfl⟩)
    · rw [hdto]
      exact hnode
    · rw [hefrom]
      exact hnode

theorem exists_self_bypass (hcycle : RemovedCycle g (removed ++ [node])) :
    RemovedCycle g removed ∨ ∃ c, Bypass g.connections (· ∈ removed) c
      ∧ c.fromNode = node ∧ c.toNode = node := by
  obtain ⟨c, hc, hself, hmem⟩ := hcycle
  rcases hc.split_concat with hold | ⟨d, e, hd, he, hdto, hefrom, rfl⟩
  · rcases mem_append.mp hmem with hmem | hmem
    · exact .inl ⟨c, hold, hself, hmem⟩
    · have hfrom := mem_singleton.mp hmem
      exact .inr ⟨c, hold, hfrom, hself ▸ hfrom⟩
  · have hends : d.fromNode = e.toNode := hself
    rcases mem_append.mp hmem with hmem | hmem
    · have hmem' : d.fromNode ∈ removed := hmem
      exact .inr ⟨rewire e d, .join he hd hends.symm (hends ▸ hmem'), hefrom, hdto⟩
    · exact .inr ⟨d, hd, mem_singleton.mp hmem, hdto⟩

/-- Different bypasses over disabled nodes have different keys. -/
def BypassesApart (g : Graph) (disabled : INode → Bool) : Prop :=
  ∀ c d, Bypass g.connections (fun n => disabled n = true) c →
    Bypass g.connections (fun n => disabled n = true) d → makeKey c = makeKey d → c = d

/-- **ONE REMOVAL** leads to the next stage. -/
theorem Stage.remove (hstage : Stage g removed h) (hapart : BypassesApart g disabled)
    (hdisabled : ∀ n ∈ removed ++ [node], disabled n = true) (hnode : node ∈ h.getNodes) :
    Stage g (removed ++ [node]) (setAll (h.removeNode node) (rewired h node)) := by
  have hnew : node ∉ removed := ((hstage.nodes node).mp hnode).2
  have hkeyed := hstage.keyed.removeNode node
  have hapart' : ∀ c, Bypass g.connections (· ∈ removed ++ [node]) c →
      ∀ d ∈ rewired h node, makeKey d = makeKey c → d = c :=
    fun c hc d hd => hapart d c ((hstage.bypass (.inr hd)).mono hdisabled) (hc.mono hdisabled)
  have hmem : ∀ {n}, n ∉ removed ++ [node] ↔ n ∉ removed ∧ n ≠ node := by
    intro n
    rw [mem_append, mem_singleton, not_or]
  have hold : ∀ c ∈ h.getConnections, c.type = .main → c.fromNode ≠ node → c.toNode ≠ node →
      c ∈ (setAll (h.removeNode node) (rewired h node)).getConnections :=
    fun c hc hmain hfrom hto => mem_setAll hkeyed (.inl (mem_removeNode_iff.mpr ⟨hc, hfrom, hto⟩))
      (hapart' c (hstage.bypass (.inl ⟨hc, hmain⟩)))
  have hrewired : ∀ c ∈ rewired h node,
      c ∈ (setAll (h.removeNode node) (rewired h node)).getConnections :=
    fun c hc => mem_setAll hkeyed (.inr hc) (hapart' c (hstage.bypass (.inr hc)))
  refine ⟨keyed_setAll hkeyed, fun n => ?_, fun c hc hother => ?_,
    fun c hc hmain => ?_, fun c hc hfrom hto => ?_, fun hno c hc => ?_, fun hcycle => ?_⟩
  · refine (mem_getNodes_removeNode hstage.keyed hnode).trans ?_
    rw [hstage.nodes, hmem, and_assoc]
  · rcases mem_of_setAll hkeyed hc with hc | hc
    · obtain ⟨hc, hfrom, hto⟩ := mem_removeNode_iff.mp hc
      obtain ⟨hmem₀, hfrom', hto'⟩ := hstage.other c hc hother
      exact ⟨hmem₀, hmem.mpr ⟨hfrom', hfrom⟩, hmem.mpr ⟨hto', hto⟩⟩
    · exact absurd (hstage.bypass (.inr hc)).main hother
  · rcases mem_of_setAll hkeyed hc with hc | hc
    · exact hstage.bypass (.inl ⟨(mem_removeNode_iff.mp hc).1, hmain⟩)
    · exact hstage.bypass (.inr hc)
  · obtain ⟨hfrom, hfrom'⟩ := hmem.mp hfrom
    obtain ⟨hto, hto'⟩ := hmem.mp hto
    rcases hstage.mem_or_rewired hnew hc hfrom hto with hmem | hmem
    · exact hold c hmem hc.main hfrom' hto'
    · exact hrewired c hmem
  · have hno' : ¬ RemovedCycle g removed := by
      rintro ⟨d, hd, hself, hfrom⟩
      exact hno ⟨d, hd.mono fun n => mem_append_left [node], hself, mem_append_left [node] hfrom⟩
    have hnoSelf : ∀ d ∈ h.getConnections, d.type = .main →
        d.fromNode = node → d.toNode ≠ node := by
      intro d hd hmain hfrom hto
      exact hno ⟨d, hstage.bypass (.inl ⟨hd, hmain⟩), hfrom.trans hto.symm,
        mem_append_right _ (mem_singleton.mpr hfrom)⟩
    rcases mem_of_setAll hkeyed hc with hc | hc
    · obtain ⟨hc, hfrom, hto⟩ := mem_removeNode_iff.mp hc
      obtain ⟨hfrom', hto'⟩ := hstage.closed hno' c hc
      exact ⟨hmem.mpr ⟨hfrom', hfrom⟩, hmem.mpr ⟨hto', hto⟩⟩
    · obtain ⟨d, hd, e, he, hdto, hefrom, hmain, hmain', rfl⟩ :=
        mem_rewired.mp hc
      exact ⟨hmem.mpr ⟨(hstage.closed hno' d hd).1, fun hfrom => hnoSelf d hd hmain hfrom hdto⟩,
        hmem.mpr ⟨(hstage.closed hno' e he).2, hnoSelf e he hmain' hefrom⟩⟩
  · rcases exists_self_bypass hcycle with hcycle | ⟨c, hc, hfrom, hto⟩
    · obtain ⟨c, hc, hmain, hself, hfrom⟩ := hstage.dangles hcycle
      have hne : c.fromNode ≠ node := fun heq => hnew (heq ▸ hfrom)
      exact ⟨c, hold c hc hmain hne (hself ▸ hne), hmain, hself, mem_append_left _ hfrom⟩
    · have hc' : c ∈ h.getConnections :=
        hstage.complete c hc (hfrom.symm ▸ hnew) (hto.symm ▸ hnew)
      refine ⟨c, hrewired c (mem_rewired.mpr ⟨c, hc', c, hc', hto, hfrom,
        hc.main, hc.main, rfl⟩), hc.main, hfrom.trans hto.symm, ?_⟩
      rw [hfrom]
      exact mem_append_right _ (mem_singleton_self node)

theorem nodup_getNodes (hkeyed : Keyed h) : h.getNodes.Nodup := by
  refine List.Nodup.of_map INode.name ?_
  have hkeys : h.getNodes.map INode.name = h.nodes.keys := by
    rw [DirectedGraph.getNodes, map_map]
    refine map_congr_left fun p hp => ?_
    exact hkeyed.nodes p.1 p.2 (OrderedMap.get?_eq_some.mpr hp)
  rw [hkeys]
  exact h.nodes.nodup

theorem foldlM_remove (hapart : BypassesApart g disabled) {rest : List INode} (hrest : rest.Nodup)
    (hnodes : ∀ n ∈ rest, n ∈ g.nodes ∧ n ∉ removed)
    (hdisabled : ∀ n ∈ removed, disabled n = true) (hstage : Stage g removed h) :
    ∃ h', rest.foldlM (removeDisabled disabled) h = .ok h'
      ∧ Stage g (removed ++ rest.filter disabled) h' := by
  induction rest generalizing h removed with
  | nil =>
    rw [filter_nil, append_nil]
    exact ⟨h, rfl, hstage⟩
  | cons node rest ih =>
    obtain ⟨hnew, hrest⟩ := nodup_cons.mp hrest
    obtain ⟨hnode, hnodes⟩ := forall_mem_cons.mp hnodes
    rw [foldlM_cons]
    by_cases hnodeDisabled : disabled node = true
    · have hmem := (hstage.nodes node).mpr hnode
      have hdisabled' : ∀ n ∈ removed ++ [node], disabled n = true :=
        forall_mem_append.mpr ⟨hdisabled, fun n hn => by
          rw [mem_singleton.mp hn]
          exact hnodeDisabled⟩
      have hnodes' : ∀ n ∈ rest, n ∈ g.nodes ∧ n ∉ removed ++ [node] := by
        intro n hn
        obtain ⟨hn₁, hn₂⟩ := hnodes n hn
        refine ⟨hn₁, fun hmem => ?_⟩
        rcases mem_append.mp hmem with hmem | hmem
        · exact hn₂ hmem
        · exact hnew (mem_singleton.mp hmem ▸ hn)
      rw [removeDisabled, if_pos hnodeDisabled, removeNodeReconnecting_ok hstage.keyed hmem,
        filter_cons_of_pos hnodeDisabled, append_cons]
      exact ih hrest hnodes' hdisabled' (hstage.remove hapart hdisabled' hmem)
    · rw [removeDisabled, if_neg hnodeDisabled, filter_cons_of_neg hnodeDisabled]
      exact ih hrest hnodes hdisabled hstage

end

/-! ## The result -/

section

variable {g : Graph} {disabled : INode → Bool}

theorem standsForPath_iff {c : GraphConnection} :
    StandsForPath g.connections disabled c ↔ Bypass g.connections (fun n => disabled n = true) c :=
  bypass_iff.symm

theorem bypassesApart_iff : BypassesApart g disabled ↔ KeysApart g.connections disabled := by
  simp [BypassesApart, KeysApart, standsForPath_iff]

theorem filterDisabledNodes_ok (hapart : BypassesApart g disabled) :
    ∃ removed, (∀ n, n ∈ removed ↔ n ∈ g.nodes ∧ disabled n = true)
      ∧ ∃ filtered, filterDisabledNodes g.graph disabled = .ok filtered
        ∧ Stage g removed filtered := by
  obtain ⟨copy, hcopy, hkeyed, hnodes, hconnections⟩ := clone_ok (g := g)
  obtain ⟨filtered, hok, hstage⟩ := foldlM_remove hapart (nodup_getNodes hkeyed)
    (fun n hn => ⟨(hnodes n).mp hn, not_mem_nil⟩)
    (fun n hn => by cases hn) (Stage.start hkeyed hnodes hconnections)
  refine ⟨_, fun n => ?_, filtered, ?_, hstage⟩
  · rw [nil_append, mem_filter, hnodes]
  · rw [filterDisabledNodes, hcopy]
    exact hok

variable {removed : List INode}

section

variable (hremoved : ∀ n, n ∈ removed ↔ n ∈ g.nodes ∧ disabled n = true)
include hremoved

theorem bypass_removed_iff {c : GraphConnection} :
    Bypass g.connections (· ∈ removed) c ↔ Bypass g.connections (fun n => disabled n = true) c := by
  constructor
  · exact fun hc => hc.mono fun n hn => ((hremoved n).mp hn).2
  · intro hc
    induction hc with
    | base hc hmain => exact .base hc hmain
    | join hc _ hends hvia ihc ihd =>
      exact .join ihc ihd hends ((hremoved _).mpr ⟨hc.mem_nodes.2, hvia⟩)

theorem removedCycle_iff : ¬ RemovedCycle g removed ↔ NoDisabledCycle g.connections disabled := by
  rw [noDisabledCycle_iff]
  constructor
  · intro hno c hc hself hdisabled
    exact hno ⟨c, (bypass_removed_iff hremoved).mpr hc, hself,
      (hremoved _).mpr ⟨hc.mem_nodes.1, hdisabled⟩⟩
  · rintro hno ⟨c, hc, hself, hmem⟩
    exact hno c ((bypass_removed_iff hremoved).mp hc) hself ((hremoved _).mp hmem).2

end

variable {filtered : DirectedGraph}

theorem Stage.owns (hstage : Stage g removed filtered) {n : INode} :
    filtered.owns n = true ↔ n ∈ g.nodes ∧ n ∉ removed := by
  rw [DirectedGraph.owns, decide_eq_true_iff, ← hstage.keyed.mem_getNodes, hstage.nodes]

theorem Stage.connected_iff (hstage : Stage g removed filtered)
    (hremoved : ∀ n, n ∈ removed ↔ n ∈ g.nodes ∧ disabled n = true)
    {u v : INode} (hu : disabled u = false) (hv : disabled v = false)
    (o i : Nat) :
    ⟨u, v, .main, o, i⟩ ∈ filtered.getConnections
      ↔ Connected g.connections (fun n => disabled n = true) u o v i := by
  have hkept : ∀ {n}, disabled n = false → n ∉ removed := by
    intro n hn hmem
    rw [((hremoved n).mp hmem).2] at hn
    cases hn
  constructor
  · intro hc
    exact ((bypass_removed_iff hremoved).mp (hstage.sound _ hc rfl)).connected
  · intro hconnected
    have hbypass : Bypass g.connections (fun n => disabled n = true)
        ⟨u, v, .main, o, i⟩ := bypass_iff.mpr ⟨rfl, hconnected⟩
    exact hstage.complete _ ((bypass_removed_iff hremoved).mpr hbypass) (hkept hu) (hkept hv)

theorem keyed_filterDisabledNodes (h : filterDisabledNodes g.graph disabled = .ok filtered) :
    Keyed filtered := by
  obtain ⟨copy, hcopy, hkeyed, -⟩ := clone_ok (g := g)
  rw [filterDisabledNodes, hcopy] at h
  refine foldlM_preserves (fun h node h' hkeyed hstep => ?_) hkeyed h
  rw [removeDisabled] at hstep
  split at hstep
  · obtain ⟨⟨next, new⟩, hnext, hstep⟩ := bind_eq_ok.mp hstep
    cases hstep
    obtain ⟨incoming, -, hnext⟩ := bind_eq_ok.mp hnext
    obtain ⟨outgoing, -, hnext⟩ := bind_eq_ok.mp hnext
    cases hnext
    exact keyed_setAll (hkeyed.removeNode node)
  · cases hstep
    exact hkeyed

theorem enabledKeysApart_of_filtersDisabled
    (h : FiltersDisabled g.connections g.nodes disabled (filterDisabledNodes g.graph disabled)) :
    EnabledKeysApart g.connections disabled := by
  obtain ⟨filtered, hok, -, -, hall⟩ := h
  have hkeyed := keyed_filterDisabledNodes hok
  have hmem : ∀ c, StandsForPath g.connections disabled c →
      disabled c.fromNode = false → disabled c.toNode = false → c ∈ filtered.getConnections := by
    intro c hc hfrom hto
    obtain ⟨hu, hv⟩ := (standsForPath_iff.mp hc).mem_nodes
    obtain ⟨hmain, hconnected⟩ := hc
    obtain ⟨u, v, type, o, i⟩ := c
    cases hmain
    exact (hall u hu v hv hfrom hto o i).mpr hconnected
  intro c d hc hd hcFrom hcTo hdFrom hdTo hkey
  exact hkeyed.eq_of_makeKey c (hmem c hc hcFrom hcTo) d (hmem d hd hdFrom hdTo) hkey

theorem filtersDisabled_of_keysApart (hkeys : KeysApart g.connections disabled) :
    FiltersDisabled g.connections g.nodes disabled (filterDisabledNodes g.graph disabled)
      ↔ NoDisabledCycle g.connections disabled := by
  obtain ⟨removed, hremoved, filtered, hok, hstage⟩ :=
    filterDisabledNodes_ok (bypassesApart_iff.mpr hkeys)
  rw [← removedCycle_iff hremoved]
  constructor
  · rintro ⟨filtered', hok', -, hown, -⟩ hcycle
    rw [hok] at hok'
    cases hok'
    obtain ⟨c, hc, -, -, hfrom⟩ := hstage.dangles hcycle
    exact (hstage.owns.mp (hown c hc).1).2 hfrom
  · intro hno
    refine ⟨filtered, hok, fun n hn => ?_, fun c hc => ?_,
      fun u _ v _ hu hv o i => hstage.connected_iff hremoved hu hv o i⟩
    · obtain ⟨hn, hkept⟩ := (hstage.nodes n).mp hn
      rw [← Bool.not_eq_true]
      exact fun hdisabled => hkept ((hremoved n).mpr ⟨hn, hdisabled⟩)
    · obtain ⟨hfrom, hto⟩ := hstage.closed hno c hc
      have hmem : c.fromNode ∈ g.nodes ∧ c.toNode ∈ g.nodes := by
        by_cases hmain : c.type = .main
        · exact (hstage.sound c hc hmain).mem_nodes
        · have hc' := (hstage.other c hc hmain).1
          exact ⟨Graph.fromNode_mem hc', Graph.toNode_mem hc'⟩
      exact ⟨hstage.owns.mpr ⟨hmem.1, hfrom⟩, hstage.owns.mpr ⟨hmem.2, hto⟩⟩

end

section

def trigger : INode := ⟨1, "trigger"⟩

def disabledNode : INode := ⟨2, "disabled"⟩

def destination : INode := ⟨3, "destination"⟩

def isDisabledNode (node : INode) : Bool := node.name = "disabled"

/-- Over the disabled node from the trigger to the destination. -/
def lineGraph : Graph :=
  .of [trigger, disabledNode, destination]
    [⟨trigger, disabledNode, .main, 0, 0⟩, ⟨disabledNode, destination, .main, 0, 0⟩] (by decide)

/-- The same, and the disabled node leads to itself as well. -/
def selfGraph : Graph :=
  .of [trigger, disabledNode, destination]
    [⟨trigger, disabledNode, .main, 0, 0⟩, ⟨disabledNode, disabledNode, .main, 1, 0⟩,
      ⟨disabledNode, destination, .main, 0, 0⟩] (by decide)

def left : INode := ⟨4, "A"⟩

def right : INode := ⟨5, "B-main-0-0-C"⟩

def left' : INode := ⟨6, "A-main-0-0-B"⟩

def right' : INode := ⟨7, "C"⟩

/-- Two paths over the disabled node, whose keys are the same, and two
    more. -/
def keyGraph : Graph :=
  .of [left, right, left', right', disabledNode]
    [⟨left, disabledNode, .main, 0, 0⟩, ⟨left', disabledNode, .main, 0, 0⟩,
      ⟨disabledNode, right, .main, 0, 0⟩, ⟨disabledNode, right', .main, 0, 0⟩] (by decide)

/-- The connections of the line, and the one that replaces them. -/
def lineBypasses : List GraphConnection :=
  ⟨trigger, destination, .main, 0, 0⟩ :: lineGraph.connections

theorem bypass_lineGraph {via : INode → Prop} {c : GraphConnection}
    (h : Bypass lineGraph.connections via c) : c ∈ lineBypasses := by
  induction h with
  | base hc _ => exact mem_cons_of_mem _ hc
  | @join c d _ _ hends _ ihc ihd =>
    have hall : ∀ c ∈ lineBypasses, ∀ d ∈ lineBypasses,
        c.toNode = d.fromNode → rewire c d ∈ lineBypasses := by decide
    exact hall c ihc d ihd hends

end

end N8nFilterDisabled
