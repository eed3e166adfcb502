import N8n.ConnectionTableProofs
import N8n.DirectedGraphProofs

/-! # The transposed connection table — two implementations of one inversion

    `mapConnectionsByDestination` and the method of `Workflow` read the
    connections by source and write them by destination.  The nested loops
    push one edge at a time, and all that is needed of them is what one push
    does to the list of edges.

    Both write to plain objects that answer `hasOwnProperty` themselves.  A
    node or a type of that name hides the method, and one named `__proto__`
    is set as a prototype and becomes no key; the condition of the transpose
    is that this happens on neither side. -/

namespace N8nTranspose

open N8nOrderedMap N8nConnectionTable List OrderedMap
open N8nDirectedGraph (GraphError arrayIndexLimit propertyOrder
  propertyOrder_perm mem_propertyOrder)

/-- One end of a connection: a node, and an input or output of it. -/
structure IConnection where
  node : String
  type : String
  index : Int
deriving DecidableEq

abbrev INodeConnections := InnerTable String IConnection

abbrev IConnections := Table String String IConnection

/-- An edge, from an output of a node to an input of a node. -/
structure Edge where
  source : IConnection
  target : IConnection
deriving DecidableEq

/-- The same edge read from its other end. -/
def Edge.flip (e : Edge) : Edge := { source := e.target, target := e.source }

/-- The edge that a stored connection is. -/
def edge (p : Placed String String IConnection) : Edge :=
  { source := { node := p.outer, type := p.inner, index := p.index }
    target := p.value }

/-- The edges of a table, each read from the node it is stored under. -/
def edges (connections : IConnections) : List Edge := (values connections).map edge

/-! ## The two implementations -/

/-- `returnConnection`: its own keys, and the object that took the place of
    its prototype, if one was assigned to `__proto__`. -/
structure ReturnConnection where
  own : IConnections
  proto : Option INodeConnections

namespace ReturnConnection

def empty : ReturnConnection := { own := .empty, proto := none }

/-- `returnConnection.hasOwnProperty` is no longer the inherited method. -/
def hidden (r : ReturnConnection) : Bool :=
  r.own.has "hasOwnProperty"
    || (r.proto.getD .empty).has "hasOwnProperty"

/-- The object of a node after `returnConnection[node] = {}` where
    `hasOwnProperty` did not find it; `__proto__` is never found. -/
def node (r : ReturnConnection) (name : String) : INodeConnections :=
  if name = "__proto__" then .empty else innerOf r.own name

def setNode (r : ReturnConnection) (name : String) (byType : INodeConnections) : ReturnConnection :=
  if name = "__proto__" then { r with proto := some byType }
  else { r with own := r.own.set name byType }

end ReturnConnection

/-- The slots of a type after the padding and `[index]?.push`. -/
def pushIndex (slots : Slots IConnection) (index : Int) (c : IConnection) : Slots IConnection :=
  if 0 ≤ index then pushSlot slots index.toNat c else slots

/-- The types of a node after the push; an array under `__proto__` is a
    prototype and no key. -/
def pushType (byType : INodeConnections) (type : String) (index : Int)
    (c : IConnection) : INodeConnections :=
  if type = "__proto__" then byType
  else byType.set type (pushIndex (slotsOf byType type) index c)

/-- The body of the innermost loop. -/
def pushSource (r : ReturnConnection) (e : Edge) : Except GraphError ReturnConnection :=
  if r.hidden then .error .typeError
  else
    let byType := r.node e.target.node
    if byType.has "hasOwnProperty" then .error .typeError
    else if (arrayIndexLimit : Int) ≤ e.target.index then .error .rangeError
    else .ok (r.setNode e.target.node (pushType byType e.target.type e.target.index e.source))

/-- The nested loops that both implementations are. -/
def invert (connections : IConnections) : Except GraphError IConnections :=
  ReturnConnection.own <$>
    (propertyOrder connections.keys).foldlM (fun r sourceNode =>
      if connections.has "hasOwnProperty" then .error .typeError
      else
        let byType := innerOf connections sourceNode
        (propertyOrder byType.keys).foldlM (fun r type =>
          if byType.has "hasOwnProperty" then .error .typeError
          else
            (slotsOf byType type).zipIdx.foldlM (fun r (slot, inputIndex) =>
              (slot.getD []).foldlM (fun r connectionInfo =>
                pushSource r ⟨⟨sourceNode, type, inputIndex⟩, connectionInfo⟩) r) r) r)
      ReturnConnection.empty

/-- The function of `common`. -/
def mapConnectionsByDestination (connections : IConnections) :
    Except GraphError IConnections := invert connections

/-- The method of the class, with the same loops. -/
def Workflow.getConnectionsByDestination (connections : IConnections) :
    Except GraphError IConnections := invert connections

/-! ## The loops as one list of edges -/

/-- No node and no type is called `hasOwnProperty`. -/
def Clean (connections : IConnections) : Prop :=
  ∀ p ∈ connections.entries, p.1 ≠ "hasOwnProperty" ∧ ∀ q ∈ p.2.entries, q.1 ≠ "hasOwnProperty"

/-- The edges in the order the loops visit them. -/
def visited (connections : IConnections) : List Edge :=
  (propertyOrder connections.keys).flatMap fun sourceNode =>
    (propertyOrder (innerOf connections sourceNode).keys).flatMap fun type =>
      (slotValues (Placed.mk sourceNode type) 0
        (slotsOf (innerOf connections sourceNode) type)).map edge

variable {ε σ : Type}

theorem foldlM_ok_step {α : Type} {f : σ → α → Except ε σ} {l : List α}
    {s r : σ} (h : l.foldlM f s = .ok r) :
    ∀ a ∈ l, ∃ t t', f t a = .ok t' := by
  induction l generalizing s with
  | nil => exact fun a ha => by cases ha
  | cons b rest ih =>
    rw [foldlM_cons] at h
    rcases hstep : f s b with error | t
    · rw [hstep] at h
      cases h
    · rw [hstep] at h
      exact forall_mem_cons.mpr ⟨⟨s, t, hstep⟩, ih h⟩

theorem foldlM_flatMap {α β : Type} (f : σ → β → Except ε σ) (g : α → List β) (l : List α) (s : σ) :
    (l.flatMap g).foldlM f s = l.foldlM (fun s a => (g a).foldlM f s) s := by
  induction l generalizing s with
  | nil => rfl
  | cons a rest ih =>
    rw [flatMap_cons, foldlM_append, foldlM_cons]
    exact congrArg _ (funext ih)

theorem visited_perm (connections : IConnections) :
    (visited connections).Perm (edges connections) := by
  have hkeys : ∀ {ν : Type} (m : OrderedMap String ν) {δ : Type} (g : String → ν → List δ) (d : ν),
      ((propertyOrder m.keys).flatMap fun k => g k ((m.get? k).getD d)).Perm
        (m.entries.flatMap fun p => g p.1 p.2) := by
    intro ν m δ g d
    refine ((propertyOrder_perm m.keys).flatMap_right _).trans ?_
    rw [OrderedMap.keys, flatMap_map]
    refine List.Perm.of_eq (flatMap_congr fun p hp => ?_)
    rw [get?_eq_some.mpr hp]
    rfl
  rw [visited, edges, values, map_flatMap]
  refine (hkeys connections (fun sourceNode byType =>
    (propertyOrder byType.keys).flatMap fun type =>
      (slotValues (Placed.mk sourceNode type) 0 (slotsOf byType type)).map edge) .empty).trans ?_
  refine List.Perm.flatMap_left _ fun p _ => ?_
  rw [innerValues, map_flatMap]
  exact hkeys p.2 (fun type slots =>
    (slotValues (Placed.mk p.1 type) 0 slots).map edge) []

variable {connections : IConnections}

theorem Clean.has (h : Clean connections) :
    connections.has "hasOwnProperty" = false
      ∧ ∀ n, (innerOf connections n).has "hasOwnProperty" = false := by
  constructor
  · refine Bool.eq_false_iff.mpr fun hhas => ?_
    obtain ⟨p, hp, hname⟩ := mem_map.mp (has_iff.mp hhas)
    exact (h p hp).1 hname
  · intro n
    refine Bool.eq_false_iff.mpr fun hhas => ?_
    obtain ⟨q, hq, hname⟩ := mem_map.mp (has_iff.mp hhas)
    rcases hget : connections.get? n with _ | byType
    · rw [innerOf, hget] at hq
      cases hq
    · rw [innerOf, hget] at hq
      exact (h _ (get?_eq_some.mp hget)).2 q hq hname

theorem invert_of_clean (h : Clean connections) :
    invert connections = ReturnConnection.own <$>
      (visited connections).foldlM pushSource .empty := by
  obtain ⟨htable, hinner⟩ := h.has
  rw [invert, visited, foldlM_flatMap]
  simp only [htable, hinner, Bool.false_eq_true, if_false]
  refine congrArg (fun f => ReturnConnection.own <$> List.foldlM f _ _) ?_
  funext r sourceNode
  rw [foldlM_flatMap]
  refine congrArg (fun f => List.foldlM f _ _) ?_
  funext r type
  rw [foldlM_map, slotValues, foldlM_flatMap]
  refine congrArg (fun f => List.foldlM f _ _) ?_
  funext r p
  rw [foldlM_map]
  rfl

theorem map_ok {τ : Type} {f : σ → τ} {x : Except ε σ} {t : τ}
    (h : f <$> x = .ok t) : ∃ s, x = .ok s ∧ f s = t := by
  rcases x with error | s
  · cases h
  · cases h
    exact ⟨s, rfl, rfl⟩

theorem has_of_step {b : Bool} {error : GraphError} {rest : Except GraphError σ} {t : σ}
    (h : (if b then .error error else rest) = .ok t) :
    b = false ∧ rest = .ok t := by
  cases b
  · exact ⟨rfl, h⟩
  · cases h

variable {table : IConnections}

theorem clean_of_invert (h : invert connections = .ok table) : Clean connections := by
  obtain ⟨r, hfold, -⟩ := map_ok h
  intro p hp
  have hkey : p.1 ∈ connections.keys := mem_map_of_mem hp
  obtain ⟨t, t', hstep⟩ := foldlM_ok_step hfold p.1 (mem_propertyOrder.mpr hkey)
  obtain ⟨hhas, hrest⟩ := has_of_step hstep
  have hget : innerOf connections p.1 = p.2 := by
    rw [innerOf, get?_eq_some.mpr hp]
    rfl
  refine ⟨fun hname => ?_, fun q hq hname => ?_⟩
  · rw [hname] at hkey
    rw [has_iff.mpr hkey] at hhas
    cases hhas
  · have htype : q.1 ∈ p.2.keys := mem_map_of_mem hq
    rw [hget] at hrest
    obtain ⟨u, u', hinner⟩ := foldlM_ok_step hrest q.1 (mem_propertyOrder.mpr htype)
    have hno := (has_of_step hinner).1
    rw [hname] at htype
    rw [has_iff.mpr htype] at hno
    cases hno

/-! ## One push -/

/-- The edge becomes an entry of the table it is pushed to. -/
def Lands (e : Edge) : Prop :=
  e.target.node ≠ "__proto__" ∧ e.target.type ≠ "__proto__" ∧ 0 ≤ e.target.index

instance (e : Edge) : Decidable (Lands e) := by
  unfold Lands
  infer_instance

/-- No slot of the table is `null`. -/
def AllFilled (table : IConnections) : Prop := ∀ n type, Filled (slotsOf (innerOf table n) type)

variable {byType : INodeConnections}

theorem AllFilled.set (h : AllFilled table) (name : String)
    (hfilled : ∀ type, Filled (slotsOf byType type)) :
    AllFilled (table.set name byType) := by
  intro n type
  rw [innerOf_set]
  split
  · exact hfilled type
  · exact h n type

theorem filled_pushType (h : ∀ type, Filled (slotsOf byType type)) (type : String)
    (index : Int) (c : IConnection) :
    ∀ t, Filled (slotsOf (pushType byType type index c) t) := by
  intro t
  rw [pushType]
  split
  · exact h t
  · rw [slotsOf_set]
    split
    · rw [pushIndex]
      split
      · exact (h type).pushSlot _ c
      · exact h type
    · exact h t

/-- The edge read from its target, where it is stored. -/
def Edge.placed (e : Edge) : Placed String String IConnection :=
  { outer := e.target.node, inner := e.target.type
    index := e.target.index.toNat, value := e.source }

/-- What an edge adds to the table it is pushed to. -/
def landed (e : Edge) : List (Placed String String IConnection) :=
  if Lands e then [e.placed] else []

theorem map_edge_landed (e : Edge) : (landed e).map edge = if Lands e then [e.flip] else [] := by
  rw [landed]
  split
  · next hlands =>
      rw [map_singleton, edge, Edge.placed, Int.toNat_of_nonneg hlands.2.2]
      rfl
  · rfl

theorem innerValues_pushType (e : Edge) (h : ∀ type, Filled (slotsOf byType type))
    (hnode : e.target.node ≠ "__proto__") :
    (innerValues e.target.node (pushType byType e.target.type e.target.index e.source)).Perm
      (landed e ++ innerValues e.target.node byType) := by
  by_cases htype : e.target.type = "__proto__"
  · rw [pushType, if_pos htype, landed, if_neg fun hlands => hlands.2.1 htype]
    exact List.Perm.refl _
  · rw [pushType, if_neg htype]
    refine innerValues_set e.target.node byType e.target.type (landed e) ?_
    by_cases hindex : 0 ≤ e.target.index
    · have hpush := slotValues_pushSlot
        (Placed.mk e.target.node e.target.type) 0 (h e.target.type) e.target.index.toNat e.source
      rw [Nat.zero_add] at hpush
      rw [pushIndex, if_pos hindex, landed, if_pos ⟨hnode, htype, hindex⟩]
      exact hpush
    · rw [pushIndex, if_neg hindex, landed, if_neg fun hlands => hindex hlands.2.2]
      exact List.Perm.refl _

variable {e : Edge} {r : ReturnConnection}

/-- **ONE PUSH**: the table gains the flipped edge, if that lands, and
    nothing else. -/
theorem edges_pushSource {r' : ReturnConnection} (hfilled : AllFilled r.own)
    (h : pushSource r e = .ok r') :
    (edges r'.own).Perm ((if Lands e then [e.flip] else []) ++ edges r.own)
      ∧ AllFilled r'.own ∧ e.target.index < arrayIndexLimit := by
  obtain ⟨-, h⟩ := has_of_step h
  obtain ⟨-, h⟩ := has_of_step h
  by_cases hindex : (arrayIndexLimit : Int) ≤ e.target.index
  · rw [if_pos hindex] at h
    cases h
  · rw [if_neg hindex] at h
    cases h
    refine ⟨?_, ?_, Int.not_le.mp hindex⟩
    · by_cases hnode : e.target.node = "__proto__"
      · rw [ReturnConnection.setNode, if_pos hnode, if_neg fun hlands => hlands.1 hnode]
        exact List.Perm.refl _
      · rw [ReturnConnection.setNode, if_neg hnode, ReturnConnection.node, if_neg hnode]
        have hset := values_set r.own e.target.node (landed e)
          (innerValues_pushType e (hfilled e.target.node) hnode)
        rw [← map_edge_landed]
        exact (hset.map edge).trans (List.Perm.of_eq map_append)
    · rw [ReturnConnection.setNode]
      split
      · exact hfilled
      · next hnode =>
          rw [ReturnConnection.node, if_neg hnode]
          exact hfilled.set _ (filled_pushType (hfilled _) _ _ _)

/-! ## A run of pushes -/

theorem foldlM_pushSource {l : List Edge} {r' : ReturnConnection}
    (hfilled : AllFilled r.own) (h : l.foldlM pushSource r = .ok r') :
    (edges r'.own).Perm ((l.filter Lands).map Edge.flip ++ edges r.own)
      ∧ ∀ e ∈ l, e.target.index < arrayIndexLimit := by
  induction l generalizing r with
  | nil =>
    cases h
    exact ⟨List.Perm.refl _, fun e he => by cases he⟩
  | cons e rest ih =>
    rw [foldlM_cons] at h
    rcases hstep : pushSource r e with error | t
    · rw [hstep] at h
      cases h
    · rw [hstep] at h
      obtain ⟨hperm, hfilled', hindex⟩ := edges_pushSource hfilled hstep
      obtain ⟨hrest, hindices⟩ := ih hfilled' h
      refine ⟨?_, forall_mem_cons.mpr ⟨hindex, hindices⟩⟩
      refine hrest.trans ((hperm.append_left _).trans ?_)
      rw [filter_cons]
      by_cases hlands : Lands e
      · rw [if_pos hlands, if_pos (decide_eq_true hlands), map_cons]
        exact perm_middle
      · rw [if_neg hlands, if_neg (by simpa using hlands)]
        exact List.Perm.refl _

/-- What an object of arrays can store, and find again. -/
structure Storable (c : IConnection) : Prop where
  node : c.node ≠ "hasOwnProperty" ∧ c.node ≠ "__proto__"
  type : c.type ≠ "hasOwnProperty" ∧ c.type ≠ "__proto__"
  index : 0 ≤ c.index ∧ c.index < arrayIndexLimit

theorem Storable.lands (h : Storable e.target) : Lands e := ⟨h.node.2, h.type.2, h.index.1⟩

theorem Clean.set (h : Clean table) {name : String} (hname : name ≠ "hasOwnProperty")
    (htypes : ∀ q ∈ byType.entries, q.1 ≠ "hasOwnProperty") :
    Clean (table.set name byType) := by
  intro p hp
  rcases mem_entries_set.mp hp with rfl | ⟨hp, -⟩
  · exact ⟨hname, htypes⟩
  · exact h p hp

theorem Clean.innerOf (h : Clean table) (n : String) :
    ∀ q ∈ (innerOf table n).entries, q.1 ≠ "hasOwnProperty" := by
  rw [N8nConnectionTable.innerOf]
  rcases hget : table.get? n with _ | byType
  · exact fun q hq => by cases hq
  · exact (h _ (get?_eq_some.mp hget)).2

theorem pushSource_of_storable (hclean : Clean r.own)
    (hproto : r.proto = none) (h : Storable e.target) :
    ∃ r', pushSource r e = .ok r' ∧ Clean r'.own ∧ r'.proto = none := by
  have hhidden : r.hidden = false := by
    rw [ReturnConnection.hidden, hclean.has.1, hproto]
    rfl
  have hnode : r.node e.target.node = innerOf r.own e.target.node := if_neg h.node.2
  have hindex : ¬ (arrayIndexLimit : Int) ≤ e.target.index := Int.not_le.mpr h.index.2
  simp only [pushSource, hhidden, hnode, hclean.has.2, hindex, Bool.false_eq_true, if_false]
  rw [ReturnConnection.setNode, if_neg h.node.2]
  refine ⟨_, rfl, hclean.set h.node.1 ?_, hproto⟩
  rw [pushType, if_neg h.type.2]
  intro q hq
  rcases mem_entries_set.mp hq with rfl | ⟨hq, -⟩
  · exact h.type.1
  · exact hclean.innerOf _ q hq

theorem foldlM_of_storable {l : List Edge} (hclean : Clean r.own)
    (hproto : r.proto = none) (h : ∀ e ∈ l, Storable e.target) :
    ∃ r', l.foldlM pushSource r = .ok r' ∧ Clean r'.own := by
  induction l generalizing r with
  | nil => exact ⟨r, rfl, hclean⟩
  | cons e rest ih =>
    obtain ⟨he, hrest⟩ := forall_mem_cons.mp h
    obtain ⟨t, hstep, hclean', hproto'⟩ := pushSource_of_storable hclean hproto he
    rw [foldlM_cons, hstep]
    exact ih hclean' hproto' hrest

/-! ## The transpose -/

theorem allFilled_empty : AllFilled .empty := fun _ _ => filled_nil

theorem edges_invert (h : invert connections = .ok table) :
    (edges table).Perm (((edges connections).filter Lands).map Edge.flip)
      ∧ ∀ e ∈ edges connections, e.target.index < arrayIndexLimit := by
  rw [invert_of_clean (clean_of_invert h)] at h
  obtain ⟨r, hfold, rfl⟩ := map_ok h
  obtain ⟨hperm, hindices⟩ := foldlM_pushSource allFilled_empty hfold
  have hvisited := visited_perm connections
  rw [show edges ReturnConnection.empty.own = [] from rfl, append_nil] at hperm
  exact ⟨hperm.trans ((hvisited.filter _).map _), fun e he => hindices e (hvisited.mem_iff.mpr he)⟩

theorem invert_of_storable (hclean : Clean connections)
    (h : ∀ e ∈ edges connections, Storable e.target) :
    ∃ table, invert connections = .ok table ∧ Clean table
      ∧ (edges table).Perm ((edges connections).map Edge.flip) := by
  obtain ⟨r, hfold, hclean'⟩ := foldlM_of_storable (r := .empty)
    (fun p hp => by cases hp) rfl fun e he => h e ((visited_perm connections).mem_iff.mp he)
  have hok : invert connections = .ok r.own := by
    rw [invert_of_clean hclean, hfold]
    rfl
  refine ⟨r.own, hok, hclean', ?_⟩
  have hperm := (edges_invert hok).1
  rwa [filter_eq_self.mpr fun e he => decide_eq_true (h e he).lands] at hperm

theorem Clean.source (h : Clean connections) (he : e ∈ edges connections) :
    e.source.node ≠ "hasOwnProperty" ∧ e.source.type ≠ "hasOwnProperty" := by
  obtain ⟨placed, hplaced, rfl⟩ := mem_map.mp he
  obtain ⟨p, hp, hinner⟩ := mem_flatMap.mp hplaced
  obtain ⟨q, hq, hslot⟩ := mem_flatMap.mp hinner
  obtain ⟨i, c, -, rfl⟩ := mem_slotValues.mp hslot
  exact ⟨(h p hp).1, (h p hp).2 q hq⟩

theorem storable_of_invert (h : invert connections = .ok table) (hclean : Clean table)
    (hperm : (edges table).Perm ((edges connections).map Edge.flip)) :
    ∀ e ∈ edges connections, Storable e.target := by
  obtain ⟨hlanded, hindices⟩ := edges_invert h
  have hlength := (hlanded.symm.trans hperm).length_eq
  rw [length_map, length_map] at hlength
  intro e he
  have hlands : Lands e := by
    simpa using length_filter_eq_length_iff.mp hlength e he
  have hflip : e.flip ∈ edges table := hperm.mem_iff.mpr (mem_map_of_mem he)
  obtain ⟨hnode, htype⟩ := hclean.source hflip
  exact ⟨⟨hnode, hlands.1⟩, ⟨htype, hlands.2.1⟩, hlands.2.2, hindices e he⟩

/-- Both implementations give one table, which holds the edges flipped, each
    as often as before; and inverted once more it holds the edges. -/
def ExactTranspose (connections : IConnections) : Prop :=
  ∃ table, mapConnectionsByDestination connections = .ok table
    ∧ (edges table).Perm ((edges connections).map Edge.flip)
    ∧ Workflow.getConnectionsByDestination connections = .ok table
    ∧ ∃ back, mapConnectionsByDestination table = .ok back ∧ (edges back).Perm (edges connections)

/-- No key hides `hasOwnProperty`, and both ends of every edge can be
    stored. -/
structure Transposable (connections : IConnections) : Prop where
  clean : Clean connections
  ends : ∀ e ∈ edges connections, Storable e.source ∧ Storable e.target

theorem flip_flip (l : List Edge) : (l.map Edge.flip).map Edge.flip = l := by
  rw [map_map]
  exact map_id l

theorem ExactTranspose.transposable
    (h : ExactTranspose connections) : Transposable connections := by
  obtain ⟨table, hmap, hperm, -, back, hagain, hsame⟩ := h
  have hclean := clean_of_invert hmap
  have htargets := storable_of_invert hmap (clean_of_invert hagain) hperm
  have hflips := hperm.map Edge.flip
  rw [flip_flip] at hflips
  -- The source of an edge is the target of the flipped one.
  have hlanded := edges_invert hagain
  have hlength := (hlanded.1.symm.trans (hsame.trans hflips.symm)).length_eq
  rw [length_map, length_map] at hlength
  refine ⟨hclean, fun e he => ⟨?_, htargets e he⟩⟩
  have hflip : e.flip ∈ edges table := hperm.mem_iff.mpr (mem_map_of_mem he)
  have hlands : Lands e.flip := by
    simpa using length_filter_eq_length_iff.mp hlength _ hflip
  obtain ⟨hnode, htype⟩ := hclean.source he
  exact ⟨⟨hnode, hlands.1⟩, ⟨htype, hlands.2.1⟩, hlands.2.2, hlanded.2 _ hflip⟩

theorem Transposable.exactTranspose
    (h : Transposable connections) : ExactTranspose connections := by
  obtain ⟨table, hmap, hclean, hperm⟩ := invert_of_storable h.clean fun e he => (h.ends e he).2
  have hsources : ∀ e ∈ edges table, Storable e.target := by
    intro e he
    obtain ⟨d, hd, rfl⟩ := mem_map.mp (hperm.mem_iff.mp he)
    exact (h.ends d hd).1
  obtain ⟨back, hagain, -, hsame⟩ := invert_of_storable hclean hsources
  have hflips := hperm.map Edge.flip
  rw [flip_flip] at hflips
  exact ⟨table, hmap, hperm, hmap, back, hagain, hsame.trans hflips⟩

/-- **THE EXACT TRANSPOSE**, and where it is one. -/
theorem exactTranspose_iff (connections : IConnections) :
    ExactTranspose connections ↔ Transposable connections :=
  ⟨ExactTranspose.transposable, Transposable.exactTranspose⟩

/-- Two connections, the first to a node named like the method: the second
    push throws. -/
def toHasOwnProperty : IConnections :=
  .set .empty "Start" (.set .empty "main"
    [some [⟨"hasOwnProperty", "main", 0⟩, ⟨"End", "main", 0⟩]])

theorem not_exactTranspose_toHasOwnProperty : ¬ ExactTranspose toHasOwnProperty := by
  intro h
  have hedge : (⟨⟨"Start", "main", 0⟩, ⟨"hasOwnProperty", "main", 0⟩⟩ : Edge)
      ∈ edges toHasOwnProperty := by decide
  exact (h.transposable.ends _ hedge).2.node.1 rfl

end N8nTranspose
