import N8n.WorkflowProofs

/-! # Renaming a node — two of the three places an edge is stored in

    `renameNode` moves the node and its outgoing connections to the new key
    and rewrites every connection that ends at the node.  It does not touch
    the table by destination, so that table is right afterwards exactly when
    the node had no edge at all; and moving a key onto itself deletes it, so
    the identity renaming is harmless only for a name nothing is stored
    under. -/

namespace N8nRenameNode

open N8nOrderedMap N8nWorkflow List

/-! ## Expressions in parameters -/

/-- A parameter value; numbers and booleans are of type `V`. -/
inductive ParameterValue (V : Type) where
  | undefined
  | null
  | scalar (value : V)
  | string (text : String)
  | array (values : List (ParameterValue V))
  | object (fields : List (String × ParameterValue V))

abbrev INodeParameters (V : Type) := List (String × ParameterValue V)

variable {V : Type}

/-- Whether a text is an expression. -/
def isExpression (text : String) : Bool := text.toList.head? == some '='

section

/- `applyAccessPatterns(expression, currentName, newName)` rewrites the
   references to a node inside one expression. -/
variable (applyAccessPatterns : String → String → String → String)

mutual

/-- Every expression in the value gets its references rewritten; with
    renamable content every text does, outside of arrays. -/
def renameNodeInParameterValue (currentName newName : String)
    (hasRenamableContent : Bool) : ParameterValue V → ParameterValue V
  | .undefined => .undefined
  | .scalar value => .scalar value
  | .string text =>
    if isExpression text || hasRenamableContent then
      .string (applyAccessPatterns text currentName newName)
    else .string text
  | .array values => .array (renameNodeInArray currentName newName values)
  -- `typeof null` is `object`, and `null || {}` has no keys
  | .null => .object []
  | .object fields =>
    .object (renameNodeInObject currentName newName hasRenamableContent fields)

/-- The elements of an array are rewritten without renamable content. -/
def renameNodeInArray (currentName newName : String) :
    List (ParameterValue V) → List (ParameterValue V)
  | [] => []
  | value :: rest =>
    renameNodeInParameterValue currentName newName false value
      :: renameNodeInArray currentName newName rest

def renameNodeInObject (currentName newName : String) (hasRenamableContent : Bool) :
    List (String × ParameterValue V) → List (String × ParameterValue V)
  | [] => []
  | (parameterName, value) :: rest =>
    (parameterName, renameNodeInParameterValue currentName newName hasRenamableContent
        value) :: renameNodeInObject currentName newName hasRenamableContent rest

end

/-- `parameters[key] = rename(parameters[key])`. -/
def updateParameter (rename : ParameterValue V → ParameterValue V)
    (key : String) (parameters : INodeParameters V) : INodeParameters V :=
  setEntry key (rename ((findKey key parameters).getD .undefined)) parameters

/-- The body of the loop over the form fields: `html` of an html field. -/
def renameFormField (renameField : ParameterValue V → ParameterValue V) :
    ParameterValue V → ParameterValue V
  | .object fields =>
    match findKey "fieldType" fields, findKey "html" fields with
    | some (.string "html"), some html =>
      .object (setEntry "html" (renameField html) fields)
    | _, _ => .object fields
  | value => value

def renameFormFields (renameField : ParameterValue V → ParameterValue V)
    (parameters : INodeParameters V) : INodeParameters V :=
  match findKey "formFields" parameters with
  | some (.object formFields) =>
    match findKey "values" formFields with
    | some (.array values) =>
      let values := values.map (renameFormField renameField)
      setEntry "formFields" (.object (setEntry "values" (.array values) formFields)) parameters
    | _ => parameters
  | _ => parameters

def nodesWithRenamableContent : List String :=
  ["n8n-nodes-base.code", "n8n-nodes-base.function",
   "n8n-nodes-base.functionItem", "n8n-nodes-base.aiTransform"]

def nodesWithRenamableFormHtmlContent : List String := ["n8n-nodes-base.form"]

def nodesWithRenameableToplevelHtmlContent : List String :=
  ["n8n-nodes-base.mailgun", "n8n-nodes-base.html"]

/-- The body of the loop that updates the expressions of every node. -/
def renameInNode (currentName newName : String)
    (node : INode (INodeParameters V)) : INode (INodeParameters V) :=
  let rename := fun hasRenamableContent value =>
    renameNodeInParameterValue applyAccessPatterns currentName newName hasRenamableContent value
  let parameters := renameNodeInObject applyAccessPatterns currentName newName false node.parameters
  let parameters :=
    if node.type ∈ nodesWithRenamableContent then
      updateParameter (rename true) "jsCode" parameters
    else parameters
  let parameters :=
    if node.type ∈ nodesWithRenameableToplevelHtmlContent then
      updateParameter (rename true) "html" parameters
    else parameters
  let parameters :=
    if node.type ∈ nodesWithRenamableFormHtmlContent then
      renameFormFields (rename true) parameters
    else parameters
  { node with parameters }

end

/-! ## The renaming -/

def restrictedKeys : List String :=
  ["hasOwnProperty", "isPrototypeOf", "propertyIsEnumerable",
   "toLocaleString", "toString", "valueOf", "constructor", "prototype",
   "__proto__", "__defineGetter__", "__defineSetter__", "__lookupGetter__", "__lookupSetter__"]

/-- Lower case, as far as a comparison with ASCII text can tell: beside the
    ASCII letters only the Kelvin sign has an ASCII lower case. -/
def toLowerCase (s : String) : List Char :=
  s.toList.map fun c => if c = '\u212A' then 'k' else c.toLower

def isRestricted (name : String) : Bool :=
  (restrictedKeys.map toLowerCase).contains (toLowerCase name)

structure UserError where
  message : String
  description : String

def restrictedNameError (newName : String) : UserError :=
  { message := "Node name \"" ++ newName ++ "\" is a restricted name."
    description := "Node names cannot be any of the following: "
      ++ ", ".intercalate restrictedKeys }

/-- Store the value of one key under another: write it there, then delete
    the old key. -/
def moveKey {ν : Type} (m : OrderedMap String ν)
    (currentName newName : String) (update : ν → ν) : OrderedMap String ν :=
  match m.get? currentName with
  | some v => m.move currentName newName (update v)
  | none => m

/-- A name after the renaming. -/
def renamed (currentName newName name : String) : String :=
  if name = currentName then newName else name

def renamedEnd (currentName newName : String) (c : IConnection) : IConnection :=
  { c with node := renamed currentName newName c.node }

def renameTargets (currentName newName : String) (byType : INodeConnections) : INodeConnections :=
  byType.map fun _ slots =>
    slots.map (Option.map (List.map (renamedEnd currentName newName)))

def renameNode (applyAccessPatterns : String → String → String → String)
    (w : Workflow (INodeParameters V)) (currentName newName : String) :
    Except UserError (Workflow (INodeParameters V)) :=
  if isRestricted newName then .error (restrictedNameError newName)
  else
    let nodes := moveKey w.nodes currentName newName fun node => { node with name := newName }
    let nodes := nodes.map fun _ node =>
      renameInNode applyAccessPatterns currentName newName node
    let connectionsBySourceNode := moveKey w.connectionsBySourceNode currentName newName id
    let connectionsBySourceNode := connectionsBySourceNode.map fun _ byType =>
      renameTargets currentName newName byType
    .ok { w with nodes, connectionsBySourceNode }

/-! ## What an intact graph is -/

def nodeImage (applyAccessPatterns : String → String → String → String)
    (currentName newName : String) (p : String × INode (INodeParameters V)) :
    String × INode (INodeParameters V) :=
  (renamed currentName newName p.1, renameInNode applyAccessPatterns currentName newName
      { p.2 with name := renamed currentName newName p.2.name })

def sourceImage (currentName newName : String)
    (p : String × INodeConnections) : String × INodeConnections :=
  (renamed currentName newName p.1, renameTargets currentName newName p.2)

/-- The graph survives the renaming: nodes and sources are the images of the
    previous ones (literally the previous ones when the name stays), and the
    table by destination is the transpose of the table by source. -/
structure Intact (applyAccessPatterns : String → String → String → String)
    (currentName newName : String)
    (w w' : Workflow (INodeParameters V)) : Prop where
  nodes : w'.nodes.entries.Perm
    (w.nodes.entries.map (nodeImage applyAccessPatterns currentName newName))
  sources : w'.connectionsBySourceNode.entries.Perm
    (w.connectionsBySourceNode.entries.map (sourceImage currentName newName))
  identity : currentName = newName → w'.nodes.entries.Perm w.nodes.entries
      ∧ w'.connectionsBySourceNode.entries.Perm w.connectionsBySourceNode.entries
  transposed : (edges w'.connectionsByDestinationNode).Perm
    ((edges w'.connectionsBySourceNode).map Edge.flip)

/-- The new name is not in use. -/
def Unused (w : Workflow (INodeParameters V)) (name : String) : Prop :=
  name ∉ w.nodes.keys ∧ name ∉ w.connectionsBySourceNode.keys

instance (w : Workflow (INodeParameters V)) (name : String) :
    Decidable (Unused w name) := inferInstanceAs (Decidable (_ ∧ _))

/-- No edge leaves or enters a node of this name. -/
def Isolated (connections : IConnections) (name : String) : Prop :=
  ∀ e ∈ edges connections, e.source.node ≠ name ∧ e.target.node ≠ name

instance (connections : IConnections) (name : String) :
    Decidable (Isolated connections name) :=
  inferInstanceAs (Decidable (∀ e ∈ edges connections, _))

/-! ## Renaming names -/

theorem renamed_self (name a : String) : renamed name name a = a := by
  rw [renamed]
  split
  · next h => exact h.symm
  · rfl

theorem renamed_of_ne {currentName newName a : String}
    (h : a ≠ currentName) : renamed currentName newName a = a := if_neg h

theorem renamed_ne {currentName newName : String} (h : currentName ≠ newName) (a : String) :
    renamed currentName newName a ≠ currentName := by
  by_cases ha : a = currentName
  · rw [renamed, if_pos ha]
    exact Ne.symm h
  · rwa [renamed_of_ne ha]

def renamedEdge (currentName newName : String) (e : Edge) : Edge :=
  ⟨renamedEnd currentName newName e.source, renamedEnd currentName newName e.target⟩

theorem renamedEdge_of_ne {currentName newName : String} {e : Edge}
    (hs : e.source.node ≠ currentName) (ht : e.target.node ≠ currentName) :
    renamedEdge currentName newName e = e := by
  rw [renamedEdge, renamedEnd, renamedEnd, renamed_of_ne hs, renamed_of_ne ht]

theorem slotEdges_renameTargets (currentName newName node : String)
    (type : NodeConnectionType) (n : Nat) (slots : NodeInputConnections) :
    slotEdges (renamed currentName newName node) type n
        (slots.map (Option.map (List.map (renamedEnd currentName newName))))
      = (slotEdges node type n slots).map (renamedEdge currentName newName) := by
  induction slots generalizing n with
  | nil => rfl
  | cons slot rest ih =>
    rw [map_cons, slotEdges_cons, slotEdges_cons, ih, map_append]
    refine congrArg (fun l => l ++ _) ?_
    cases slot with
    | none => rfl
    | some l =>
      simp only [Option.map_some, Option.getD_some, map_map]
      rfl

theorem nodeEdges_renameTargets (currentName newName node : String) (byType : INodeConnections) :
    nodeEdges (renamed currentName newName node) (renameTargets currentName newName byType)
      = (nodeEdges node byType).map (renamedEdge currentName newName) := by
  rw [nodeEdges, nodeEdges, renameTargets, OrderedMap.map, flatMap_map, map_flatMap]
  refine flatMap_congr fun p _ => ?_
  exact slotEdges_renameTargets currentName newName node p.1 0 p.2

theorem edges_of_sourceImage {currentName newName : String} {before after : IConnections}
    (h : after.entries.Perm (before.entries.map (sourceImage currentName newName))) :
    (edges after).Perm ((edges before).map (renamedEdge currentName newName)) := by
  have hmap : (before.entries.map (sourceImage currentName newName)).flatMap
        (fun p => nodeEdges p.1 p.2)
      = (edges before).map (renamedEdge currentName newName) := by
    rw [edges, flatMap_map, map_flatMap]
    refine flatMap_congr fun p _ => ?_
    exact nodeEdges_renameTargets currentName newName p.1 p.2
  rw [← hmap]
  exact h.flatMap_right _

/-- **WHEN A STALE TABLE IS STILL RIGHT**: renaming leaves the edges what
    they were exactly when no edge has the old name at an end. -/
theorem renamedEdges_perm_iff {currentName newName : String}
    (hne : currentName ≠ newName) (l : List Edge) :
    l.Perm (l.map (renamedEdge currentName newName)) ↔
      ∀ e ∈ l, e.source.node ≠ currentName ∧ e.target.node ≠ currentName := by
  constructor
  · intro hperm e he
    obtain ⟨d, -, rfl⟩ := mem_map.mp (hperm.mem_iff.mp he)
    exact ⟨renamed_ne hne _, renamed_ne hne _⟩
  · intro hall
    have hid : l.map (renamedEdge currentName newName) = l :=
      (map_congr_left fun e he =>
        renamedEdge_of_ne (hall e he).1 (hall e he).2).trans (map_id l)
    rw [hid]

/-! ## Moving the keys -/

section

variable {ν : Type} {m : OrderedMap String ν} {currentName newName : String} (update : ν → ν)

theorem entries_moveKey {f : String × ν → String × ν} (hne : currentName ≠ newName)
    (hfree : newName ∉ m.keys)
    (hmoved : ∀ v, (currentName, v) ∈ m.entries → f (currentName, v) = (newName, update v))
    (hother : ∀ p ∈ m.entries, p.1 ≠ currentName → f p = p) :
    (moveKey m currentName newName update).entries.Perm (m.entries.map f) := by
  rcases hget : m.get? currentName with _ | v
  · have hkeep : m.entries.map f = m.entries := by
      refine (map_congr_left ?_).trans (map_id _)
      intro p hp
      refine hother p hp ?_
      intro hkey
      exact OrderedMap.get?_eq_none.mp hget (hkey ▸ mem_map_of_mem (f := Prod.fst) hp)
    rw [moveKey, hget, hkeep]
  · rw [moveKey, hget]
    exact OrderedMap.entries_move_map hget hne hfree (hmoved v (mem_of_findKey hget)) hother

theorem moveKey_of_not_mem (h : currentName ∉ m.keys) :
    moveKey m currentName newName update = m := by
  rw [moveKey, OrderedMap.get?_eq_none.mpr h]

theorem length_moveKey_self (h : currentName ∈ m.keys) :
    (moveKey m currentName currentName update).entries.length < m.entries.length := by
  obtain ⟨v, hget⟩ := OrderedMap.exists_get? h
  have hmove := OrderedMap.entries_move_self m currentName (update v)
  have hlen := (OrderedMap.entries_of_get? hget).length_eq
  rw [moveKey, hget, hmove.length_eq, hlen]
  exact Nat.lt_succ_self _

end

/-! ## The outcome of a renaming -/

variable {applyAccessPatterns : String → String → String → String}
  {currentName newName : String} {w w' : Workflow (INodeParameters V)}

theorem renameNode_ok (h : renameNode applyAccessPatterns w currentName newName = .ok w') :
    w'.nodes.entries =
        (moveKey w.nodes currentName newName
          (fun node => { node with name := newName })).entries.map
          (fun p => (p.1, renameInNode applyAccessPatterns currentName newName p.2))
      ∧ w'.connectionsBySourceNode.entries =
        (moveKey w.connectionsBySourceNode currentName newName id).entries.map
          (fun p => (p.1, renameTargets currentName newName p.2))
      ∧ w'.connectionsByDestinationNode = w.connectionsByDestinationNode := by
  rw [renameNode] at h
  split at h
  · cases h
  · cases h
    exact ⟨rfl, rfl, rfl⟩

theorem sources_image (hne : currentName ≠ newName)
    (hfree : newName ∉ w.connectionsBySourceNode.keys)
    (h : renameNode applyAccessPatterns w currentName newName = .ok w') :
    w'.connectionsBySourceNode.entries.Perm
      (w.connectionsBySourceNode.entries.map (sourceImage currentName newName)) := by
  obtain ⟨-, hsources, -⟩ := renameNode_ok h
  have hmove := entries_moveKey id (f := fun p : String × INodeConnections =>
      (renamed currentName newName p.1, p.2)) hne hfree
    (fun v _ => by rw [renamed, if_pos rfl]; rfl)
    (fun p _ hp => by rw [renamed_of_ne hp])
  rw [hsources]
  have himage := hmove.map (fun p => (p.1, renameTargets currentName newName p.2))
  rwa [map_map] at himage

theorem nodes_image (hw : w.Consistent) (hne : currentName ≠ newName)
    (hfree : newName ∉ w.nodes.keys)
    (h : renameNode applyAccessPatterns w currentName newName = .ok w') :
    w'.nodes.entries.Perm (w.nodes.entries.map
      (nodeImage applyAccessPatterns currentName newName)) := by
  obtain ⟨hnodes, -, -⟩ := renameNode_ok h
  have hmove := entries_moveKey
    (fun node : INode (INodeParameters V) => { node with name := newName })
    (f := fun p : String × INode (INodeParameters V) =>
      (renamed currentName newName p.1,
        { p.2 with name := renamed currentName newName p.2.name }))
    hne hfree
    (fun v hv => by
      have hname : v.name = currentName := hw.named _ hv
      simp [renamed, if_pos hname])
    (fun p hp hkey => by
      have hname : p.2.name ≠ currentName := by
        rw [hw.named p hp]
        exact hkey
      simp [renamed_of_ne hkey, renamed_of_ne hname])
  rw [hnodes]
  have himage := hmove.map (fun p =>
    (p.1, renameInNode applyAccessPatterns currentName newName p.2))
  rwa [map_map] at himage

theorem transposed_iff (hw : w.Consistent) (hne : currentName ≠ newName)
    (hfree : newName ∉ w.connectionsBySourceNode.keys)
    (h : renameNode applyAccessPatterns w currentName newName = .ok w') :
    (edges w'.connectionsByDestinationNode).Perm
        ((edges w'.connectionsBySourceNode).map Edge.flip) ↔
      Isolated w.connectionsBySourceNode currentName := by
  obtain ⟨-, -, hdestination⟩ := renameNode_ok h
  have hsources := edges_of_sourceImage (sources_image hne hfree h)
  have hflip : ∀ l : List Edge, (l.map Edge.flip).map Edge.flip = l := by
    intro l
    rw [map_map]
    exact map_id l
  rw [Isolated, ← renamedEdges_perm_iff hne, hdestination]
  constructor
  · intro hperm
    have hback := (hw.transposed.symm.trans hperm).map Edge.flip
    rw [hflip, hflip] at hback
    exact hback.trans hsources
  · intro hperm
    exact hw.transposed.trans ((hperm.trans hsources.symm).map Edge.flip)

/-! ## The identity renaming -/

theorem sourceImage_self (name : String) (p : String × INodeConnections) :
    sourceImage name name p = p := by
  have hend : renamedEnd name name = id := by
    funext c
    rw [renamedEnd, renamed_self]
    rfl
  simp [sourceImage, renamed_self, renameTargets, hend, OrderedMap.map, Prod.eta]

theorem nodeImage_self (name : String) (p : String × INode (INodeParameters V)) :
    nodeImage applyAccessPatterns name name p
      = (p.1, renameInNode applyAccessPatterns name name p.2) := by
  simp [nodeImage, renamed_self]

theorem fixed_of_perm {ν : Type} {m : OrderedMap String ν} {f : ν → ν}
    (h : (m.entries.map fun p => (p.1, f p.2)).Perm m.entries) :
    ∀ p ∈ m.entries, f p.2 = p.2 := by
  intro p hp
  have hmem : (p.1, f p.2) ∈ m.entries :=
    h.mem_iff.mp (mem_map_of_mem (f := fun p => (p.1, f p.2)) hp)
  have hnew := findKey_of_mem m.nodup hmem
  have hold := findKey_of_mem m.nodup hp
  rw [hold] at hnew
  exact (Option.some.inj hnew).symm

/-- The condition for a renaming to leave the graph intact: the identity
    needs a name nothing is stored under and parameters without anything to
    rewrite, every other renaming a node without edges. -/
def KeepsGraph (applyAccessPatterns : String → String → String → String)
    (currentName newName : String) (w : Workflow (INodeParameters V)) :
    Prop :=
  if currentName = newName then
    Unused w currentName ∧ ∀ p ∈ w.nodes.entries,
      renameInNode applyAccessPatterns currentName newName p.2 = p.2
  else Isolated w.connectionsBySourceNode currentName

theorem intact_self_iff (hw : w.Consistent) {name : String}
    (h : renameNode applyAccessPatterns w name name = .ok w') :
    Intact applyAccessPatterns name name w w' ↔ Unused w name ∧ ∀ p ∈ w.nodes.entries,
        renameInNode applyAccessPatterns name name p.2 = p.2 := by
  obtain ⟨hnodes, hsources, hdestination⟩ := renameNode_ok h
  constructor
  · intro hintact
    obtain ⟨hkeepNodes, hkeepSources⟩ := hintact.identity rfl
    have hnodeName : name ∉ w.nodes.keys := by
      intro hmem
      have hlen := hkeepNodes.length_eq
      rw [hnodes, length_map] at hlen
      exact absurd hlen (Nat.ne_of_lt (length_moveKey_self _ hmem))
    have hsourceName : name ∉ w.connectionsBySourceNode.keys := by
      intro hmem
      have hlen := hkeepSources.length_eq
      rw [hsources, length_map] at hlen
      exact absurd hlen (Nat.ne_of_lt (length_moveKey_self _ hmem))
    refine ⟨⟨hnodeName, hsourceName⟩, fixed_of_perm ?_⟩
    rwa [hnodes, moveKey_of_not_mem _ hnodeName] at hkeepNodes
  · rintro ⟨⟨hnodeName, hsourceName⟩, hfixed⟩
    have hself : w'.connectionsBySourceNode.entries = w.connectionsBySourceNode.entries := by
      rw [hsources, moveKey_of_not_mem _ hsourceName]
      refine (map_congr_left fun p _ => ?_).trans (map_id _)
      have himage := sourceImage_self name p
      rw [sourceImage, renamed_self] at himage
      exact himage
    have hkeep : w'.nodes.entries = w.nodes.entries := by
      rw [hnodes, moveKey_of_not_mem _ hnodeName]
      refine (map_congr_left fun p hp => ?_).trans (map_id _)
      rw [hfixed p hp]
      rfl
    have hedges : edges w'.connectionsBySourceNode = edges w.connectionsBySourceNode := by
      rw [edges, hself, edges]
    refine ⟨?_, ?_, fun _ => ?_, ?_⟩
    · refine List.Perm.of_eq ?_
      rw [hnodes, moveKey_of_not_mem _ hnodeName]
      exact map_congr_left fun p _ => (nodeImage_self name p).symm
    · refine List.Perm.of_eq ?_
      rw [hself]
      refine ((map_congr_left fun p _ => ?_).trans (map_id _)).symm
      exact sourceImage_self name p
    · rw [hself, hkeep]
      exact ⟨List.Perm.refl _, List.Perm.refl _⟩
    · rw [hdestination, hedges]
      exact hw.transposed

/-- **WHEN RENAMING KEEPS THE GRAPH**: nodes, sources and destinations fit
    together afterwards exactly under `KeepsGraph`. -/
theorem intact_iff (hw : w.Consistent) (hnew : currentName = newName ∨ Unused w newName)
    (h : renameNode applyAccessPatterns w currentName newName = .ok w') :
    Intact applyAccessPatterns currentName newName w w' ↔
      KeepsGraph applyAccessPatterns currentName newName w := by
  by_cases hne : currentName = newName
  · subst hne
    rw [KeepsGraph, if_pos rfl]
    exact intact_self_iff hw h
  · obtain ⟨hnode, hsource⟩ := hnew.resolve_left hne
    rw [KeepsGraph, if_neg hne, ← transposed_iff hw hne hsource h]
    constructor
    · intro hintact
      exact hintact.transposed
    · intro htransposed
      exact ⟨nodes_image hw hne hnode h, sources_image hne hsource h,
        fun heq => absurd heq hne, htransposed⟩

/-! ## Two workflows -/

/-- A node without parameters. -/
def plainNode (name : String) : INode (INodeParameters Nat) :=
  { name, type := "n8n-nodes-base.set", typeVersion := 3, position := (0, 0)
    disabled := false, parameters := [], rewireOutputLogTo := none }

/-- A trigger connected to a node, and a third node beside them. -/
def triggerAndSet : Workflow (INodeParameters Nat) :=
  let connections := OrderedMap.empty.set "Trigger" <|
    OrderedMap.empty.set .main [some [⟨"Set", .main, 0⟩]]
  .new [plainNode "Trigger", plainNode "Set", plainNode "Note"] connections none

/-- Renaming the node without edges keeps the graph. -/
theorem intact_isolated :
    ∃ w', renameNode (fun text _ _ => text) triggerAndSet "Note" "Memo"
        = .ok w'
      ∧ Intact (fun text _ _ => text) "Note" "Memo" triggerAndSet w' := by
  refine ⟨_, rfl, (intact_iff (Workflow.new_consistent ..) (Or.inr (by decide)) rfl).mpr ?_⟩
  rw [KeepsGraph, if_neg (by decide)]
  decide

/-- Renaming the end of an edge leaves the table by destination behind, and
    renaming a node to its own name deletes it. -/
theorem rename_breaks_graph : (∃ w', renameNode (fun text _ _ => text) triggerAndSet "Set" "Edit"
          = .ok w'
        ∧ Unused triggerAndSet "Edit"
        ∧ ¬ (edges w'.connectionsByDestinationNode).Perm
            ((edges w'.connectionsBySourceNode).map Edge.flip)
        ∧ ¬ Intact (fun text _ _ => text) "Set" "Edit" triggerAndSet w')
      ∧ ∃ w', renameNode (fun text _ _ => text) triggerAndSet "Set" "Set"
          = .ok w'
        ∧ "Set" ∈ triggerAndSet.nodes.keys ∧ "Set" ∉ w'.nodes.keys
        ∧ ¬ Intact (fun text _ _ => text) "Set" "Set" triggerAndSet w' := by
  refine ⟨⟨_, rfl, by decide, by decide, ?_⟩, ⟨_, rfl, by decide, by decide, ?_⟩⟩
  · intro h
    exact absurd h.transposed (by decide)
  · intro h
    exact absurd (h.identity rfl).1.length_eq (by decide)

end N8nRenameNode
