import N8n.AncestorWalkProofs
import N8n.EstreeProofs

/-! # The built-ins a script accesses — what the static analysis notices

    The runner fetches only the data that a script can read.  What it reads
    is found by a walk over the syntax tree of the script: a call of `$` or
    `$items` with a string names a node, other names need what they stand
    for, and whatever cannot be told from the text needs all nodes.

    `Requires` says what the uses in a program need, and the engine is
    `covers_identify`: the state covers what some visited node is treated as
    needing, and no more.  Some uses are passed over: `$` as a value, a
    member computed by an expression that is neither a literal nor a name, a
    compound assignment.  The analysis is conservative exactly if what these
    need is noticed for another use (`conservative_iff`). -/

namespace N8nBuiltInsParser

open N8nAncestorWalk List
open N8nEstree (LiteralValue)

/-! ## Syntax trees -/

inductive NodeType where
  | ArrayExpression | AwaitExpression | BinaryExpression | BlockStatement
  | BreakStatement | ChainExpression | ClassBody | ConditionalExpression
  | ContinueStatement | DebuggerStatement | DoWhileStatement
  | EmptyStatement | ExportAllDeclaration | ExportDefaultDeclaration
  | ExportNamedDeclaration | ExpressionStatement | ForStatement
  | IfStatement | ImportDeclaration | ImportExpression | LabeledStatement
  | LogicalExpression | MetaProperty | NewExpression | ObjectExpression
  | Program | ReturnStatement | SequenceExpression | SpreadElement
  | StaticBlock | Super | SwitchCase | SwitchStatement
  | TaggedTemplateExpression | TemplateElement | TemplateLiteral
  | ThisExpression | ThrowStatement | TryStatement | UnaryExpression
  | UpdateExpression | VariableDeclaration | WhileStatement
  | WithStatement | YieldExpression

inductive AssignmentOperator where
  | assign | add | subtract | multiply | divide | remainder | exponent
  | shiftLeft | shiftRight | shiftRightUnsigned | bitOr | bitXor | bitAnd
  | or | and | nullish

/-- A node of the tree.  Labels, the names in a meta property and the names
    that are imported or exported are no nodes here.  An identifier says
    whether a declaration of the program binds it, by the scoping rules of
    the language; the analysis does not look at that. -/
inductive Node where
  | Identifier (name : String) (bound : Bool)
  | PrivateIdentifier (name : String)
  | Literal (value : LiteralValue)
  | MemberExpression (object property : Node) (computed optional : Bool)
  | CallExpression (callee : Node) (arguments : List Node) (optional : Bool)
  | AssignmentExpression (operator : AssignmentOperator) (left right : Node)
  | VariableDeclarator (id : Node) (init : Option Node)
  | Function (id : Option Node) (params : List Node) (body : Node)
  | Class (id superClass : Option Node) (body : Node)
  | Property (key : Node) (value : Option Node) (computed : Bool)
  | CatchClause (param : Option Node) (body : Node)
  | ForIn (left right body : Node)
  | ArrayPattern (elements : List Node)
  | ObjectPattern (properties : List Node)
  | AssignmentPattern (left right : Node)
  | RestElement (argument : Node)
  | other (type : NodeType) (nodes : List Node)

/-- How a node stands in the node that holds it.  At `pattern` a name is
    bound or assigned to and not read. -/
inductive Place where
  | callee | object | property | pattern | evaluated
deriving DecidableEq

/-- Nodes that stand at one place. -/
def standing (place : Place) (nodes : List Node) : List (Place × Node) :=
  nodes.map fun node => (place, node)

/-- A key or a property is evaluated only if it is computed. -/
def ifComputed (computed : Bool) (node : Node) : List Node :=
  if computed then [node] else []

def patternParts : Node → List (Place × Node)
  | .Property key value computed =>
    standing .evaluated (ifComputed computed key) ++ standing .pattern value.toList
  | .RestElement argument => [(.pattern, argument)]
  | node => [(.pattern, node)]

/-- The nodes that a node holds and that are evaluated, bound or assigned
    to.  A property of an object pattern is no part itself: its parts are
    the parts of the pattern. -/
def Node.parts : Node → List (Place × Node)
  | .Identifier _ _ | .PrivateIdentifier _ | .Literal _ => []
  | .MemberExpression object property computed _ =>
    (.object, object) :: standing .property (ifComputed computed property)
  | .CallExpression callee arguments _ =>
    (.callee, callee) :: standing .evaluated arguments
  | .AssignmentExpression _ left right | .AssignmentPattern left right =>
    [(.pattern, left), (.evaluated, right)]
  | .VariableDeclarator id init => (.pattern, id) :: standing .evaluated init.toList
  | .Function id params body =>
    standing .pattern (id.toList ++ params) ++ [(.evaluated, body)]
  | .Class id superClass body =>
    standing .pattern id.toList ++ standing .evaluated superClass.toList ++ [(.evaluated, body)]
  | .Property key value computed =>
    standing .evaluated (ifComputed computed key ++ value.toList)
  | .CatchClause param body => standing .pattern param.toList ++ [(.evaluated, body)]
  | .ForIn left right body => [(.pattern, left), (.evaluated, right), (.evaluated, body)]
  | .ArrayPattern elements => standing .pattern elements
  | .ObjectPattern properties => properties.flatMap patternParts
  | .RestElement argument => [(.pattern, argument)]
  | .other _ nodes => standing .evaluated nodes

variable {n : Node} {place : Place}

theorem mem_standing {place' : Place} {nodes : List Node} :
    (place', n) ∈ standing place nodes ↔ place' = place ∧ n ∈ nodes := by
  rw [standing, mem_map]
  constructor
  · rintro ⟨m, hm, heq⟩
    obtain ⟨rfl, rfl⟩ := Prod.mk.inj heq
    exact ⟨rfl, hm⟩
  · rintro ⟨rfl, hn⟩
    exact ⟨n, hn, rfl⟩

/-! ## What is needed -/

/-- Something that a script can need. -/
inductive Need where
  | node (name : String) | allNodes | env | input | execution | prevNode

/-- All nodes stand for each of them, and for the input. -/
inductive Need.Gives : Need → Need → Prop where
  | refl (need : Need) : Gives need need
  | node (name : String) : Gives .allNodes (.node name)
  | input : Gives .allNodes .input

/-- The names of nodes are in the order in which they were added. -/
structure BuiltInsParserState where
  neededNodeNames : List String := []
  needsAllNodes : Bool := false
  needsEnv : Bool := false
  needsInput : Bool := false
  needsExecution : Bool := false
  needsPrevNode : Bool := false

namespace BuiltInsParserState

def markNeedsAllNodes (state : BuiltInsParserState) : BuiltInsParserState :=
  { state with needsAllNodes := true, needsInput := true,
               neededNodeNames := [] }

def markNodeAsNeeded (state : BuiltInsParserState) (nodeName : String) : BuiltInsParserState :=
  if state.needsAllNodes then state
  else if nodeName ∈ state.neededNodeNames then state
  else { state with
    neededNodeNames := state.neededNodeNames ++ [nodeName] }

def markEnvAsNeeded (state : BuiltInsParserState) : BuiltInsParserState :=
  { state with needsEnv := true }

def markInputAsNeeded (state : BuiltInsParserState) : BuiltInsParserState :=
  { state with needsInput := true }

def markExecutionAsNeeded (state : BuiltInsParserState) : BuiltInsParserState :=
  { state with needsExecution := true }

def markPrevNodeAsNeeded (state : BuiltInsParserState) : BuiltInsParserState :=
  { state with needsPrevNode := true }

def newNeedsAllDataState : BuiltInsParserState :=
  ({} : BuiltInsParserState).markNeedsAllNodes.markEnvAsNeeded
    |>.markInputAsNeeded |>.markExecutionAsNeeded |>.markPrevNodeAsNeeded

/-- The data of a need is fetched. -/
def Covers (state : BuiltInsParserState) : Need → Prop
  | .node name => state.needsAllNodes = true ∨ name ∈ state.neededNodeNames
  | .allNodes => state.needsAllNodes = true
  | .env => state.needsEnv = true
  | .input => state.needsInput = true
  | .execution => state.needsExecution = true
  | .prevNode => state.needsPrevNode = true

end BuiltInsParserState

open BuiltInsParserState (newNeedsAllDataState)

/-- `mark…AsNeeded` for what is needed. -/
def BuiltInsParserState.mark (state : BuiltInsParserState) :
    Need → BuiltInsParserState
  | .node name => state.markNodeAsNeeded name
  | .allNodes => state.markNeedsAllNodes
  | .env => state.markEnvAsNeeded
  | .input => state.markInputAsNeeded
  | .execution => state.markExecutionAsNeeded
  | .prevNode => state.markPrevNodeAsNeeded

variable {need : Need}

theorem gives_iff {marked : Need} :
    marked.Gives need ↔ need = marked
      ∨ (marked = .allNodes ∧ (need = .input ∨ ∃ name, need = .node name)) := by
  constructor
  · intro h
    cases h with
    | refl => exact .inl rfl
    | node name => exact .inr ⟨rfl, .inr ⟨name, rfl⟩⟩
    | input => exact .inr ⟨rfl, .inl rfl⟩
  · rintro (rfl | ⟨rfl, rfl | ⟨name, rfl⟩⟩)
    · exact .refl _
    · exact .input
    · exact .node name

theorem covers_markNodeAsNeeded (state : BuiltInsParserState) (name : String) (need : Need) :
    (state.markNodeAsNeeded name).Covers need ↔ state.Covers need ∨ need = .node name := by
  rw [BuiltInsParserState.markNodeAsNeeded]
  by_cases hall : state.needsAllNodes = true
  · rw [if_pos hall]
    refine ⟨.inl, fun h => h.elim id ?_⟩
    rintro rfl
    exact .inl hall
  · rw [if_neg hall]
    by_cases hmem : name ∈ state.neededNodeNames
    · rw [if_pos hmem]
      refine ⟨.inl, fun h => h.elim id ?_⟩
      rintro rfl
      exact .inr hmem
    · rw [if_neg hmem]
      cases need with
      | node other =>
        simp only [BuiltInsParserState.Covers, mem_append, mem_singleton, Need.node.injEq, or_assoc]
      | _ => simp [BuiltInsParserState.Covers]

/-- **A MARK** covers what it gives, and what was covered before. -/
theorem covers_mark (state : BuiltInsParserState) (marked need : Need) :
    (state.mark marked).Covers need ↔ state.Covers need ∨ marked.Gives need := by
  rw [gives_iff]
  cases marked with
  | node name =>
    rw [BuiltInsParserState.mark, covers_markNodeAsNeeded]
    simp
  | _ =>
    cases need <;>
      simp [BuiltInsParserState.mark, BuiltInsParserState.Covers,
        BuiltInsParserState.markNeedsAllNodes, BuiltInsParserState.markEnvAsNeeded,
        BuiltInsParserState.markInputAsNeeded, BuiltInsParserState.markExecutionAsNeeded,
        BuiltInsParserState.markPrevNodeAsNeeded]

theorem not_covers_empty (need : Need) : ¬ ({} : BuiltInsParserState).Covers need := by
  cases need <;> simp [BuiltInsParserState.Covers]

/-! ## The parser -/

/-- `ancestors[ancestors.length - 2]`, where the last one is the node
    itself. -/
def directParent (ancestors : List Node) : Option Node := ancestors.dropLast.getLast?

def isPairedItemProperty (property : LiteralValue) : Bool :=
  property = .string "item" || property = .string "pairedItem"
    || property = .string "itemMatching"

def handlePrevNodeCall (state : BuiltInsParserState)
    (ancestors : List Node) : BuiltInsParserState :=
  match directParent ancestors with
  | some (.MemberExpression _ accessedProperty computed _) =>
    if computed then
      match accessedProperty with
      | .Literal value =>
        if isPairedItemProperty value then state.markNeedsAllNodes
        else state
      | .Identifier _ _ => state.markNeedsAllNodes
      | _ => state
    else
      match accessedProperty with
      | .Identifier name _ =>
        if isPairedItemProperty (.string name) then
          state.markNeedsAllNodes
        else state
      | _ => state
  -- in particular a declaration of a variable and an assignment
  | _ => state.markNeedsAllNodes

def visitDollarCallExpression (arguments : List Node)
    (state : BuiltInsParserState) (ancestors : List Node) :
    BuiltInsParserState :=
  match arguments with
  | [] => state
  | .Literal (.string nodeName) :: _ =>
    handlePrevNodeCall (state.markNodeAsNeeded nodeName) ancestors
  -- not a string: invalid code
  | .Literal _ :: _ => state
  | _ :: _ => state.markNeedsAllNodes

def visitDollarItemsCallExpression (arguments : List Node)
    (state : BuiltInsParserState) : BuiltInsParserState :=
  match arguments with
  | [] => state.markInputAsNeeded
  | .Literal (.string nodeName) :: _ => state.markNodeAsNeeded nodeName
  | .Literal _ :: _ => state
  | _ :: _ => state.markNeedsAllNodes

def visitCallExpression (callee : Node) (arguments : List Node)
    (state : BuiltInsParserState) (ancestors : List Node) :
    BuiltInsParserState :=
  match callee with
  | .Identifier name _ =>
    if name = "$" then visitDollarCallExpression arguments state ancestors
    else if name = "$items" then
      visitDollarItemsCallExpression arguments state
    else state
  | _ => state

def visitIdentifier (name : String) (state : BuiltInsParserState) : BuiltInsParserState :=
  if name = "$env" then state.markEnvAsNeeded
  else if name = "$item" then state.markNeedsAllNodes
  else if name = "$input" ∨ name = "$json" ∨ name = "items"
      ∨ name = "item" then
    state.markInputAsNeeded
  else if name = "$node" then state.markNeedsAllNodes
  else if name = "$execution" then state.markExecutionAsNeeded
  else if name = "$prevNode" then state.markPrevNodeAsNeeded
  else state

/-- The visitor for the type of the node. -/
def visitNode (state : BuiltInsParserState) (ancestors : List Node) :
    Node → BuiltInsParserState
  | .CallExpression callee arguments _ =>
    visitCallExpression callee arguments state ancestors
  | .Identifier name _ => visitIdentifier name state
  | _ => state

/-! ## The walk -/

theorem sizeOf_toList {o : Option Node} (h : n ∈ o.toList) : sizeOf n < sizeOf o := by
  obtain rfl : o = some n := by simpa using h
  simp

theorem mem_ifComputed {computed : Bool} {m : Node} :
    n ∈ ifComputed computed m ↔ computed = true ∧ n = m := by
  cases computed <;> simp [ifComputed]

variable {node : Node}

theorem sizeOf_patternParts {p : Place × Node}
    (h : p ∈ patternParts node) : sizeOf p.2 ≤ sizeOf node := by
  cases node with
  | Property key value computed =>
    rcases mem_append.mp h with h | h
    · rw [(mem_ifComputed.mp (mem_standing.mp h).2).2]
      simp only [Node.Property.sizeOf_spec]
      omega
    · have := sizeOf_toList (mem_standing.mp h).2
      simp only [Node.Property.sizeOf_spec]
      omega
  | RestElement argument =>
    rw [mem_singleton.mp h]
    simp
  | _ => exact Nat.le_of_eq (congrArg (fun p => sizeOf p.2) (mem_singleton.mp h))

theorem sizeOf_parts {a : Node} {p : Place × Node} (h : p ∈ a.parts) : sizeOf p.2 < sizeOf a := by
  obtain ⟨place, n⟩ := p
  cases a with
  | ObjectPattern properties =>
    obtain ⟨property, hmem, hp⟩ := mem_flatMap.mp h
    have hle := sizeOf_patternParts hp
    have hlt := sizeOf_lt_of_mem hmem
    simp only [Node.ObjectPattern.sizeOf_spec]
    exact Nat.lt_of_le_of_lt hle (by omega)
  | Identifier _ _ | PrivateIdentifier _ | Literal _ => cases h
  | _ =>
    simp only [Node.parts, mem_append, mem_cons, mem_standing,
      mem_ifComputed, not_mem_nil, Prod.mk.injEq, or_false] at h
    grind [→ sizeOf_lt_of_mem]

instance : PlacedTree Place Node where
  parts := Node.parts
  sizeOf_lt := sizeOf_parts

/-- A name that a pattern binds or assigns to: the visitor of identifiers is
    not called for it. -/
def IsBinding (place : Place) (node : Node) : Prop :=
  place = .pattern ∧ ∃ name bound, node = .Identifier name bound

/-- A visitor is called for the node, with the nodes around it and itself as
    `ancestors`. -/
def Called (program : Node) (ancestors : List Node) (node : Node) : Prop :=
  ∃ outer place, Visited .evaluated program outer place node
    ∧ ¬ IsBinding place node ∧ ancestors = outer ++ [node]

/-- `ancestor` of the package that walks over syntax trees: the calls of
    visitors, in order. -/
structure Walker where
  ancestor : Node → List (List Node × Node)
  mem_ancestor : ∀ {program node : Node} {ancestors : List Node},
    (ancestors, node) ∈ ancestor program ↔ Called program ancestors node

def identifyBuiltInsByWalkingAst (walker : Walker) (ast : Node) : BuiltInsParserState :=
  (walker.ancestor ast).foldl (fun state call =>
    visitNode state call.1 call.2) {}

/-- The code in a function, as the parser is given it. -/
def wrappedCode (code : String) : String :=
  "async function VmCodeWrapper() \x7b " ++ code ++ " \x7d"

def parseUsedBuiltIns {ε : Type} (parse : String → Except ε Node)
    (walker : Walker) (code : String) : Except ε BuiltInsParserState :=
  (parse (wrappedCode code)).map (identifyBuiltInsByWalkingAst walker)

/-- What the runner fetches: everything, if the code does not parse. -/
def neededBuiltIns {ε : Type} (parse : String → Except ε Node)
    (walker : Walker) (code : String) : BuiltInsParserState :=
  match parseUsedBuiltIns parse walker code with
  | .ok result => result
  | .error _ => newNeedsAllDataState

/-! ## What a program needs -/

/-- What the data behind a built-in name needs. -/
def builtInNeed (name : String) : Option Need :=
  if name ∈ ["$input", "$json", "items", "item"] then some .input
  else if name ∈ ["$item", "$node"] then some .allNodes
  else if name = "$env" then some .env
  else if name = "$execution" then some .execution
  else if name = "$prevNode" then some .prevNode
  else none

/-- The functions that give the data of a node by its name. -/
def IsAccessor (name : String) : Prop := name = "$" ∨ name = "$items"

/-- The program reads a built-in: it evaluates the name, or assigns to it
    what it computes from its value. -/
inductive Reads (program : Node) (name : String) : Place → Prop where
  | evaluated {outer : List Node} {place : Place} :
      Visited .evaluated program outer place (.Identifier name false) →
      place ≠ .pattern → Reads program name place
  | updated {outer : List Node} {place : Place}
      {operator : AssignmentOperator} {right : Node} :
      Visited .evaluated program outer place
        (.AssignmentExpression operator (.Identifier name false) right) →
      operator ≠ .assign → Reads program name .pattern

/-- `name(arguments)` -/
abbrev callOf (name : String) (bound : Bool) (arguments : List Node) (optional : Bool) : Node :=
  .CallExpression (.Identifier name bound) arguments optional

/-- The member that is accessed, where the text says it. -/
def staticMember (property : Node) (computed : Bool) : Option LiteralValue :=
  match property, computed with
  | .Literal value, true => some value
  | .Identifier name _, false => some (.string name)
  | .PrivateIdentifier name, false => some (.string ("#" ++ name))
  | _, _ => none

/-- `$` called with a string by the program, at this place. -/
inductive DollarUse (program : Node) (outer : List Node) (place : Place)
    (node : Node) : Prop where
  | use {nodeName : String} {rest : List Node} {optional : Bool} :
      node = callOf "$" false (.Literal (.string nodeName) :: rest) optional →
      Visited .evaluated program outer place node → DollarUse program outer place node

/-- What the uses of built-ins in a program need.  A call of `$` without
    arguments or with another literal is invalid code and needs nothing. -/
inductive Requires (program : Node) : Need → Prop where
  /-- a built-in is read -/
  | name {place : Place} {name : String} {need : Need} :
      Reads program name place → builtInNeed name = some need → Requires program need
  /-- `$` or `$items` is used as a value -/
  | asValue {place : Place} {name : String} :
      Reads program name place → IsAccessor name → place ≠ .callee → Requires program .allNodes
  /-- the node is named -/
  | node {outer : List Node} {place : Place} {name nodeName : String}
      {rest : List Node} {optional : Bool} :
      Visited .evaluated program outer place
        (callOf name false (.Literal (.string nodeName) :: rest) optional) →
      IsAccessor name → Requires program (.node nodeName)
  /-- the node is computed -/
  | dynamic {outer : List Node} {place : Place} {name : String}
      {first : Node} {rest : List Node} {optional : Bool} :
      Visited .evaluated program outer place (callOf name false (first :: rest) optional) →
      IsAccessor name → (∀ value, first ≠ .Literal value) →
      Requires program .allNodes
  /-- `$items()` gives the input -/
  | ownItems {outer : List Node} {place : Place} {optional : Bool} :
      Visited .evaluated program outer place
        (callOf "$items" false [] optional) → Requires program .input
  /-- the items linked to the current one are found through the nodes
      between -/
  | pairedItem {outer : List Node} {node property : Node}
      {computed optional : Bool} {member : LiteralValue} :
      DollarUse program (outer ++ [.MemberExpression node property computed optional])
        .object node →
      staticMember property computed = some member →
      isPairedItemProperty member = true → Requires program .allNodes
  /-- the member is computed -/
  | member {outer : List Node} {node property : Node}
      {computed optional : Bool} :
      DollarUse program (outer ++ [.MemberExpression node property computed optional])
        .object node →
      staticMember property computed = none → Requires program .allNodes
  /-- what happens to `$("node")` is not an access to a member -/
  | elsewhere {outer : List Node} {place : Place} {node : Node} :
      DollarUse program outer place node → place ≠ .object → Requires program .allNodes

inductive PassedOver (program : Node) : Need → Prop where
  /-- `$` or `$items` as a value: `x = $`, `$.call(…)`, `new $(…)` -/
  | asValue {place : Place} {name : String} :
      Reads program name place → IsAccessor name → place ≠ .callee → PassedOver program .allNodes
  /-- `$json ??= …` -/
  | updated {name : String} {need : Need} :
      Reads program name .pattern → builtInNeed name = some need → PassedOver program need
  /-- `$("node")[expression]`, where the expression is no name either -/
  | member {outer : List Node} {node property : Node}
      {computed optional : Bool} :
      DollarUse program (outer ++ [.MemberExpression node property computed optional])
        .object node →
      staticMember property computed = none →
      (∀ name bound, property ≠ .Identifier name bound) →
      PassedOver program .allNodes
  /-- `x[$("node")]` -/
  | key {outer : List Node} {node : Node} :
      DollarUse program outer .property node → PassedOver program .allNodes

/-- The analysis is conservative on the code: if it parses, what it needs is
    marked. -/
def Conservative {ε : Type} (parse : String → Except ε Node)
    (walker : Walker) (code : String) : Prop :=
  ∀ ast, parse (wrappedCode code) = .ok ast →
    ∃ state, parseUsedBuiltIns parse walker code = .ok state
      ∧ ∀ need, Requires ast need → state.Covers need

/-! ## What the analysis notices -/

/-- The analysis marks all nodes for `$("node")` in this parent. -/
def Followed (parent : Option Node) : Prop :=
  ∀ object property computed optional,
    parent = some (.MemberExpression object property computed optional) →
    (∃ member, staticMember property computed = some member ∧ isPairedItemProperty member = true)
    ∨ (computed = true ∧ ∃ name bound, property = .Identifier name bound)

/-- What the node is treated as needing. -/
inductive Treats (ancestors : List Node) : Node → Need → Prop where
  | name {name : String} {bound : Bool} {need : Need} :
      builtInNeed name = some need → Treats ancestors (.Identifier name bound) need
  | node {name nodeName : String} {bound optional : Bool}
      {rest : List Node} :
      IsAccessor name →
      Treats ancestors (callOf name bound (.Literal (.string nodeName) :: rest) optional)
        (.node nodeName)
  | dynamic {name : String} {bound optional : Bool} {first : Node}
      {rest : List Node} :
      IsAccessor name → (∀ value, first ≠ .Literal value) →
      Treats ancestors (callOf name bound (first :: rest) optional) .allNodes
  | ownItems {bound optional : Bool} : Treats ancestors (callOf "$items" bound [] optional) .input
  | followed {nodeName : String} {bound optional : Bool}
      {rest : List Node} :
      Followed (directParent ancestors) →
      Treats ancestors (callOf "$" bound (.Literal (.string nodeName) :: rest) optional) .allNodes

/-- A use in the program is treated as needing this. -/
def Noticed (program : Node) (need : Need) : Prop :=
  ∃ ancestors node treated, Called program ancestors node
    ∧ Treats ancestors node treated ∧ treated.Gives need

variable {optional : Bool}

theorem followed_member {object property : Node} {computed : Bool} :
    Followed (some (.MemberExpression object property computed optional))
      ↔ (∃ member, staticMember property computed = some member
          ∧ isPairedItemProperty member = true)
        ∨ (computed = true ∧ ∃ name bound, property = .Identifier name bound) := by
  constructor
  · intro h
    exact h _ _ _ _ rfl
  · rintro h _ _ _ _ heq
    obtain ⟨rfl, rfl, rfl, rfl⟩ := Node.MemberExpression.inj (Option.some.inj heq)
    exact h

theorem private_not_paired (name : String) :
    isPairedItemProperty (.string ("#" ++ name)) = false := by
  have hne (member : String) (h : member.toList.head? ≠ some '#') :
      ("#" ++ name) ≠ member := by
    rintro rfl
    exact h (by simp)
  simp [isPairedItemProperty, hne "item" (by decide),
    hne "pairedItem" (by decide), hne "itemMatching" (by decide)]

theorem covers_handlePrevNodeCall (state : BuiltInsParserState)
    (ancestors : List Node) (need : Need) :
    (handlePrevNodeCall state ancestors).Covers need
      ↔ state.Covers need ∨ (Followed (directParent ancestors) ∧ Need.allNodes.Gives need) := by
  have hmark := covers_mark state .allNodes need
  rw [BuiltInsParserState.mark] at hmark
  rw [handlePrevNodeCall]
  split
  · next object property computed optional hparent =>
      rw [hparent, followed_member]
      cases computed <;> cases property <;>
        simp [staticMember, private_not_paired] <;> grind
  · next hparent =>
      have hfollowed : Followed (directParent ancestors) := by
        intro object property computed optional heq
        exact absurd heq (hparent object property computed optional)
      rw [hmark]
      simp [hfollowed]

theorem treats_call {ancestors : List Node} {name : String} {bound : Bool}
    {arguments : List Node} {treated : Need} :
    Treats ancestors (callOf name bound arguments optional) treated
      ↔ IsAccessor name ∧ match arguments with
        | [] => name = "$items" ∧ treated = .input
        | .Literal (.string nodeName) :: _ => treated = .node nodeName
            ∨ (name = "$" ∧ Followed (directParent ancestors) ∧ treated = .allNodes)
        | .Literal _ :: _ => False
        | _ :: _ => treated = .allNodes := by
  constructor
  · intro h
    cases h with
    | node hname => exact ⟨hname, .inl rfl⟩
    | ownItems => exact ⟨.inr rfl, rfl, rfl⟩
    | followed hfollowed => exact ⟨.inl rfl, .inr ⟨rfl, hfollowed, rfl⟩⟩
    | @dynamic _ _ _ first rest hname hfirst =>
      refine ⟨hname, ?_⟩
      cases first with
      | Literal value => exact absurd rfl (hfirst value)
      | _ => rfl
  · rintro ⟨hname, h⟩
    cases arguments with
    | nil =>
      rw [h.1, h.2]
      exact .ownItems
    | cons first rest =>
      cases first with
      | Literal value =>
        cases value with
        | string nodeName =>
          rcases h with htreated | ⟨hdollar, hfollowed, htreated⟩
          · rw [htreated]
            exact .node hname
          · rw [hdollar, htreated]
            exact .followed hfollowed
        | _ => exact h.elim
      | _ =>
        rw [h]
        exact .dynamic hname fun _ heq => by cases heq

theorem visitIdentifier_eq (name : String) (state : BuiltInsParserState) :
    visitIdentifier name state
      = match builtInNeed name with
        | some need => state.mark need
        | none => state := by
  simp only [visitIdentifier, builtInNeed, mem_cons, not_mem_nil, or_false]
  grind [BuiltInsParserState.mark]

theorem covers_visitIdentifier (state : BuiltInsParserState) (ancestors : List Node)
    (name : String) (bound : Bool) (need : Need) :
    (visitIdentifier name state).Covers need
      ↔ state.Covers need ∨ ∃ treated, Treats ancestors (.Identifier name bound) treated
          ∧ treated.Gives need := by
  have htreats (treated : Need) :
      Treats ancestors (.Identifier name bound) treated ↔ builtInNeed name = some treated :=
    ⟨fun h => by cases h with | name h => exact h, .name⟩
  rw [visitIdentifier_eq]
  simp only [htreats]
  cases builtInNeed name with
  | none => simp
  | some marked => simp [covers_mark]

theorem covers_markNeedsAllNodes (state : BuiltInsParserState) (need : Need) :
    state.markNeedsAllNodes.Covers need ↔ state.Covers need ∨ Need.allNodes.Gives need :=
  covers_mark state .allNodes need

theorem gives_node {name : String} : (Need.node name).Gives need ↔ need = .node name := by
  simp [gives_iff]

section

variable (state : BuiltInsParserState) (ancestors : List Node)

section

variable (arguments : List Node) (bound optional : Bool) (need : Need)

theorem covers_visitDollarCallExpression :
    (visitDollarCallExpression arguments state ancestors).Covers need
      ↔ state.Covers need ∨ ∃ treated,
        Treats ancestors (callOf "$" bound arguments optional) treated ∧ treated.Gives need := by
  have hdollar : IsAccessor "$" := .inl rfl
  simp only [treats_call, hdollar, true_and]
  cases arguments with
  | nil => simp [visitDollarCallExpression]
  | cons first rest =>
    cases first with
    | Literal value =>
      cases value with
      | string nodeName =>
        rw [visitDollarCallExpression, covers_handlePrevNodeCall, covers_markNodeAsNeeded, or_assoc]
        simp [or_and_right, exists_or, gives_node, and_assoc]
      | _ => simp [visitDollarCallExpression]
    | _ => simp [visitDollarCallExpression, covers_markNeedsAllNodes]

theorem covers_visitDollarItemsCallExpression :
    (visitDollarItemsCallExpression arguments state).Covers need
      ↔ state.Covers need ∨ ∃ treated,
        Treats ancestors (callOf "$items" bound arguments optional) treated
          ∧ treated.Gives need := by
  have hitems : IsAccessor "$items" := .inr rfl
  simp only [treats_call, hitems, true_and]
  cases arguments with
  | nil =>
    have hmark := covers_mark state .input need
    rw [BuiltInsParserState.mark] at hmark
    simp [visitDollarItemsCallExpression, hmark]
  | cons first rest =>
    cases first with
    | Literal value =>
      cases value with
      | string nodeName =>
        rw [visitDollarItemsCallExpression, covers_markNodeAsNeeded]
        simp [gives_node]
      | _ => simp [visitDollarItemsCallExpression]
    | _ => simp [visitDollarItemsCallExpression, covers_markNeedsAllNodes]

end

theorem covers_visitCallExpression
    (callee : Node) (arguments : List Node) (optional : Bool) (need : Need) :
    (visitCallExpression callee arguments state ancestors).Covers need
      ↔ state.Covers need ∨ ∃ treated,
        Treats ancestors (.CallExpression callee arguments optional) treated
          ∧ treated.Gives need := by
  cases callee with
  | Identifier name bound =>
    by_cases hdollar : name = "$"
    · obtain rfl := hdollar
      exact covers_visitDollarCallExpression state ancestors arguments bound optional need
    · by_cases hitems : name = "$items"
      · obtain rfl := hitems
        exact covers_visitDollarItemsCallExpression state ancestors arguments bound optional need
      · rw [visitCallExpression, if_neg hdollar, if_neg hitems]
        refine ⟨.inl, fun h => h.elim id ?_⟩
        rintro ⟨treated, htreats, -⟩
        exact absurd (treats_call.mp htreats).1 fun hname => hname.elim hdollar hitems
  | _ =>
    refine ⟨.inl, fun h => h.elim id ?_⟩
    rintro ⟨treated, htreats, -⟩
    cases htreats

/-- **ONE VISIT** adds what the node is treated as needing. -/
theorem covers_visitNode (node : Node) (need : Need) : (visitNode state ancestors node).Covers need
      ↔ state.Covers need ∨ ∃ treated, Treats ancestors node treated ∧ treated.Gives need := by
  cases node with
  | Identifier name bound => exact covers_visitIdentifier state ancestors name bound need
  | CallExpression callee arguments optional =>
    exact covers_visitCallExpression state ancestors callee arguments optional need
  | _ =>
    refine ⟨.inl, fun h => h.elim id ?_⟩
    rintro ⟨treated, htreats, -⟩
    cases htreats

end

theorem covers_foldl (calls : List (List Node × Node)) (state : BuiltInsParserState) (need : Need) :
    (calls.foldl (fun state call =>
        visitNode state call.1 call.2) state).Covers need
      ↔ state.Covers need ∨ ∃ call ∈ calls, ∃ treated,
        Treats call.1 call.2 treated ∧ treated.Gives need := by
  induction calls generalizing state with
  | nil => simp
  | cons call rest ih =>
    rw [foldl_cons, ih, covers_visitNode, or_assoc]
    simp

/-- **THE WALK** covers what is noticed. -/
theorem covers_identify (walker : Walker) (program : Node) (need : Need) :
    (identifyBuiltInsByWalkingAst walker program).Covers need ↔ Noticed program need := by
  rw [identifyBuiltInsByWalkingAst, covers_foldl]
  constructor
  · rintro (h | ⟨⟨ancestors, node⟩, hmem, treated, htreats, hgives⟩)
    · exact absurd h (not_covers_empty need)
    · exact ⟨ancestors, node, treated, walker.mem_ancestor.mp hmem, htreats, hgives⟩
  · rintro ⟨ancestors, node, treated, hcalled, htreats, hgives⟩
    exact .inr ⟨(ancestors, node), walker.mem_ancestor.mpr hcalled, treated, htreats, hgives⟩

/-! ## What is required is noticed or passed over -/

variable {program : Node}

theorem PassedOver.requires (h : PassedOver program need) : Requires program need := by
  cases h with
  | asValue hreads hname hplace => exact .asValue hreads hname hplace
  | updated hreads hneed => exact .name hreads hneed
  | member huse hmember _ => exact .member huse hmember
  | key huse => exact .elsewhere huse (by decide)

variable {outer : List Node}

theorem called_of_visited (h : Visited .evaluated program outer place node)
    (hname : ∀ name bound, node ≠ .Identifier name bound) :
    Called program (outer ++ [node]) node :=
  ⟨outer, place, h, fun hbinding => by
    obtain ⟨-, name, bound, heq⟩ := hbinding
    exact hname name bound heq, rfl⟩

theorem directParent_concat (outer : List Node) (node : Node) :
    directParent (outer ++ [node]) = outer.getLast? := by
  rw [directParent, dropLast_concat]

theorem Treats.noticed {ancestors : List Node} (h : Treats ancestors node need)
    (hcalled : Called program ancestors node) : Noticed program need :=
  ⟨ancestors, node, need, hcalled, h, .refl need⟩

theorem noticed_call {name : String} {bound : Bool} {arguments : List Node}
    (hvisited : Visited .evaluated program outer place (callOf name bound arguments optional))
    (h : Treats (outer ++ [callOf name bound arguments optional])
      (callOf name bound arguments optional) need) :
    Noticed program need :=
  h.noticed (called_of_visited hvisited fun _ _ heq => by cases heq)

theorem DollarUse.visited (h : DollarUse program outer place node) :
    Visited .evaluated program outer place node := by
  cases h with
  | use _ hvisited => exact hvisited

theorem DollarUse.noticed (h : DollarUse program outer place node)
    (hfollowed : Followed outer.getLast?) : Noticed program .allNodes := by
  obtain ⟨rfl, hvisited⟩ := h
  refine noticed_call hvisited (.followed ?_)
  rwa [directParent_concat]

theorem followed_of_place (h : Visited .evaluated program outer place node)
    (hobject : place ≠ .object) (hproperty : place ≠ .property) :
    Followed outer.getLast? := by
  intro object property computed optional hparent
  rcases eq_nil_or_concat outer with rfl | ⟨l, a, rfl⟩
  · simp at hparent
  · obtain rfl : a = _ := by simpa using hparent
    rw [concat_eq_append] at h
    have hpart : (place, node) ∈ PlacedTree.parts
        (Node.MemberExpression object property computed optional) := h.last
    rcases mem_cons.mp hpart with heq | hmem
    · exact absurd (Prod.mk.inj heq).1 hobject
    · exact absurd (mem_standing.mp hmem).1 hproperty

/-- **EVERY REQUIREMENT** is noticed or passed over. -/
theorem Requires.noticed_or_passedOver (h : Requires program need) :
    Noticed program need ∨ PassedOver program need := by
  cases h with
  | name hreads hneed =>
    cases hreads with
    | evaluated hvisited hplace =>
      exact .inl ((Treats.name hneed).noticed
        ⟨_, _, hvisited, fun hbinding => hplace hbinding.1, rfl⟩)
    | updated hvisited hoperator =>
      exact .inr (.updated (.updated hvisited hoperator) hneed)
  | asValue hreads hname hplace => exact .inr (.asValue hreads hname hplace)
  | node hvisited hname => exact .inl (noticed_call hvisited (.node hname))
  | dynamic hvisited hname hfirst =>
    exact .inl (noticed_call hvisited (.dynamic hname hfirst))
  | ownItems hvisited => exact .inl (noticed_call hvisited .ownItems)
  | pairedItem huse hmember hpaired =>
    refine .inl (huse.noticed ?_)
    rw [getLast?_concat, followed_member]
    exact .inl ⟨_, hmember, hpaired⟩
  | @member outer node property computed optional huse hmember =>
    by_cases hname : ∃ name bound, property = .Identifier name bound
    · obtain ⟨name, bound, rfl⟩ := hname
      refine .inl (huse.noticed ?_)
      rw [getLast?_concat, followed_member]
      cases computed with
      | true => exact .inr ⟨rfl, name, bound, rfl⟩
      | false => cases hmember
    · exact .inr (.member huse hmember fun name bound heq =>
        hname ⟨name, bound, heq⟩)
  | @elsewhere outer place node huse hplace =>
    by_cases hproperty : place = .property
    · obtain rfl := hproperty
      exact .inr (.key huse)
    · exact .inl (huse.noticed (followed_of_place huse.visited hplace hproperty))

theorem covers_requires_iff (walker : Walker) (program : Node) :
    (∀ need, Requires program need → (identifyBuiltInsByWalkingAst walker program).Covers need)
      ↔ ∀ need, PassedOver program need → Noticed program need := by
  simp only [covers_identify]
  constructor
  · intro h need hpassed
    exact h need hpassed.requires
  · intro h need hrequires
    exact hrequires.noticed_or_passedOver.elim id (h need)

theorem conservative_iff_requires {ε : Type}
    (parse : String → Except ε Node) (walker : Walker) (code : String) :
    Conservative parse walker code ↔ ∀ ast,
      parse (wrappedCode code) = .ok ast → ∀ need, Requires ast need →
        (identifyBuiltInsByWalkingAst walker ast).Covers need := by
  refine forall_congr' fun ast => forall_congr' fun hparse => ?_
  rw [parseUsedBuiltIns, hparse]
  constructor
  · rintro ⟨state, hstate, h⟩
    obtain rfl := Except.ok.inj hstate
    exact h
  · intro h
    exact ⟨_, rfl, h⟩

/-- **CONSERVATIVE IF AND ONLY IF** what the uses that are passed over need
    is noticed for other uses. -/
theorem conservative_iff {ε : Type} (parse : String → Except ε Node) (walker : Walker)
    (code : String) :
    Conservative parse walker code ↔ ∀ ast, parse (wrappedCode code) = .ok ast →
      ∀ need, PassedOver ast need → Noticed ast need := by
  rw [conservative_iff_requires]
  refine forall_congr' fun ast => forall_congr' fun _ => ?_
  exact covers_requires_iff walker ast

/-! ## A member that is computed -/

def isBinding : Place → Node → Bool
  | .pattern, .Identifier _ _ => true
  | _, _ => false

theorem isBinding_iff : isBinding place node = true ↔ IsBinding place node := by
  cases place <;> cases node <;> simp [isBinding, IsBinding]

/-- A walk over the parts of each node and then the node itself. -/
def ancestorWalk (program : Node) : List (List Node × Node) :=
  (visits [] .evaluated program).filterMap fun visit =>
    if isBinding visit.2.1 visit.2.2 then none
    else some (visit.1 ++ [visit.2.2], visit.2.2)

def acornWalk : Walker where
  ancestor := ancestorWalk
  mem_ancestor {program node ancestors} := by
    rw [ancestorWalk, mem_filterMap]
    constructor
    · rintro ⟨⟨outer, place, visited⟩, hmem, h⟩
      split at h
      · cases h
      · next hbinding =>
          obtain ⟨rfl, rfl⟩ := Prod.mk.inj (Option.some.inj h)
          exact ⟨outer, place, mem_visits.mp hmem, fun hb => hbinding (isBinding_iff.mpr hb), rfl⟩
    · rintro ⟨outer, place, hvisited, hbinding, rfl⟩
      refine ⟨(outer, place, node), mem_visits.mpr hvisited, ?_⟩
      rw [if_neg fun hb => hbinding (isBinding_iff.mp hb)]

/-- `$("A")` -/
def dollarCall : Node := callOf "$" false [.Literal (.string "A")] false

/-- `"it" + "em"` -/
def computedItem : Node :=
  .other .BinaryExpression [.Literal (.string "it"), .Literal (.string "em")]

def blockOf (statements : List Node) : Node := .other .BlockStatement statements

def functionOf (statements : List Node) : Node :=
  .Function (some (.Identifier "VmCodeWrapper" true)) [] (blockOf statements)

/-- The function around the statements of a script. -/
def programOf (statements : List Node) : Node := .other .Program [functionOf statements]

theorem visited_statement {statements : List Node} {statement : Node} (h : statement ∈ statements) :
    Visited .evaluated (programOf statements)
      [programOf statements, functionOf statements, blockOf statements] .evaluated statement := by
  have hfunction : (Place.evaluated, functionOf statements)
      ∈ PlacedTree.parts (programOf statements) := mem_singleton_self _
  have hblock : (Place.evaluated, blockOf statements) ∈ PlacedTree.parts (functionOf statements) :=
    mem_of_getElem? (i := 1) rfl
  have hstatement : (Place.evaluated, statement)
      ∈ PlacedTree.parts (blockOf statements) := mem_standing.mpr ⟨rfl, h⟩
  exact .part (.part (.part .root hfunction) hblock) hstatement

/-- `$("A")["it" + "em"]` -/
def computedAccess : Node := .MemberExpression dollarCall computedItem true false

def returnOf (argument : Node) : Node := .other .ReturnStatement [argument]

/-- `return $("A")["it" + "em"]` -/
def computedMember : Node := programOf [returnOf computedAccess]

theorem dollarUse_computedMember :
    ∃ outer, DollarUse computedMember (outer ++ [computedAccess]) .object dollarCall := by
  have haccess : (Place.evaluated, computedAccess) ∈ PlacedTree.parts (returnOf computedAccess) :=
    mem_singleton_self _
  have hcall : (Place.object, dollarCall) ∈ PlacedTree.parts computedAccess := mem_cons_self
  exact ⟨_, .use rfl (.part (.part (visited_statement (mem_singleton_self _)) haccess) hcall)⟩

/-- **A COMPUTED MEMBER** is passed over: only the node is marked. -/
theorem identify_computedMember :
    identifyBuiltInsByWalkingAst acornWalk computedMember = { neededNodeNames := ["A"] } := by
  have hparts (node : Node) : PlacedTree.parts node = node.parts := rfl
  have hwalk : acornWalk.ancestor computedMember = ancestorWalk computedMember := rfl
  rw [identifyBuiltInsByWalkingAst, hwalk, ancestorWalk]
  simp only [computedMember, programOf, functionOf, blockOf, returnOf, computedAccess, dollarCall,
    computedItem, visits_eq, visitsBelow_cons, visitsBelow_nil, hparts, Node.parts, standing,
    ifComputed, map_cons, map_nil, Option.toList, cons_append, nil_append, if_true]
  rfl

/-- The code and its tree. -/
def parseComputedMember (code : String) : Except Unit Node :=
  if code = wrappedCode "return $(\"A\")[\"it\" + \"em\"]" then
    .ok computedMember
  else .error ()

/-- **NOT CONSERVATIVE**: the item is linked through nodes that are not
    fetched. -/
theorem not_conservative_computedMember :
    ¬ ∀ (parse : String → Except Unit Node) (walker : Walker)
      (code : String), Conservative parse walker code := by
  intro h
  have hparse : parseComputedMember (wrappedCode "return $(\"A\")[\"it\" + \"em\"]")
        = .ok computedMember := if_pos rfl
  have hall := (conservative_iff_requires _ _ _).mp
    (h parseComputedMember acornWalk _) computedMember hparse .allNodes
  rw [identify_computedMember] at hall
  obtain ⟨outer, huse⟩ := dollarUse_computedMember
  exact absurd (hall (.member huse rfl)) Bool.false_ne_true

end N8nBuiltInsParser
