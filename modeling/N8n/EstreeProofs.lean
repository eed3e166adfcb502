import N8n.SyntaxTreesProofs

/-! # The abstract syntax of expressions

    The nodes of the ESTree format, as the parser of expressions builds them.
    The nodes that the sanitizers look into have a constructor each, with the
    fields that hold nodes, names, values or the `computed` flag; any other
    node is its type and the nodes in its fields.  Flags that no sanitizer
    reads (`async`, `kind`, `shorthand`) are left out, and so are operators.

    `parts` lists the nodes in the fields of a node with the name each is
    reached by, and `rebuild` puts others in their place. -/

namespace N8nEstree

open N8nSyntaxTree List

/-- The names of the fields that hold nodes. -/
inductive Field where
  | alternate | argument | arguments | block | body | callee | cases
  | consequent | declarations | discriminant | elements | expression
  | expressions | finalizer | handler | id | init | key | label | left
  | metaName | object | param | params | program | properties | property
  | quasi | quasis | right | source | superClass | tag | test | update
  | value
deriving DecidableEq

/-- How a node is reached from the node that holds it: by a field, or by its
    index in a field that is an array. -/
inductive Edge where
  | field (name : Field)
  | item (name : Field) (index : Nat)
deriving DecidableEq

def Edge.fieldName : Edge → Field
  | .field name | .item name _ => name

/-- The nodes that no sanitizer looks into. -/
inductive NodeType where
  | ArrayExpression | ArrayPattern | ArrowFunctionExpression
  | AssignmentExpression | AssignmentPattern | AwaitExpression
  | BinaryExpression | BlockStatement | BreakStatement | CatchClause
  | ChainExpression | ClassBody | ConditionalExpression | ContinueStatement
  | DebuggerStatement | DoWhileStatement | EmptyStatement
  | ExpressionStatement | File | ForInStatement | ForOfStatement
  | ForStatement | FunctionDeclaration | IfStatement | ImportExpression
  | LabeledStatement | LogicalExpression | MetaProperty | NewExpression
  | ObjectExpression | PrivateIdentifier | Program | RestElement
  | ReturnStatement | SequenceExpression | SpreadElement | StaticBlock
  | Super | SwitchCase | SwitchStatement | TaggedTemplateExpression
  | TemplateElement | TemplateLiteral | ThrowStatement | TryStatement
  | UnaryExpression | UpdateExpression | VariableDeclaration
  | VariableDeclarator | WhileStatement | WithStatement | YieldExpression

/-- The text of a number: digits first, or `Infinity`. -/
structure NumberText where
  text : String
  numeric : (text.toList.head?.any Char.isDigit) = true ∨ text = "Infinity"
deriving DecidableEq

/-- The value of a literal. -/
inductive LiteralValue where
  | string (value : String)
  | number (value : NumberText)
  | bigint (value : Nat)
  | boolean (value : Bool)
  | null
  | regex (pattern flags : String)
deriving DecidableEq

inductive Node where
  | Identifier (name : String)
  | Literal (value : LiteralValue)
  | StringLiteral (value : String)
  | ThisExpression
  | MemberExpression (object property : Node) (computed optional : Bool)
  | CallExpression (callee : Node) (arguments : List Node) (optional : Bool)
  | FunctionExpression (fields : List (Edge × Node))
  | ClassDeclaration (superClass : Option Node) (fields : List (Edge × Node))
  | ClassExpression (superClass : Option Node) (fields : List (Edge × Node))
  | ObjectPattern (properties : List Node)
  | Property (key value : Node) (computed : Bool)
  | MethodDefinition (key value : Node) (computed : Bool)
  | PropertyDefinition (key : Node) (value : Option Node) (computed : Bool)
  | other (type : NodeType) (fields : List (Edge × Node))

def NodeType.text : NodeType → String
  | .ArrayExpression => "ArrayExpression"
  | .ArrayPattern => "ArrayPattern"
  | .ArrowFunctionExpression => "ArrowFunctionExpression"
  | .AssignmentExpression => "AssignmentExpression"
  | .AssignmentPattern => "AssignmentPattern"
  | .AwaitExpression => "AwaitExpression"
  | .BinaryExpression => "BinaryExpression"
  | .BlockStatement => "BlockStatement"
  | .BreakStatement => "BreakStatement"
  | .CatchClause => "CatchClause"
  | .ChainExpression => "ChainExpression"
  | .ClassBody => "ClassBody"
  | .ConditionalExpression => "ConditionalExpression"
  | .ContinueStatement => "ContinueStatement"
  | .DebuggerStatement => "DebuggerStatement"
  | .DoWhileStatement => "DoWhileStatement"
  | .EmptyStatement => "EmptyStatement"
  | .ExpressionStatement => "ExpressionStatement"
  | .File => "File"
  | .ForInStatement => "ForInStatement"
  | .ForOfStatement => "ForOfStatement"
  | .ForStatement => "ForStatement"
  | .FunctionDeclaration => "FunctionDeclaration"
  | .IfStatement => "IfStatement"
  | .ImportExpression => "ImportExpression"
  | .LabeledStatement => "LabeledStatement"
  | .LogicalExpression => "LogicalExpression"
  | .MetaProperty => "MetaProperty"
  | .NewExpression => "NewExpression"
  | .ObjectExpression => "ObjectExpression"
  | .PrivateIdentifier => "PrivateIdentifier"
  | .Program => "Program"
  | .RestElement => "RestElement"
  | .ReturnStatement => "ReturnStatement"
  | .SequenceExpression => "SequenceExpression"
  | .SpreadElement => "SpreadElement"
  | .StaticBlock => "StaticBlock"
  | .Super => "Super"
  | .SwitchCase => "SwitchCase"
  | .SwitchStatement => "SwitchStatement"
  | .TaggedTemplateExpression => "TaggedTemplateExpression"
  | .TemplateElement => "TemplateElement"
  | .TemplateLiteral => "TemplateLiteral"
  | .ThrowStatement => "ThrowStatement"
  | .TryStatement => "TryStatement"
  | .UnaryExpression => "UnaryExpression"
  | .UpdateExpression => "UpdateExpression"
  | .VariableDeclaration => "VariableDeclaration"
  | .VariableDeclarator => "VariableDeclarator"
  | .WhileStatement => "WhileStatement"
  | .WithStatement => "WithStatement"
  | .YieldExpression => "YieldExpression"

def Node.type : Node → String
  | .Identifier _ => "Identifier"
  | .Literal _ => "Literal"
  | .StringLiteral _ => "StringLiteral"
  | .ThisExpression => "ThisExpression"
  | .MemberExpression _ _ _ _ => "MemberExpression"
  | .CallExpression _ _ _ => "CallExpression"
  | .FunctionExpression _ => "FunctionExpression"
  | .ClassDeclaration _ _ => "ClassDeclaration"
  | .ClassExpression _ _ => "ClassExpression"
  | .ObjectPattern _ => "ObjectPattern"
  | .Property _ _ _ => "Property"
  | .MethodDefinition _ _ _ => "MethodDefinition"
  | .PropertyDefinition _ _ _ => "PropertyDefinition"
  | .other type _ => type.text

/-- The nodes of an array, with their indices. -/
def items (name : Field) (nodes : List Node) : List (Edge × Node) :=
  nodes.mapIdx fun i n => (.item name i, n)

def optionalPart (name : Field) (node : Option Node) : List (Edge × Node) :=
  node.toList.map fun n => (.field name, n)

/-- The nodes in the fields of a node. -/
def parts : Node → List (Edge × Node)
  | .Identifier _ | .Literal _ | .StringLiteral _ | .ThisExpression => []
  | .MemberExpression object property _ _ =>
    [(.field .object, object), (.field .property, property)]
  | .CallExpression callee arguments _ =>
    (.field .callee, callee) :: items .arguments arguments
  | .FunctionExpression fields | .other _ fields => fields
  | .ClassDeclaration superClass fields
  | .ClassExpression superClass fields => optionalPart .superClass superClass ++ fields
  | .ObjectPattern properties => items .properties properties
  | .Property key value _ | .MethodDefinition key value _ =>
    [(.field .key, key), (.field .value, value)]
  | .PropertyDefinition key value _ => (.field .key, key) :: optionalPart .value value

/-- New nodes in the fields of a list. -/
def relabel (fields : List (Edge × Node)) (nodes : List Node) : List (Edge × Node) :=
  fields.zipWith (fun p n => (p.1, n)) nodes

/-- The node with new nodes in its fields. -/
def rebuild : Node → List Node → Node
  | .MemberExpression _ _ computed optional, [object, property] =>
    .MemberExpression object property computed optional
  | .CallExpression _ _ optional, callee :: arguments =>
    .CallExpression callee arguments optional
  | .FunctionExpression fields, nodes => .FunctionExpression (relabel fields nodes)
  | .ClassDeclaration none fields, nodes => .ClassDeclaration none (relabel fields nodes)
  | .ClassDeclaration (some _) fields, superClass :: nodes =>
    .ClassDeclaration (some superClass) (relabel fields nodes)
  | .ClassExpression none fields, nodes => .ClassExpression none (relabel fields nodes)
  | .ClassExpression (some _) fields, superClass :: nodes =>
    .ClassExpression (some superClass) (relabel fields nodes)
  | .ObjectPattern _, nodes => .ObjectPattern nodes
  | .Property _ _ computed, [key, value] => .Property key value computed
  | .MethodDefinition _ _ computed, [key, value] => .MethodDefinition key value computed
  | .PropertyDefinition _ none computed, [key] => .PropertyDefinition key none computed
  | .PropertyDefinition _ (some _) computed, [key, value] =>
    .PropertyDefinition key (some value) computed
  | .other type fields, nodes => .other type (relabel fields nodes)
  | n, _ => n

theorem relabel_map (f : Edge × Node → Node) (fields : List (Edge × Node)) :
    relabel fields (fields.map f) = fields.map fun p => (p.1, f p) := by
  rw [relabel, zipWith_map_right, zipWith_self]

theorem map_snd_items (name : Field) (nodes : List Node) :
    (items name nodes).map Prod.snd = nodes := by
  refine ext_getElem (by simp [items]) fun i hi hi' => ?_
  simp [items]

theorem items_map (name : Field) (f : Edge × Node → Node) (nodes : List Node) :
    items name ((items name nodes).map f) = (items name nodes).map fun p => (p.1, f p) := by
  refine ext_getElem (by simp [items]) fun i hi hi' => ?_
  simp [items]

/-- **NEW PARTS** in the place of the old ones. -/
theorem parts_rebuild (n : Node) (f : Edge × Node → Node) :
    parts (rebuild n ((parts n).map f)) = (parts n).map fun p => (p.1, f p) := by
  cases n with
  | CallExpression callee arguments optional =>
    simp [parts, rebuild, items_map]
  | ObjectPattern properties => exact items_map .properties f properties
  | FunctionExpression fields => exact relabel_map f fields
  | other type fields => exact relabel_map f fields
  | ClassDeclaration superClass fields =>
    cases superClass <;>
      simp [parts, rebuild, optionalPart, relabel_map]
  | ClassExpression superClass fields =>
    cases superClass <;>
      simp [parts, rebuild, optionalPart, relabel_map]
  | PropertyDefinition key value computed =>
    cases value <;> rfl
  | _ => rfl

/-! ## Parts are smaller -/

variable {p : Edge × Node}

theorem sizeOf_items {name : Field} {nodes : List Node}
    (h : p ∈ items name nodes) : sizeOf p.2 < sizeOf nodes := by
  obtain ⟨i, hi, rfl⟩ := mem_mapIdx.mp h
  exact sizeOf_lt_of_mem (getElem_mem hi)

theorem sizeOf_fields {fields : List (Edge × Node)}
    (h : p ∈ fields) : sizeOf p.2 < sizeOf fields := by
  have hlt := sizeOf_lt_of_mem h
  have hpair : sizeOf p.2 < sizeOf p := by
    obtain ⟨e, n⟩ := p
    simp only [Prod.mk.sizeOf_spec]
    omega
  omega

theorem sizeOf_optionalPart {name : Field} {node : Option Node} (h : p ∈ optionalPart name node) :
    sizeOf p.2 < sizeOf node := by
  cases node with
  | none => cases h
  | some n =>
    obtain rfl := mem_singleton.mp h
    simp

theorem sizeOf_pair {e e' : Edge} {a b : Node}
    (h : p ∈ [(e, a), (e', b)]) : sizeOf p.2 ≤ sizeOf a + sizeOf b := by
  rcases mem_cons.mp h with rfl | h
  · exact Nat.le_add_right ..
  · obtain rfl := mem_singleton.mp h
    exact Nat.le_add_left ..

/-- The parts of a node are smaller than the node. -/
theorem sizeOf_parts {n : Node} (h : p ∈ parts n) : sizeOf p.2 < sizeOf n := by
  cases n with
  | Identifier name => cases h
  | Literal value => cases h
  | StringLiteral value => cases h
  | ThisExpression => cases h
  | MemberExpression object property computed optional =>
    have := sizeOf_pair h
    simp only [Node.MemberExpression.sizeOf_spec]
    omega
  | CallExpression callee arguments optional =>
    simp only [Node.CallExpression.sizeOf_spec]
    rcases mem_cons.mp h with rfl | h
    · dsimp only
      omega
    · have := sizeOf_items h
      omega
  | FunctionExpression fields =>
    have : sizeOf p.2 < sizeOf fields := sizeOf_fields h
    simp only [Node.FunctionExpression.sizeOf_spec]
    omega
  | other type fields =>
    have : sizeOf p.2 < sizeOf fields := sizeOf_fields h
    simp only [Node.other.sizeOf_spec]
    omega
  | ObjectPattern properties =>
    have := sizeOf_items h
    simp only [Node.ObjectPattern.sizeOf_spec]
    omega
  | ClassDeclaration superClass fields =>
    simp only [Node.ClassDeclaration.sizeOf_spec]
    rcases mem_append.mp h with h | h
    · have := sizeOf_optionalPart h
      omega
    · have := sizeOf_fields h
      omega
  | ClassExpression superClass fields =>
    simp only [Node.ClassExpression.sizeOf_spec]
    rcases mem_append.mp h with h | h
    · have := sizeOf_optionalPart h
      omega
    · have := sizeOf_fields h
      omega
  | Property key value computed =>
    have := sizeOf_pair h
    simp only [Node.Property.sizeOf_spec]
    omega
  | MethodDefinition key value computed =>
    have := sizeOf_pair h
    simp only [Node.MethodDefinition.sizeOf_spec]
    omega
  | PropertyDefinition key value computed =>
    simp only [Node.PropertyDefinition.sizeOf_spec]
    rcases mem_cons.mp h with rfl | h
    · dsimp only
      omega
    · have := sizeOf_optionalPart h
      omega

instance : SyntaxTree Node where
  children n := (parts n).map Prod.snd
  sizeOf_lt {n c} h := by
    obtain ⟨p, hp, rfl⟩ := mem_map.mp h
    exact sizeOf_parts hp

end N8nEstree
