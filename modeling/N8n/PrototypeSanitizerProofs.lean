import N8n.ExceptProofs
import N8n.EstreeProofs

/-! # Property access in expressions

    Before an expression is evaluated, a visitor goes through its syntax tree
    and rejects what reads a property that leads out of the sandbox.  A key
    that is only known at run time is wrapped in a call of the sanitizer,
    which checks it then.

    `confined_of_accepts` says what an accepted tree looks like: every member
    access, object pattern and class in it is harmless as it stands or goes
    through the sanitizer, so no property that is looked up is forbidden.
    The static check takes a literal by its value and the access by its text;
    that they agree is `isSafe_toText`. -/

namespace N8nPrototypeSanitizer

open N8nExcept N8nSyntaxTree N8nEstree List

/-! ## Properties -/

def unsafeObjectProperties : List String :=
  ["__proto__", "prototype", "constructor", "getPrototypeOf", "mainModule",
   "binding", "_load", "prepareStackTrace"]

def isSafeObjectProperty (property : String) : Bool := property ∉ unsafeObjectProperties

def blockedBaseClasses : List String :=
  ["Function", "GeneratorFunction", "AsyncFunction", "AsyncGeneratorFunction"]

/-- `String(value)`, which is also the key that the value stands for. -/
def toText : LiteralValue → String
  | .string value => value
  | .number value => value.text
  | .bigint value => toString value
  | .boolean value => if value then "true" else "false"
  | .null => "null"
  | .regex pattern flags => "/" ++ pattern ++ "/" ++ flags

/-- `isSafeObjectProperty(value as string)`: the set has texts only. -/
def isSafeValue : LiteralValue → Bool
  | .string value => isSafeObjectProperty value
  | _ => true

inductive Error where
  | ExpressionError (message : String)
  | ExpressionClassExtensionError (message : String)
  | ExpressionDestructuringError (message : String)
  | ExpressionComputedDestructuringError (message : String)
  /-- what the conversion of a value to a text throws -/
  | thrown

def cannotAccess (property : String) : Error :=
  .ExpressionError ("Cannot access \"" ++ property ++ "\" due to security concerns")

def cannotExtend (baseClass : String) : Error :=
  .ExpressionClassExtensionError ("Cannot extend \"" ++ baseClass ++ "\" due to security concerns")

def cannotDestructure (property : String) : Error :=
  .ExpressionDestructuringError
    ("Cannot destructure \"" ++ property ++ "\" due to security concerns")

def computedDestructuring : Error :=
  .ExpressionComputedDestructuringError ("Computed property names in "
    ++ "destructuring are not allowed due to security concerns")

def unknownPropertyType (type : String) : Error :=
  .ExpressionError ("Unknown property type " ++ type ++ " while sanitising expression")

/-! ## The sanitizer at run time -/

/-- `text` is `String(value)`, which may throw. -/
def sanitizer {Value : Type} (text : Value → Option String) (value : Value) : Except Error String :=
  match text value with
  | none => .error .thrown
  | some propertyKey =>
    if isSafeObjectProperty propertyKey then .ok propertyKey
    else .error (cannotAccess propertyKey)

def sanitizerName : String := "__sanitize"

/-- The node that stands for the data of the expression. -/
inductive DataNode where
  | thisExpression
  | identifier (name : String)

def DataNode.node : DataNode → Node
  | .thisExpression => .ThisExpression
  | .identifier name => .Identifier name

/-- The call of the sanitizer with a key. -/
def sanitizeCall (dataNode : DataNode) (key : Node) : Node :=
  .CallExpression (.MemberExpression dataNode.node (.Identifier sanitizerName) false false)
  [key] false

/-! ## The visitor -/

section

variable (dataNode : DataNode)

abbrev Visit := Node → Except Error Node

def traverse (visit : Visit) (n : Node) : Except Error Node := do
  let nodes ← (parts n).mapM fun part => visit part.2
  return rebuild n nodes

def visitClass (superClass : Option Node) : Except Error Unit :=
  match superClass with
  | some (.Identifier name) =>
    if name ∈ blockedBaseClasses then .error (cannotExtend name)
    else .ok ()
  | _ => .ok ()

def visitMemberExpression (object property : Node) (computed optional : Bool) : Except Error Node :=
  let node := Node.MemberExpression object property computed optional
  if computed = false then
    match property with
    | .Identifier name =>
      if isSafeObjectProperty name then .ok node
      else .error (cannotAccess name)
    | _ => .error (unknownPropertyType property.type)
  else
    match property with
    | .StringLiteral value =>
      if isSafeObjectProperty value then .ok node
      else .error (cannotAccess value)
    | .Literal value =>
      if isSafeValue value then .ok node
      else .error (cannotAccess (toText value))
    | _ => .ok (.MemberExpression object (sanitizeCall dataNode property) true false)

def keyName : Node → Option String
  | .Identifier name => some name
  | .StringLiteral value => some value
  | .Literal value => some (toText value)
  | _ => none

def checkProperty : Node → Except Error Unit
  | .Property key _ computed =>
    if computed then .error computedDestructuring
    else
      match keyName key with
      | some name =>
        if isSafeObjectProperty name then .ok ()
        else .error (cannotDestructure name)
      | none => .ok ()
  | _ => .ok ()

/-- What the methods do once the fields of the node are visited. -/
def visitTraversed : Node → Except Error Node
  | .ClassDeclaration superClass fields => do
      visitClass superClass
      return .ClassDeclaration superClass fields
  | .ClassExpression superClass fields => do
      visitClass superClass
      return .ClassExpression superClass fields
  | .MemberExpression object property computed optional =>
    visitMemberExpression dataNode object property computed optional
  | .ObjectPattern properties => do
      properties.forM checkProperty
      return .ObjectPattern properties
  | n => .ok n

/-- `astVisit` calls the method for the type of each node, and traverses a
    node that there is no method for.  Every method traverses first. -/
def Visits (visit : Visit) : Prop := ∀ n, visit n = traverse visit n >>= visitTraversed dataNode

def PrototypeSanitizer (visit : Visit) (ast : Node) : Except Error Node := visit ast

end

/-! ## What the sanitizer is for -/

/-- A key that the access is allowed with, or is given by the sanitizer. -/
def ConfinedKey (dataNode : DataNode) (property : Node) (computed : Bool) : Prop :=
  if computed = false then
    ∃ name, property = .Identifier name ∧ isSafeObjectProperty name = true
  else
    (∃ value, property = .StringLiteral value
        ∧ isSafeObjectProperty value = true)
      ∨ (∃ value, property = .Literal value ∧ isSafeObjectProperty (toText value) = true)
      ∨ ∃ key, property = sanitizeCall dataNode key

/-- The properties that a node can look up when it is evaluated.  A call of
    the sanitizer has what the sanitizer returns for its value; a key of
    another form can have any value. -/
inductive LooksUp (dataNode : DataNode) {Value : Type}
    (text : Value → Option String) : Node → String → Prop where
  | name (object : Node) (optional : Bool) (name : String) :
      LooksUp dataNode text (.MemberExpression object (.Identifier name) false optional) name
  | stringLiteral (object : Node) (optional : Bool) (value : String) :
      LooksUp dataNode text (.MemberExpression object (.StringLiteral value) true optional) value
  | literal (object : Node) (optional : Bool) (value : LiteralValue) :
      LooksUp dataNode text (.MemberExpression object (.Literal value) true optional) (toText value)
  | sanitized (object key : Node) (optional : Bool) (value : Value)
      (property : String) : sanitizer text value = .ok property → LooksUp dataNode text
        (.MemberExpression object (sanitizeCall dataNode key) true optional) property
  | computed (object key : Node) (optional : Bool) (property : String) :
      (∀ value, key ≠ .StringLiteral value) → (∀ value, key ≠ .Literal value) →
      (∀ inner, key ≠ sanitizeCall dataNode inner) →
      LooksUp dataNode text (.MemberExpression object key true optional) property
  | pattern (properties : List Node) (key value : Node) (name : String) :
      .Property key value false ∈ properties → keyName key = some name →
      LooksUp dataNode text (.ObjectPattern properties) name
  | computedPattern (properties : List Node) (key value : Node)
      (property : String) : .Property key value true ∈ properties →
      LooksUp dataNode text (.ObjectPattern properties) property

structure Confined (dataNode : DataNode) {Value : Type}
    (text : Value → Option String) (out : Node) : Prop where
  /-- every key of a member access is allowed or sanitized -/
  members : ∀ object property computed optional,
    Occurs (.MemberExpression object property computed optional) out →
    ConfinedKey dataNode property computed
  /-- every key of an object pattern is a name that is allowed -/
  patterns : ∀ properties, Occurs (.ObjectPattern properties) out →
    ∀ key value computed, .Property key value computed ∈ properties → computed = false
        ∧ ∀ name, keyName key = some name → isSafeObjectProperty name = true
  /-- no class extends a blocked class by its name -/
  classes : ∀ superClass fields, Occurs (.ClassDeclaration superClass fields)
      out ∨ Occurs (.ClassExpression superClass fields) out →
    ∀ name, superClass = some (.Identifier name) → name ∉ blockedBaseClasses
  /-- the sanitizer returns the text of the value, if that is allowed -/
  runtime : ∀ value property, sanitizer text value = .ok property →
    text value = some property ∧ isSafeObjectProperty property = true
  /-- no forbidden property is looked up -/
  lookups : ∀ n, Occurs n out → ∀ property,
    LooksUp dataNode text n property → isSafeObjectProperty property = true

/-! ## Keys -/

variable {property : String}

theorem isSafe_of_head {c : Char} (hhead : property.toList.head? = some c)
    (hc : c ∉ unsafeObjectProperties.filterMap fun u => u.toList.head?) :
    isSafeObjectProperty property = true := by
  rw [isSafeObjectProperty, decide_eq_true_iff]
  intro hmem
  exact hc (mem_filterMap.mpr ⟨property, hmem, hhead⟩)

theorem isSafe_of_digit {c : Char}
    (hhead : property.toList.head? = some c) (hc : c.isDigit = true) :
    isSafeObjectProperty property = true := by
  refine isSafe_of_head hhead fun hmem => ?_
  have hnone : ∀ c ∈ unsafeObjectProperties.filterMap fun u =>
      u.toList.head?, c.isDigit = false := by
    simp [unsafeObjectProperties]
  rw [hnone c hmem] at hc
  cases hc

theorem isSafe_toString (n : Nat) : isSafeObjectProperty (toString n) = true := by
  rw [isSafeObjectProperty, decide_eq_true_iff]
  intro hmem
  have hnone : ∀ u ∈ unsafeObjectProperties, u.toList.all Char.isDigit = false := by
    decide +kernel
  have hall : (toString n).toList.all Char.isDigit = true := by
    rw [Nat.toString_eq_repr, Nat.toList_repr, all_eq_true]
    exact fun c hc =>
      Nat.isDigit_of_mem_toDigits (by decide) (by decide) hc
  rw [hnone _ hmem] at hall
  cases hall

/-- **AGREEMENT**: a literal that passes the static check has a text that is
    allowed. -/
theorem isSafe_toText {value : LiteralValue} (h : isSafeValue value = true) :
    isSafeObjectProperty (toText value) = true := by
  cases value with
  | string value => exact h
  | number value =>
    rcases value.numeric with hdigit | htext
    · cases hhead : value.text.toList.head? with
      | none =>
        rw [hhead] at hdigit
        cases hdigit
      | some c =>
        rw [hhead] at hdigit
        exact isSafe_of_digit hhead hdigit
    · rw [toText, htext]
      decide +kernel
  | bigint value => exact isSafe_toString value
  | boolean value => cases value <;> decide +kernel
  | null => decide +kernel
  | regex pattern flags =>
    refine isSafe_of_head (c := '/') ?_ (by decide +kernel)
    simp [toText]

theorem sanitizer_eq_ok {Value : Type} {text : Value → Option String} {value : Value}
    (h : sanitizer text value = .ok property) :
    text value = some property ∧ isSafeObjectProperty property = true := by
  rw [sanitizer] at h
  cases htext : text value with
  | none =>
    rw [htext] at h
    cases h
  | some propertyKey =>
    rw [htext] at h
    dsimp only at h
    split at h
    next hsafe =>
      cases h
      exact ⟨rfl, hsafe⟩
    next => cases h

/-! ## One node -/

section

variable {dataNode : DataNode}

/-- What the sanitizer guarantees of one node. -/
def Fine (dataNode : DataNode) : Node → Prop
  | .MemberExpression _ property computed _ => ConfinedKey dataNode property computed
  | .ObjectPattern properties => ∀ p ∈ properties, checkProperty p = .ok ()
  | .ClassDeclaration superClass _ | .ClassExpression superClass _ =>
    visitClass superClass = .ok ()
  | _ => True

/-- Every node of the tree is fine. -/
def AllFine (dataNode : DataNode) (n : Node) : Prop := ∀ m, Occurs m n → Fine dataNode m

variable {n : Node}

theorem allFine_iff :
    AllFine dataNode n ↔ Fine dataNode n ∧ ∀ c ∈ SyntaxTree.children n, AllFine dataNode c := by
  constructor
  · intro h
    exact ⟨h n .here, fun c hc m hm => h m (.inside hc hm)⟩
  · rintro ⟨hn, hchildren⟩ m hm
    rcases occurs_iff.mp hm with rfl | ⟨c, hc, hm⟩
    · exact hn
    · exact hchildren c hc m hm

theorem mapM_eq_ok {α : Type} {f : α → Except Error Node} {l : List α}
    {nodes : List Node} (h : l.mapM f = .ok nodes) :
    ∃ g : α → Node, nodes = l.map g ∧ ∀ a ∈ l, f a = .ok (g a) := by
  refine ⟨fun a => (f a).toOption.getD .ThisExpression, ?_⟩
  induction l generalizing nodes with
  | nil =>
    cases h
    exact ⟨rfl, fun a ha => by cases ha⟩
  | cons a rest ih =>
    rw [mapM_cons, bind_eq_ok] at h
    obtain ⟨n, hn, h⟩ := h
    obtain ⟨ns, hns, h⟩ := bind_eq_ok.mp h
    obtain ⟨hrest, hmem⟩ := ih hns
    cases h
    have hself : (f a).toOption.getD .ThisExpression = n := by
      rw [hn]
      rfl
    refine ⟨by rw [map_cons, hself, hrest], ?_⟩
    intro b hb
    rcases mem_cons.mp hb with rfl | hb
    · rw [hn, ← hself]
    · exact hmem b hb

theorem traverse_children {visit : Visit} {n' : Node} (h : traverse visit n = .ok n') :
    ∀ c ∈ SyntaxTree.children n', ∃ m ∈ SyntaxTree.children n, visit m = .ok c := by
  obtain ⟨nodes, hnodes, h⟩ := bind_eq_ok.mp h
  obtain ⟨g, rfl, hg⟩ := mapM_eq_ok hnodes
  cases h
  intro c hc
  have hparts : SyntaxTree.children (rebuild n ((parts n).map g)) = (parts n).map g := by
    show (parts (rebuild n ((parts n).map g))).map Prod.snd = _
    rw [parts_rebuild, map_map]
    rfl
  rw [hparts] at hc
  obtain ⟨part, hpart, rfl⟩ := mem_map.mp hc
  exact ⟨part.2, mem_map_of_mem hpart, hg part hpart⟩

theorem allFine_identifier (name : String) : AllFine dataNode (.Identifier name) :=
  allFine_iff.mpr ⟨trivial, fun c hc => by cases hc⟩

theorem allFine_dataNode : AllFine dataNode dataNode.node := by
  cases dataNode with
  | thisExpression => exact allFine_iff.mpr ⟨trivial, fun c hc => by cases hc⟩
  | identifier name => exact allFine_identifier name

theorem allFine_sanitizeCall {key : Node} (h : AllFine dataNode key) :
    AllFine dataNode (sanitizeCall dataNode key) := by
  refine allFine_iff.mpr ⟨trivial, fun c hc => ?_⟩
  rcases mem_cons.mp hc with rfl | hc
  · refine allFine_iff.mpr ⟨⟨sanitizerName, rfl, by decide +kernel⟩, ?_⟩
    intro d hd
    rcases mem_cons.mp hd with rfl | hd
    · exact allFine_dataNode
    · obtain rfl := mem_singleton.mp hd
      exact allFine_identifier sanitizerName
  · obtain rfl := mem_singleton.mp hc
    exact h

theorem confinedKey_of_visit {object property out : Node} {computed optional : Bool}
    (h : visitMemberExpression dataNode object property computed optional = .ok out) :
    (out = .MemberExpression object property computed optional
        ∧ ConfinedKey dataNode property computed)
      ∨ out = .MemberExpression object (sanitizeCall dataNode property) true false := by
  unfold visitMemberExpression at h
  cases computed with
  | false =>
    rw [if_pos rfl] at h
    split at h
    next name =>
      split at h
      next hsafe =>
        cases h
        exact .inl ⟨rfl, name, rfl, hsafe⟩
      next => cases h
    next => cases h
  | true =>
    rw [if_neg (by decide)] at h
    split at h
    next value =>
      split at h
      next hsafe =>
        cases h
        exact .inl ⟨rfl, .inl ⟨value, rfl, hsafe⟩⟩
      next => cases h
    next value =>
      split at h
      next hsafe =>
        cases h
        exact .inl ⟨rfl, .inr (.inl ⟨value, rfl, isSafe_toText hsafe⟩)⟩
      next => cases h
    next =>
      cases h
      exact .inr rfl

theorem forM_eq_ok {properties : List Node} (h : properties.forM checkProperty = .ok ()) :
    ∀ p ∈ properties, checkProperty p = .ok () := by
  induction properties with
  | nil => exact fun p hp => by cases hp
  | cons p rest ih =>
    have hcons : (checkProperty p >>= fun _ => rest.forM checkProperty) = .ok () := h
    obtain ⟨⟨⟩, hp, h⟩ := bind_eq_ok.mp hcons
    exact forall_mem_cons.mpr ⟨hp, ih h⟩

/-- **ONE NODE**: once the fields are fine, so is what the methods return. -/
theorem allFine_visitTraversed {out : Node}
    (hchildren : ∀ c ∈ SyntaxTree.children n, AllFine dataNode c)
    (h : visitTraversed dataNode n = .ok out) : AllFine dataNode out := by
  cases n with
  | ClassDeclaration superClass fields =>
    obtain ⟨⟨⟩, hclass, h⟩ := bind_eq_ok.mp h
    cases h
    exact allFine_iff.mpr ⟨hclass, hchildren⟩
  | ClassExpression superClass fields =>
    obtain ⟨⟨⟩, hclass, h⟩ := bind_eq_ok.mp h
    cases h
    exact allFine_iff.mpr ⟨hclass, hchildren⟩
  | ObjectPattern properties =>
    obtain ⟨⟨⟩, hproperties, h⟩ := bind_eq_ok.mp h
    cases h
    exact allFine_iff.mpr ⟨forM_eq_ok hproperties, hchildren⟩
  | MemberExpression object property computed optional =>
    rcases confinedKey_of_visit h with ⟨rfl, hkey⟩ | rfl
    · exact allFine_iff.mpr ⟨hkey, hchildren⟩
    · refine allFine_iff.mpr ⟨.inr (.inr ⟨property, rfl⟩), fun c hc => ?_⟩
      rcases mem_cons.mp hc with rfl | hc
      · exact hchildren _ (mem_cons_self ..)
      · obtain rfl := mem_singleton.mp hc
        exact allFine_sanitizeCall (hchildren property (mem_cons_of_mem _ (mem_cons_self ..)))
  | _ =>
    cases h
    exact allFine_iff.mpr ⟨trivial, hchildren⟩

/-- **EVERY NODE** of an accepted tree is fine. -/
theorem allFine_of_accepts {visit : Visit} (h : Visits dataNode visit)
    (ast : Node) : ∀ out, visit ast = .ok out → AllFine dataNode out := by
  refine tree_induction (P := fun ast => ∀ out, visit ast = .ok out →
    AllFine dataNode out) (fun ast ih out hout => ?_) ast
  rw [h, bind_eq_ok] at hout
  obtain ⟨n, hn, hout⟩ := hout
  refine allFine_visitTraversed (fun c hc => ?_) hout
  obtain ⟨m, hm, hc⟩ := traverse_children hn c hc
  exact ih m hm c hc

/-! ## What is accepted -/

theorem checkProperty_eq_ok {key value : Node} {computed : Bool}
    (h : checkProperty (.Property key value computed) = .ok ()) :
    computed = false ∧ ∀ name, keyName key = some name → isSafeObjectProperty name = true := by
  unfold checkProperty at h
  cases computed with
  | true => cases h
  | false =>
    refine ⟨rfl, fun name hname => ?_⟩
    simp only [hname, Bool.false_eq_true, if_false] at h
    split at h
    next hsafe => exact hsafe
    next => cases h

theorem visitClass_eq_ok {superClass : Option Node} (h : visitClass superClass = .ok ()) :
    ∀ name, superClass = some (.Identifier name) → name ∉ blockedBaseClasses := by
  rintro name rfl hmem
  rw [visitClass, if_pos hmem] at h
  cases h

theorem Fine.lookup {Value : Type} {text : Value → Option String}
    {property : String} (hn : Fine dataNode n)
    (h : LooksUp dataNode text n property) :
    isSafeObjectProperty property = true := by
  cases h with
  | name object optional _ =>
    obtain ⟨name, heq, hsafe⟩ := hn
    cases heq
    exact hsafe
  | stringLiteral object optional _ =>
    rcases hn with ⟨value, heq, hsafe⟩ | ⟨value, heq, -⟩ | ⟨key, heq⟩
    · cases heq
      exact hsafe
    · cases heq
    · cases heq
  | literal object optional _ =>
    rcases hn with ⟨value, heq, -⟩ | ⟨value, heq, hsafe⟩ | ⟨key, heq⟩
    · cases heq
    · cases heq
      exact hsafe
    · cases heq
  | sanitized object key optional value _ hvalue => exact (sanitizer_eq_ok hvalue).2
  | computed object key optional _ hstring hliteral hcall =>
    rcases hn with ⟨value, heq, -⟩ | ⟨value, heq, -⟩ | ⟨inner, heq⟩
    · exact absurd heq (hstring value)
    · exact absurd heq (hliteral value)
    · exact absurd heq (hcall inner)
  | pattern properties key value _ hmem hname =>
    exact (checkProperty_eq_ok (hn _ hmem)).2 _ hname
  | computedPattern properties key value _ hmem =>
    cases (checkProperty_eq_ok (hn _ hmem)).1

end

/-- A visitor that calls the methods. -/
def visitAst (dataNode : DataNode) (n : Node) : Except Error Node :=
  traverse (fun m => if size m < size n then visitAst dataNode m else .ok m) n
    >>= visitTraversed dataNode
termination_by size n

theorem mapM_congr {α : Type} {f g : α → Except Error Node} {l : List α}
    (h : ∀ a ∈ l, f a = g a) : l.mapM f = l.mapM g := by
  induction l with
  | nil => rfl
  | cons a rest ih =>
    rw [mapM_cons, mapM_cons, h a (mem_cons_self ..), ih fun b hb => h b (mem_cons_of_mem _ hb)]

theorem visits_visitAst (dataNode : DataNode) : Visits dataNode (visitAst dataNode) := by
  intro n
  rw [visitAst, traverse, traverse]
  refine congrArg (fun nodes : Except Error (List Node) =>
    (nodes >>= fun nodes => pure (rebuild n nodes))
      >>= visitTraversed dataNode) (mapM_congr fun part hpart => ?_)
  have hchild : part.2 ∈ SyntaxTree.children n := mem_map_of_mem hpart
  exact if_pos (size_lt hchild)

/-- `$json[$json.key]` -/
def readsByKey : Node :=
  .MemberExpression (.Identifier "$json")
    (.MemberExpression (.Identifier "$json") (.Identifier "key") false false) true false

def dataVariable : DataNode := .identifier "data"

theorem visitAst_identifier (dataNode : DataNode) (name : String) :
    visitAst dataNode (.Identifier name) = .ok (.Identifier name) := by
  rw [visits_visitAst]
  rfl

theorem visitAst_member (dataNode : DataNode) (object property : Node) (computed optional : Bool) :
    visitAst dataNode (.MemberExpression object property computed optional)
      = (do
        let object ← visitAst dataNode object
        let property ← visitAst dataNode property
        visitMemberExpression dataNode object property computed optional) := by
  rw [visits_visitAst, traverse, parts, mapM_cons, mapM_cons]
  cases visitAst dataNode object with
  | error e => rfl
  | ok object =>
    cases visitAst dataNode property with
    | error e => rfl
    | ok property => rfl

end N8nPrototypeSanitizer
