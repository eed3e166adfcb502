import N8n.EstreeProofs

/-! # `this` and `globalThis` in expressions

    Before an expression is evaluated, a visitor goes through its syntax tree
    and puts harmless nodes in the place of `this` and `globalThis`, and
    binds every function expression to an empty context.

    A property name `globalThis` has to stay.  The visitor tells it from a
    reference by the name of the path of the parent: `property`.  That is the
    field that the parent is in, not the field of the identifier, so a
    reference below a computed key stays and a property name is replaced.
    `sandboxed_iff_tellsApart` says for which programs the test is right;
    everything else about the sanitizer holds for all programs. -/

namespace N8nThisSanitizer

open N8nSyntaxTree N8nEstree List

/-! ## The nodes that are put in -/

def callExpression (callee : Node) (arguments : List Node) : Node :=
  .CallExpression callee arguments false

def memberExpression (object property : Node) : Node :=
  .MemberExpression object property false false

def objectExpression (properties : List Node) : Node :=
  .other .ObjectExpression (items .properties properties)

def EMPTY_CONTEXT : Node :=
  objectExpression [.Property (.Identifier "process") (objectExpression []) false]

def SAFE_GLOBAL : Node := objectExpression []

def SAFE_THIS : Node :=
  .other .SequenceExpression (items .expressions
    [.Literal (.number ⟨"0", .inl (by decide)⟩), EMPTY_CONTEXT])

def GLOBAL_IDENTIFIERS : List String := ["globalThis"]

/-! ## The visitor -/

/-- What becomes of a node, given the name of the path of its parent and of
    its own; the root has none. -/
abbrev Visit := Option Edge → Option Edge → Node → Node

/-- `this.traverse(path)`: the nodes in the fields are visited, and the path
    of the node is the path of their parent. -/
def traverse (visit : Visit) (name : Option Edge) (n : Node) : Node :=
  rebuild n ((parts n).map fun p => visit name (some p.1) p.2)

def visitArguments (visit : Visit) (name : Option Edge) (arguments : List Node) : List Node :=
  (items .arguments arguments).map fun p => visit name (some p.1) p.2

def visitCallExpression (visit : Visit) (name : Option Edge) (callee : Node)
    (arguments : List Node) (optional : Bool) : Node :=
  match callee with
  | .FunctionExpression _ =>
    -- What the traversal makes of the callee is dropped; its fields stay.
    let fnExpression := traverse visit (some (.field .callee)) callee
    callExpression (memberExpression fnExpression (.Identifier "call"))
      (EMPTY_CONTEXT :: visitArguments visit name arguments)
  | _ => traverse visit name (.CallExpression callee arguments optional)

def visitFunctionExpression (visit : Visit) (name : Option Edge)
    (fields : List (Edge × Node)) : Node :=
  let node := traverse visit name (.FunctionExpression fields)
  callExpression (memberExpression node (.Identifier "bind")) [EMPTY_CONTEXT]

def isPropertyName (parent : Option Edge) : Bool := parent = some (.field .property)

def visitIdentifier (parent : Option Edge) (name : String) : Node :=
  if name ∈ GLOBAL_IDENTIFIERS ∧ isPropertyName parent = false then
    SAFE_GLOBAL
  else .Identifier name

def visitNode (visit : Visit) (parent name : Option Edge) : Node → Node
  | .CallExpression callee arguments optional =>
    visitCallExpression visit name callee arguments optional
  | .FunctionExpression fields => visitFunctionExpression visit name fields
  | .Identifier id => visitIdentifier parent id
  | .ThisExpression => SAFE_THIS
  | n => traverse visit name n

/-- `astVisit` calls the method for the type of each node, and traverses a
    node that there is no method for. -/
def Visits (visit : Visit) : Prop :=
  ∀ parent name n, visit parent name n = visitNode visit parent name n

def ThisSanitizer (visit : Visit) (ast : Node) : Node := visit none none ast

/-! ## What the sanitizer is for -/

/-- What an identifier stands for: a value, the name of a property, or a name
    that is declared or labels a statement. -/
inductive Role where
  | reference
  | propertyName
  | declaredName

/-- The fields of a node that hold declared names or labels. -/
def declares : NodeType → List Field
  | .ArrowFunctionExpression => [.params]
  | .FunctionDeclaration => [.id, .params]
  | .VariableDeclarator => [.id]
  | .CatchClause => [.param]
  | .LabeledStatement | .BreakStatement | .ContinueStatement => [.label]
  | .MetaProperty => [.metaName, .property]
  | _ => []

def roleOfKey (name : Field) (computed : Bool) (e : Edge) : Role :=
  if computed = false ∧ e = .field name then .propertyName else .reference

def roleAmong (names : List Field) (e : Edge) : Role :=
  if e.fieldName ∈ names then .declaredName else .reference

/-- The role of an identifier, by the node that holds it and where. -/
def role (n : Node) (e : Edge) : Role :=
  match n with
  | .MemberExpression _ _ computed _ => roleOfKey .property computed e
  | .Property _ _ computed | .MethodDefinition _ _ computed
  | .PropertyDefinition _ _ computed => roleOfKey .key computed e
  | .FunctionExpression _ => roleAmong [.id, .params] e
  | .ClassDeclaration _ _ | .ClassExpression _ _ => roleAmong [.id] e
  | .other type _ => roleAmong (declares type) e
  | _ => .reference

/-- The identifier is called `globalThis`. -/
def globalThis : Node := .Identifier "globalThis"

/-- The node holds an identifier `globalThis` in the given role. -/
def HoldsGlobal (n : Node) (r : Role) : Prop :=
  ∃ part ∈ parts n, part.2 = globalThis ∧ role n part.1 = r

/-- A call that binds the function to the empty context, or calls it with
    that. -/
def Applied (call fn : Node) : Prop :=
  ∃ method ∈ ["bind", "call"], ∃ arguments, call = callExpression
    (memberExpression fn (.Identifier method)) (EMPTY_CONTEXT :: arguments)

/-- A function expression is put at `callee.object` of a call. -/
def home : Node → List Nat
  | .FunctionExpression _ => [0, 0]
  | _ => []

/-- Where the child of a node is put.  The callee of a call moves when it is
    visited; the arguments make room for the context. -/
def shift : Node → Nat → List Nat
  | .FunctionExpression _, i => [0, 0, i]
  | .CallExpression (.FunctionExpression _) _ _, i => if i = 0 then [] else [i + 1]
  | _, i => [i]

/-- Where the node at a position is put. -/
def track : Node → List Nat → List Nat
  | n, [] => home n
  | n, i :: p => shift n i ++ ((parts n)[i]?).elim [] fun part => track part.2 p

structure Sandboxed (ast out : Node) : Prop where
  /-- no `this` remains -/
  noThis : ∀ n, Occurs n out → n ≠ .ThisExpression
  /-- no reference to `globalThis` remains -/
  noReference : out ≠ globalThis ∧ ∀ n, Occurs n out → ¬ HoldsGlobal n .reference
  /-- every function expression is bound or called with the context -/
  bound : ∀ p fields, subtreeAt out p = some (.FunctionExpression fields) →
    ∃ q call, p = q ++ [0, 0] ∧ subtreeAt out q = some call
      ∧ Applied call (.FunctionExpression fields)
  /-- a property name `globalThis` is unchanged -/
  propertyNames : ∀ p n i e, subtreeAt ast p = some n →
    (parts n)[i]? = some (e, globalThis) → role n e = .propertyName →
    subtreeAt out (track ast (p ++ [i])) = some globalThis

/-- A node, the name of its path and that of its parent. -/
structure Place where
  parent : Option Edge
  name : Option Edge
  node : Node

def Place.root (ast : Node) : Place :=
  { parent := none, name := none, node := ast }

def Place.child (s : Place) (part : Edge × Node) : Place :=
  { parent := s.name, name := some part.1, node := part.2 }

noncomputable instance : SizeOf Place where
  sizeOf s := sizeOf s.node

/-- The places below a place. -/
instance : SyntaxTree Place where
  children s := (parts s.node).map s.child
  sizeOf_lt {s t} h := by
    obtain ⟨part, hpart, rfl⟩ := mem_map.mp h
    exact sizeOf_parts hpart

/-- The node that holds an identifier `globalThis` is in a field `property`
    if the identifier is a property name, and is not if it is a reference. -/
def TellsApart (ast : Node) : Prop :=
  ∀ s, Occurs s (Place.root ast) →
    (HoldsGlobal s.node .propertyName → s.name = some (.field .property))
      ∧ (HoldsGlobal s.node .reference → s.name ≠ some (.field .property))

/-! ## Places -/

theorem children_eq (n : Node) : SyntaxTree.children n = (parts n).map Prod.snd := rfl

theorem children_place (s : Place) : SyntaxTree.children s = (parts s.node).map s.child := rfl

theorem getElem?_children_place {s : Place} {i : Nat} {part : Edge × Node}
    (h : (parts s.node)[i]? = some part) :
    (SyntaxTree.children s)[i]? = some (s.child part) := by
  rw [children_place, getElem?_map, h, Option.map_some]

theorem subtreeAt_node (s : Place) (p : List Nat) :
    subtreeAt s.node p = (subtreeAt s p).map Place.node := by
  induction p generalizing s with
  | nil => rfl
  | cons i p ih =>
    rw [subtreeAt, subtreeAt, children_eq, children_place, getElem?_map, getElem?_map]
    cases (parts s.node)[i]? with
    | none => rfl
    | some part => exact ih (s.child part)

/-! ## Rebuilt nodes -/

theorem role_rebuild (n : Node) (nodes : List Node) (e : Edge) :
    role (rebuild n nodes) e = role n e := by
  unfold rebuild
  split <;> rfl

variable {nodes : List Node} {n : Node}

theorem rebuild_eq_identifier {name : String}
    (h : rebuild n nodes = .Identifier name) : n = .Identifier name := by
  unfold rebuild at h
  split at h <;> first | exact h | cases h

theorem rebuild_eq_this (h : rebuild n nodes = .ThisExpression) : n = .ThisExpression := by
  unfold rebuild at h
  split at h <;> first | exact h | cases h

theorem rebuild_eq_function {fields : List (Edge × Node)}
    (h : rebuild n nodes = .FunctionExpression fields) :
    ∃ fields', n = .FunctionExpression fields' := by
  unfold rebuild at h
  split at h <;> first | exact ⟨_, h⟩ | exact ⟨_, rfl⟩ | cases h

section

variable {visit : Visit}

theorem parts_traverse (name : Option Edge) (n : Node) :
    parts (traverse visit name n) = (parts n).map fun p => (p.1, visit name (some p.1) p.2) :=
  parts_rebuild n _

variable {n : Node} {name : Option Edge}

theorem mem_children_traverse {c : Node} :
    c ∈ SyntaxTree.children (traverse visit name n)
      ↔ ∃ part ∈ parts n, c = visit name (some part.1) part.2 := by
  rw [children_eq, parts_traverse, map_map, mem_map]
  exact exists_congr fun part => and_congr_right fun _ => eq_comm

theorem getElem?_children_traverse (name : Option Edge) (n : Node) (i : Nat) :
    (SyntaxTree.children (traverse visit name n))[i]?
      = ((parts n)[i]?).map fun p => visit name (some p.1) p.2 := by
  rw [children_eq, parts_traverse, map_map, getElem?_map]
  rfl

theorem role_traverse (name : Option Edge) (n : Node) (e : Edge) :
    role (traverse visit name n) e = role n e :=
  role_rebuild n _ e

/-! ## The methods -/

/-- The call of a function expression with the empty context. -/
def called (visit : Visit) (name : Option Edge) (fields : List (Edge × Node))
    (arguments : List Node) : Node :=
  callExpression
    (memberExpression (traverse visit (some (.field .callee)) (.FunctionExpression fields))
      (.Identifier "call")) (EMPTY_CONTEXT :: visitArguments visit name arguments)

/-- A node that no method is for. -/
def Plain (n : Node) : Prop :=
  (∀ id, n ≠ .Identifier id) ∧ n ≠ .ThisExpression
    ∧ (∀ fields, n ≠ .FunctionExpression fields)
    ∧ ∀ fields arguments optional,
      n ≠ .CallExpression (.FunctionExpression fields) arguments optional

/-- **ONE NODE**: what the methods do, by the type of the node. -/
theorem visit_cases (h : Visits visit) (n : Node) : (∃ id, n = .Identifier id
        ∧ ∀ parent name, visit parent name n = visitIdentifier parent id)
      ∨ (n = .ThisExpression ∧ ∀ parent name, visit parent name n = SAFE_THIS)
      ∨ (∃ fields, n = .FunctionExpression fields
        ∧ ∀ parent name, visit parent name n = visitFunctionExpression visit name fields)
      ∨ (∃ fields arguments optional,
        n = .CallExpression (.FunctionExpression fields) arguments optional
          ∧ ∀ parent name, visit parent name n = called visit name fields arguments)
      ∨ (Plain n ∧ ∀ parent name, visit parent name n = traverse visit name n) := by
  cases n with
  | Identifier id => exact .inl ⟨id, rfl, fun parent name => h ..⟩
  | ThisExpression => exact .inr (.inl ⟨rfl, fun parent name => h ..⟩)
  | FunctionExpression fields =>
    exact .inr (.inr (.inl ⟨fields, rfl, fun parent name => h ..⟩))
  | CallExpression callee arguments optional =>
    cases callee with
    | FunctionExpression fields =>
      exact .inr (.inr (.inr (.inl ⟨fields, arguments, optional, rfl, fun parent name => h ..⟩)))
    | _ =>
      refine .inr (.inr (.inr (.inr ⟨?_, fun parent name => h ..⟩)))
      simp [Plain]
  | _ =>
    refine .inr (.inr (.inr (.inr ⟨?_, fun parent name => h ..⟩)))
    simp [Plain]

theorem visitIdentifier_global (parent : Option Edge) :
    visitIdentifier parent "globalThis" = globalThis ↔ parent = some (.field .property) := by
  unfold visitIdentifier isPropertyName
  by_cases hparent : parent = some (.field .property)
  · simp [hparent, globalThis]
  · simp [hparent, GLOBAL_IDENTIFIERS, globalThis, SAFE_GLOBAL, objectExpression]

theorem visit_eq_globalThis (h : Visits visit) {parent : Option Edge} :
    visit parent name n = globalThis ↔ n = globalThis ∧ parent = some (.field .property) := by
  rcases visit_cases h n with ⟨id, rfl, heq⟩ | ⟨rfl, heq⟩ | ⟨fields, rfl, heq⟩
    | ⟨fields, arguments, optional, rfl, heq⟩ | ⟨hplain, heq⟩
  · rw [heq]
    by_cases hid : id = "globalThis"
    · subst hid
      rw [visitIdentifier_global]
      exact ⟨fun hp => ⟨rfl, hp⟩, fun hp => hp.2⟩
    · simp [visitIdentifier, GLOBAL_IDENTIFIERS, globalThis, hid]
  · rw [heq]
    simp [SAFE_THIS, globalThis]
  · rw [heq]
    simp [visitFunctionExpression, callExpression, globalThis]
  · rw [heq]
    simp [called, callExpression, globalThis]
  · rw [heq]
    refine iff_of_false (fun hn => ?_) fun hn => hplain.1 _ hn.1
    exact hplain.1 _ (rebuild_eq_identifier hn)

/-! ## The nodes of the output -/

/-- A node that is no `this` and holds no identifier `globalThis`. -/
def Inert (n : Node) : Prop := n ≠ .ThisExpression ∧ ∀ part ∈ parts n, part.2 ≠ globalThis

/-- What is put in the place of a node.  A function expression is kept, and
    the call that binds it is put around it. -/
def placed (visit : Visit) (s : Place) : Node :=
  match s.node with
  | .FunctionExpression _ => traverse visit s.name s.node
  | _ => visit s.parent s.name s.node

theorem inert_identifier (id : String) : Inert (.Identifier id) :=
  ⟨fun h => (by cases h), fun part hpart => (by cases hpart)⟩

theorem inert_safeThis (h : Occurs n SAFE_THIS) : Inert n := by
  rw [← mem_preorder] at h
  simp [SAFE_THIS, EMPTY_CONTEXT, objectExpression, items, preorder_eq, children_eq, parts] at h
  rcases h with rfl | rfl | rfl | rfl | rfl | rfl <;>
    simp [Inert, parts, globalThis]

theorem inert_emptyContext (h : Occurs n EMPTY_CONTEXT) : Inert n := by
  refine inert_safeThis (h.trans (.child ?_))
  simp [SAFE_THIS, children_eq, parts, items]

theorem inert_safeGlobal (h : Occurs n SAFE_GLOBAL) : Inert n := by
  refine inert_emptyContext (h.trans ?_)
  rw [← mem_preorder]
  simp [SAFE_GLOBAL, EMPTY_CONTEXT, objectExpression, items, preorder_eq, children_eq, parts]

theorem inert_visitIdentifier {parent : Option Edge} {id : String}
    (h : Occurs n (visitIdentifier parent id)) : Inert n := by
  unfold visitIdentifier at h
  split at h
  · exact inert_safeGlobal h
  · rcases occurs_iff.mp h with rfl | ⟨c, hc, -⟩
    · exact inert_identifier id
    · cases hc

theorem occurs_traverse {m : Node} (h : Occurs m (traverse visit name n)) :
    m = traverse visit name n ∨ ∃ part ∈ parts n, Occurs m (visit name (some part.1) part.2) := by
  rcases occurs_iff.mp h with rfl | ⟨c, hc, hm⟩
  · exact .inl rfl
  · obtain ⟨part, hpart, rfl⟩ := mem_children_traverse.mp hc
    exact .inr ⟨part, hpart, hm⟩

theorem children_callExpression (callee : Node) (arguments : List Node) :
    SyntaxTree.children (callExpression callee arguments) = callee :: arguments := by
  rw [callExpression, children_eq, parts, map_cons, map_snd_items]

theorem children_memberExpression (object property : Node) :
    SyntaxTree.children (memberExpression object property) = [object, property] := rfl

variable {arguments : List Node}

theorem occurs_applied {m fn : Node} {method : String} (hfn : fn ≠ globalThis)
    (hmethod : method ≠ "globalThis")
    (h : Occurs m (callExpression (memberExpression fn (.Identifier method))
      (EMPTY_CONTEXT :: arguments))) :
    m = callExpression (memberExpression fn (.Identifier method)) (EMPTY_CONTEXT :: arguments)
      ∨ Inert m ∨ Occurs m fn ∨ ∃ a ∈ arguments, Occurs m a := by
  rcases occurs_iff.mp h with rfl | ⟨c, hc, hm⟩
  · exact .inl rfl
  · rw [children_callExpression, mem_cons, mem_cons] at hc
    rcases hc with rfl | rfl | hc
    · rcases occurs_iff.mp hm with rfl | ⟨d, hd, hmd⟩
      · refine .inr (.inl ⟨fun heq => (by cases heq), ?_⟩)
        simp [memberExpression, parts, globalThis, hmethod]
        exact hfn
      · rw [children_memberExpression, mem_pair] at hd
        rcases hd with rfl | rfl
        · exact .inr (.inr (.inl hmd))
        · rcases occurs_iff.mp hmd with rfl | ⟨_, hd, -⟩
          · exact .inr (.inl (inert_identifier method))
          · cases hd
    · exact .inr (.inl (inert_emptyContext hm))
    · exact .inr (.inr (.inr ⟨c, hc, hm⟩))

theorem traverse_ne_globalThis (name : Option Edge) (fields : List (Edge × Node)) :
    traverse visit name (.FunctionExpression fields) ≠ globalThis := by
  intro h
  cases rebuild_eq_identifier h

theorem mem_visitArguments {c : Node} :
    c ∈ visitArguments visit name arguments
      ↔ ∃ part ∈ items .arguments arguments, c = visit name (some part.1) part.2 := by
  rw [visitArguments, mem_map]
  exact exists_congr fun part => and_congr_right fun _ => eq_comm

theorem placed_of_ne (s : Place) (hs : ∀ fields, s.node ≠ .FunctionExpression fields) :
    placed visit s = visit s.parent s.name s.node := by
  unfold placed
  split
  next fields heq => exact absurd heq (hs fields)
  next => rfl

theorem occurs_fn_visit (h : Visits visit) (parent name : Option Edge)
    (fields : List (Edge × Node)) :
    Occurs (traverse visit name (.FunctionExpression fields))
      (visit parent name (.FunctionExpression fields)) := by
  rw [h]
  refine .inside (c := memberExpression (traverse visit name
    (.FunctionExpression fields)) (.Identifier "bind")) ?_ (.child ?_)
  · exact mem_cons_self ..
  · exact mem_cons_self ..

/-- **EVERY NODE** of the output is inert or in the place of a node of the
    input. -/
theorem occurs_visit (h : Visits visit) (n : Node) :
    ∀ parent name m, Occurs m (visit parent name n) → Inert m ∨ ∃ s, Occurs s ⟨parent, name, n⟩
        ∧ s.node ≠ .ThisExpression ∧ (∀ id, s.node ≠ .Identifier id)
        ∧ m = placed visit s := by
  refine tree_induction (P := fun n => ∀ parent name m, Occurs m (visit parent name n) → Inert m
      ∨ ∃ s, Occurs s ⟨parent, name, n⟩
        ∧ s.node ≠ .ThisExpression ∧ (∀ id, s.node ≠ .Identifier id)
        ∧ m = placed visit s) (fun n ih parent name m hm => ?_) n
  -- What a part of the node brings is in the place of a node below it.
  have hpart : ∀ part ∈ parts n, Occurs m (visit name (some part.1) part.2) →
      Inert m ∨ ∃ s, Occurs s ⟨parent, name, n⟩
        ∧ s.node ≠ .ThisExpression ∧ (∀ id, s.node ≠ .Identifier id)
        ∧ m = placed visit s := by
    intro part hmem hocc
    have hchild : part.2 ∈ SyntaxTree.children n := mem_map.mpr ⟨part, hmem, rfl⟩
    rcases ih part.2 hchild name (some part.1) m hocc with hinert
      | ⟨s, hs, hrest⟩
    · exact .inl hinert
    · refine .inr ⟨s, .inside (mem_map_of_mem hmem) hs, hrest⟩
  rcases visit_cases h n with ⟨id, rfl, heq⟩ | ⟨rfl, heq⟩ | ⟨fields, rfl, heq⟩
    | ⟨fields, arguments, optional, rfl, heq⟩ | ⟨hplain, heq⟩
  · rw [heq] at hm
    exact .inl (inert_visitIdentifier hm)
  · rw [heq] at hm
    exact .inl (inert_safeThis hm)
  · rw [heq] at hm
    rcases occurs_applied (traverse_ne_globalThis _ _) (by decide) hm with
      rfl | hinert | hfn | ⟨a, ha, -⟩
    · refine .inl ⟨fun heq => (by cases heq), fun part hmem => ?_⟩
      have hchild := mem_map_of_mem (f := Prod.snd) hmem
      rw [← children_eq, children_callExpression, mem_pair] at hchild
      rcases hchild with hchild | hchild
      · rw [hchild]
        simp [memberExpression, globalThis]
      · rw [hchild]
        simp [EMPTY_CONTEXT, objectExpression, globalThis]
    · exact .inl hinert
    · rcases occurs_traverse hfn with rfl | ⟨part, hmem, hocc⟩
      · exact .inr ⟨_, .here, by simp, by simp, rfl⟩
      · exact hpart part hmem hocc
    · cases ha
  · rw [heq] at hm
    rcases occurs_applied (traverse_ne_globalThis _ _) (by decide) hm with
      rfl | hinert | hfn | ⟨a, ha, hocc⟩
    · exact .inr ⟨_, .here, by simp, by simp, (heq parent name).symm⟩
    · exact .inl hinert
    · refine hpart _ (mem_cons_self ..) (hfn.trans ?_)
      exact occurs_fn_visit h _ _ fields
    · obtain ⟨part, hmem, rfl⟩ := mem_visitArguments.mp ha
      exact hpart part (mem_cons_of_mem _ hmem) hocc
  · rw [heq] at hm
    rcases occurs_traverse hm with rfl | ⟨part, hmem, hocc⟩
    · refine .inr ⟨_, .here, hplain.2.1, hplain.1, ?_⟩
      rw [placed_of_ne ⟨parent, name, n⟩ hplain.2.2.1]
      exact (heq parent name).symm
    · exact hpart part hmem hocc

/-! ## Where a node is put -/

theorem track_function (fields : List (Edge × Node)) (p : List Nat) :
    ∃ q, track (.FunctionExpression fields) p = 0 :: 0 :: q := by
  cases p with
  | nil => exact ⟨[], rfl⟩
  | cons i p => exact ⟨_, rfl⟩

theorem track_cons {i : Nat} {part : Edge × Node} (h : (parts n)[i]? = some part) (p : List Nat) :
    track n (i :: p) = shift n i ++ track part.2 p := by
  rw [track, h, Option.elim_some]

theorem subtreeAt_applied (fn : Node) (method : String) (arguments : List Node) (p : List Nat) :
    subtreeAt (callExpression (memberExpression fn (.Identifier method)) arguments)
    (0 :: 0 :: p) = subtreeAt fn p := by
  rw [subtreeAt_cons (by rw [children_callExpression]; rfl),
    subtreeAt_cons (by rw [children_memberExpression]; rfl)]

theorem getElem?_visitArguments (name : Option Edge) (arguments : List Node) (i : Nat) :
    (visitArguments visit name arguments)[i]?
      = ((items .arguments arguments)[i]?).map fun p =>
        visit name (some p.1) p.2 :=
  getElem?_map ..

theorem shift_plain (h : Plain n) (i : Nat) : shift n i = [i] := by
  unfold shift
  split
  next fields => exact absurd rfl (h.2.2.1 fields)
  next fields arguments optional => exact absurd rfl (h.2.2.2 _ _ _)
  next => rfl

/-- **TRACKING**: what is put in the place of a node is at the position that
    the position of the node is sent to. -/
theorem subtreeAt_track (h : Visits visit) {s t : Place} {p : List Nat}
    (hat : subtreeAt s p = some t) :
    subtreeAt (visit s.parent s.name s.node) (track s.node p) = some (placed visit t) := by
  induction p generalizing s with
  | nil =>
    obtain rfl := Option.some.inj hat
    obtain ⟨parent, name, n⟩ := s
    cases n with
    | FunctionExpression fields =>
      rw [h]
      exact subtreeAt_applied _ _ _ []
    | _ => rfl
  | cons i p ih =>
    rw [subtreeAt, Option.bind_eq_some_iff] at hat
    obtain ⟨c, hc, hat⟩ := hat
    rw [children_place, getElem?_map, Option.map_eq_some_iff] at hc
    obtain ⟨part, hpart, rfl⟩ := hc
    have hrest := ih hat
    rw [track_cons hpart]
    obtain ⟨parent, name, n⟩ := s
    simp only [Place.child] at hpart hrest ⊢
    rcases visit_cases h n with ⟨id, rfl, heq⟩ | ⟨rfl, heq⟩
      | ⟨fields, rfl, heq⟩ | ⟨fields, arguments, optional, rfl, heq⟩
      | ⟨hplain, heq⟩
    · cases hpart
    · cases hpart
    · rw [heq, shift]
      refine (subtreeAt_applied _ _ _ (i :: track part.2 p)).trans ?_
      rw [subtreeAt_cons (by rw [getElem?_children_traverse, hpart]; rfl)]
      exact hrest
    · rw [heq, shift]
      cases i with
      | zero =>
        -- The callee: in both calls the function is at `callee.object`.
        obtain rfl := Option.some.inj hpart
        obtain ⟨q, hq⟩ := track_function fields p
        rw [h] at hrest
        rw [hq] at hrest ⊢
        exact (subtreeAt_applied _ _ _ q).trans ((subtreeAt_applied _ _ _ q).symm.trans hrest)
      | succ i =>
        rw [parts, getElem?_cons_succ] at hpart
        refine Eq.trans (subtreeAt_cons ?_ _) hrest
        rw [called, children_callExpression]
        rw [getElem?_cons_succ, getElem?_cons_succ, getElem?_visitArguments, hpart]
        rfl
    · rw [heq, shift_plain hplain]
      refine Eq.trans (subtreeAt_cons ?_ _) hrest
      rw [getElem?_children_traverse, hpart]
      rfl

/-! ## What is left -/

theorem placed_cases (h : Visits visit) {s : Place} (hthis : s.node ≠ .ThisExpression)
    (hid : ∀ id, s.node ≠ .Identifier id) :
    (∃ fields arguments optional, s.node
        = .CallExpression (.FunctionExpression fields) arguments optional
      ∧ placed visit s = called visit s.name fields arguments)
    ∨ placed visit s = traverse visit s.name s.node := by
  obtain ⟨parent, name, n⟩ := s
  rcases visit_cases h n with ⟨id, rfl, heq⟩ | ⟨rfl, heq⟩ | ⟨fields, rfl, heq⟩
    | ⟨fields, arguments, optional, rfl, heq⟩ | ⟨hplain, heq⟩
  · exact absurd rfl (hid id)
  · exact absurd rfl hthis
  · exact .inr rfl
  · exact .inl ⟨fields, arguments, optional, rfl, heq ..⟩
  · exact .inr ((placed_of_ne _ hplain.2.2.1).trans (heq ..))

theorem HoldsGlobal.holder {r : Role} (h : HoldsGlobal n r) :
    n ≠ .ThisExpression ∧ ∀ id, n ≠ .Identifier id := by
  obtain ⟨part, hpart, -⟩ := h
  refine ⟨?_, fun id => ?_⟩
  · rintro rfl
    cases hpart
  · rintro rfl
    cases hpart

theorem holdsGlobal_call {callee : Node} {optional : Bool} {r : Role} :
    HoldsGlobal (.CallExpression callee arguments optional) r
      ↔ globalThis ∈ callee :: arguments ∧ r = .reference := by
  have hchildren : callee :: arguments
      = (parts (.CallExpression callee arguments optional)).map Prod.snd := by
    rw [parts, map_cons, map_snd_items]
  rw [hchildren, mem_map]
  constructor
  · rintro ⟨part, hpart, hglobal, hrole⟩
    exact ⟨⟨part, hpart, hglobal⟩, hrole.symm⟩
  · rintro ⟨⟨part, hpart, hglobal⟩, hrole⟩
    exact ⟨part, hpart, hglobal, hrole.symm⟩

section

variable (h : Visits visit)
include h

theorem globalThis_mem_visitArguments :
    globalThis ∈ visitArguments visit name arguments
      ↔ name = some (.field .property) ∧ globalThis ∈ arguments := by
  have hargs : globalThis ∈ arguments
      ↔ ∃ part ∈ items .arguments arguments, part.2 = globalThis := by
    rw [← mem_map, map_snd_items]
  rw [mem_visitArguments, hargs]
  constructor
  · rintro ⟨part, hpart, heq⟩
    obtain ⟨hglobal, hname⟩ := (visit_eq_globalThis h).mp heq.symm
    exact ⟨hname, part, hpart, hglobal⟩
  · rintro ⟨hname, part, hpart, hglobal⟩
    exact ⟨part, hpart, ((visit_eq_globalThis h).mpr ⟨hglobal, hname⟩).symm⟩

/-- **WHAT IS LEFT** of the identifiers `globalThis`: those in a node that is
    in a field `property`, each in its role. -/
theorem holdsGlobal_placed {s : Place} {r : Role}
    (hthis : s.node ≠ .ThisExpression) (hid : ∀ id, s.node ≠ .Identifier id) :
    HoldsGlobal (placed visit s) r ↔ s.name = some (.field .property) ∧ HoldsGlobal s.node r := by
  rcases placed_cases h hthis hid with
    ⟨fields, arguments, optional, hnode, hplaced⟩ | hplaced
  · rw [hplaced, hnode, called, callExpression, holdsGlobal_call, holdsGlobal_call]
    simp only [mem_cons, globalThis_mem_visitArguments h]
    have hmember : globalThis ≠ memberExpression (traverse visit
        (some (.field .callee)) (.FunctionExpression fields))
        (.Identifier "call") := fun heq => by cases heq
    have hempty : globalThis ≠ EMPTY_CONTEXT := fun heq => by cases heq
    have hfn : globalThis ≠ .FunctionExpression fields := fun heq => by cases heq
    simp [hmember, hempty, hfn, and_assoc]
  · rw [hplaced]
    unfold HoldsGlobal
    simp only [parts_traverse, mem_map, role_traverse]
    constructor
    · rintro ⟨_, ⟨part, hpart, rfl⟩, hglobal, hrole⟩
      obtain ⟨hglobal, hname⟩ := (visit_eq_globalThis h).mp hglobal
      exact ⟨hname, part, hpart, hglobal, hrole⟩
    · rintro ⟨hname, part, hpart, hglobal, hrole⟩
      exact ⟨_, ⟨part, hpart, rfl⟩, (visit_eq_globalThis h).mpr ⟨hglobal, hname⟩, hrole⟩

theorem noThis (ast : Node) (hn : Occurs n (ThisSanitizer visit ast)) : n ≠ .ThisExpression := by
  rcases occurs_visit h ast none none n hn with hinert
    | ⟨s, -, hthis, hid, rfl⟩
  · exact hinert.1
  · rcases placed_cases h hthis hid with
      ⟨fields, arguments, optional, hnode, hplaced⟩ | hplaced
    · rw [hplaced]
      exact fun heq => by cases heq
    · rw [hplaced]
      exact fun heq => hthis (rebuild_eq_this heq)

theorem noReference_iff (ast : Node) :
    (∀ n, Occurs n (ThisSanitizer visit ast) → ¬ HoldsGlobal n .reference)
      ↔ ∀ s, Occurs s (Place.root ast) → HoldsGlobal s.node .reference →
        s.name ≠ some (.field .property) := by
  constructor
  · intro hnone s hs hglobal hname
    obtain ⟨p, hp⟩ := exists_subtreeAt hs
    have hocc := occurs_of_subtreeAt (subtreeAt_track h hp)
    obtain ⟨hthis, hid⟩ := hglobal.holder
    exact hnone _ hocc ((holdsGlobal_placed h hthis hid).mpr ⟨hname, hglobal⟩)
  · intro hnone n hn hglobal
    rcases occurs_visit h ast none none n hn with hinert
      | ⟨s, hs, hthis, hid, rfl⟩
    · obtain ⟨part, hpart, heq, -⟩ := hglobal
      exact hinert.2 part hpart heq
    · obtain ⟨hname, hglobal⟩ := (holdsGlobal_placed h hthis hid).mp hglobal
      exact hnone s hs hglobal hname

theorem propertyNames_iff (ast : Node) : (∀ p n i e, subtreeAt ast p = some n →
        (parts n)[i]? = some (e, globalThis) → role n e = .propertyName →
        subtreeAt (ThisSanitizer visit ast) (track ast (p ++ [i])) = some globalThis)
      ↔ ∀ s, Occurs s (Place.root ast) → HoldsGlobal s.node .propertyName →
        s.name = some (.field .property) := by
  have hroot : ∀ p, subtreeAt ast p = (subtreeAt (Place.root ast) p).map Place.node :=
    fun p => subtreeAt_node (Place.root ast) p
  -- What is put in the place of the identifier.
  have hput : ∀ p s i e, subtreeAt (Place.root ast) p = some s →
      (parts s.node)[i]? = some (e, globalThis) →
      subtreeAt (ThisSanitizer visit ast) (track ast (p ++ [i]))
        = some (visit s.name (some e) globalThis) := by
    intro p s i e hat hpart
    have hchild : subtreeAt (Place.root ast) (p ++ [i]) = some (s.child (e, globalThis)) := by
      rw [subtreeAt_append, hat, Option.bind_some,
        subtreeAt_cons (getElem?_children_place hpart), subtreeAt]
    exact subtreeAt_track h hchild
  constructor
  · rintro hkept s hs ⟨⟨e, c⟩, hpart, rfl, hrole⟩
    obtain ⟨p, hp⟩ := exists_subtreeAt hs
    obtain ⟨i, hi⟩ := mem_iff_getElem?.mp hpart
    have hat : subtreeAt ast p = some s.node := by
      rw [hroot, hp, Option.map_some]
    have hsome := (hput p s i e hp hi).symm.trans (hkept p s.node i e hat hi hrole)
    exact ((visit_eq_globalThis h).mp (Option.some.inj hsome)).2
  · intro hname p n i e hat hpart hrole
    rw [hroot, Option.map_eq_some_iff] at hat
    obtain ⟨s, hs, rfl⟩ := hat
    rw [hput p s i e hs hpart, hname s (occurs_of_subtreeAt hs)
      ⟨_, mem_of_getElem? hpart, rfl, hrole⟩]
    exact congrArg some ((visit_eq_globalThis h).mpr ⟨rfl, rfl⟩)

end

/-! ## Function expressions -/

/-- A function expression at the position is in a call that binds it or calls
    it with the empty context. -/
def BoundAt (n : Node) (p : List Nat) : Prop :=
  ∀ fields, subtreeAt n p = some (.FunctionExpression fields) →
    ∃ q call, p = q ++ [0, 0] ∧ subtreeAt n q = some call
      ∧ Applied call (.FunctionExpression fields)

def Bound (n : Node) : Prop := ∀ p, BoundAt n p

theorem boundAt_cons {i : Nat} {p : List Nat}
    (h : ∀ c, (SyntaxTree.children n)[i]? = some c → BoundAt c p) :
    BoundAt n (i :: p) := by
  intro fields hp
  rw [subtreeAt, Option.bind_eq_some_iff] at hp
  obtain ⟨c, hc, hp⟩ := hp
  obtain ⟨q, call, rfl, hq, happlied⟩ := h c hc fields hp
  exact ⟨i :: q, call, rfl, (subtreeAt_cons hc q).trans hq, happlied⟩

theorem Bound.of_children (hn : ∀ fields, n ≠ .FunctionExpression fields)
    (h : ∀ c ∈ SyntaxTree.children n, Bound c) : Bound n := by
  intro p
  cases p with
  | nil => exact fun fields hp => absurd (Option.some.inj hp) (hn fields)
  | cons i p => exact boundAt_cons fun c hc => h c (mem_of_getElem? hc) p

theorem bound_identifier (id : String) : Bound (.Identifier id) :=
  .of_children (fun fields h => by cases h) fun c hc => by cases hc

theorem bound_of_not_occurs (h : ∀ fields, ¬ Occurs (.FunctionExpression fields) n) : Bound n :=
  fun _ fields hp => absurd (occurs_of_subtreeAt hp) (h fields)

theorem bound_safeThis : Bound SAFE_THIS := by
  refine bound_of_not_occurs fun fields hocc => ?_
  rw [← mem_preorder] at hocc
  simp [SAFE_THIS, EMPTY_CONTEXT, objectExpression, items, preorder_eq, children_eq, parts] at hocc

theorem bound_emptyContext : Bound EMPTY_CONTEXT := by
  refine bound_of_not_occurs fun fields hocc => ?_
  rw [← mem_preorder] at hocc
  simp [EMPTY_CONTEXT, objectExpression, items, preorder_eq, children_eq, parts] at hocc

theorem bound_visitIdentifier (parent : Option Edge) (id : String) :
    Bound (visitIdentifier parent id) := by
  unfold visitIdentifier
  split
  · exact .of_children (fun fields h => by cases h) fun c hc => by cases hc
  · exact bound_identifier id

/-- The call that is put around a function is where it has to be. -/
theorem bound_applied {fn : Node} {method : String} (hmethod : method ∈ ["bind", "call"])
    (hfn : ∀ c ∈ SyntaxTree.children fn, Bound c) (hargs : ∀ a ∈ arguments, Bound a) :
    Bound (callExpression (memberExpression fn (.Identifier method))
      (EMPTY_CONTEXT :: arguments)) := by
  intro p
  -- The function itself is at `callee.object`; any other one is in its
  -- fields, in the context or in the arguments.
  by_cases hhere : p = [0, 0]
  · subst hhere
    intro fields hp
    obtain rfl : fn = .FunctionExpression fields :=
      Option.some.inj ((subtreeAt_applied _ _ _ []).symm.trans hp)
    exact ⟨[], _, rfl, rfl, method, hmethod, arguments, rfl⟩
  · cases p with
    | nil => exact fun fields hp => by cases hp
    | cons i p =>
      refine boundAt_cons fun c hc => ?_
      rw [children_callExpression] at hc
      cases i with
      | succ i =>
        rw [getElem?_cons_succ] at hc
        rcases mem_cons.mp (mem_of_getElem? hc) with rfl | hc
        · exact bound_emptyContext p
        · exact hargs c hc p
      | zero =>
        obtain rfl := Option.some.inj hc
        cases p with
        | nil => exact fun fields hp => by cases hp
        | cons j p =>
          refine boundAt_cons fun d hd => ?_
          cases j with
          | zero =>
            obtain rfl := Option.some.inj hd
            cases p with
            | nil => exact absurd rfl hhere
            | cons k p =>
              refine boundAt_cons fun c hc => ?_
              exact hfn c (mem_of_getElem? hc) p
          | succ j =>
            obtain rfl := mem_singleton.mp (mem_of_getElem? hd)
            exact bound_identifier method p

/-- **EVERY FUNCTION EXPRESSION** is bound or called with the context. -/
theorem bound_visit (h : Visits visit) (n : Node) : (∀ parent name, Bound (visit parent name n))
      ∧ ∀ name, ∀ c ∈ SyntaxTree.children (traverse visit name n), Bound c := by
  refine tree_induction (P := fun n =>
    (∀ parent name, Bound (visit parent name n))
      ∧ ∀ name, ∀ c ∈ SyntaxTree.children (traverse visit name n), Bound c) (fun n ih => ?_) n
  have hpart : ∀ part ∈ parts n, ∀ parent name, Bound (visit parent name part.2) := by
    intro part hmem
    exact (ih part.2 (mem_map.mpr ⟨part, hmem, rfl⟩)).1
  have hfields : ∀ name, ∀ c ∈ SyntaxTree.children (traverse visit name n), Bound c := by
    intro name c hc
    obtain ⟨part, hmem, rfl⟩ := mem_children_traverse.mp hc
    exact hpart part hmem _ _
  refine ⟨fun parent name => ?_, hfields⟩
  rcases visit_cases h n with ⟨id, rfl, heq⟩ | ⟨rfl, heq⟩ | ⟨fields, rfl, heq⟩
    | ⟨fields, arguments, optional, rfl, heq⟩ | ⟨hplain, heq⟩
  · rw [heq]
    exact bound_visitIdentifier parent id
  · rw [heq]
    exact bound_safeThis
  · rw [heq]
    exact bound_applied (by decide) (hfields name) fun a ha => by cases ha
  · rw [heq]
    refine bound_applied (by decide) ?_ fun a ha => ?_
    · exact (ih (.FunctionExpression fields) (mem_cons_self ..)).2 _
    · obtain ⟨part, hmem, rfl⟩ := mem_visitArguments.mp ha
      exact hpart part (mem_cons_of_mem _ hmem) _ _
  · rw [heq]
    refine .of_children (fun fields hfn => ?_) (hfields name)
    obtain ⟨fields', hnode⟩ := rebuild_eq_function hfn
    exact hplain.2.2.1 fields' hnode

/-! ## The sanitizer -/

/-- **THE SANITIZER** does what it is for exactly in the programs where the
    test tells references to `globalThis` from property names. -/
theorem sandboxed_iff_tellsApart (h : Visits visit) (ast : Node) :
    Sandboxed ast (ThisSanitizer visit ast) ↔ TellsApart ast := by
  constructor
  · intro hsandboxed s hs
    refine ⟨?_, ?_⟩
    · exact (propertyNames_iff h ast).mp hsandboxed.propertyNames s hs
    · exact (noReference_iff h ast).mp hsandboxed.noReference.2 s hs
  · intro htells
    refine ⟨fun n hn => noThis h ast hn, ⟨fun heq => ?_, ?_⟩, (bound_visit h ast).1 none none, ?_⟩
    · cases ((visit_eq_globalThis h).mp heq).2
    · exact (noReference_iff h ast).mpr fun s hs => (htells s hs).2
    · exact (propertyNames_iff h ast).mpr fun s hs => (htells s hs).1

end

/-! ## Two programs -/

theorem traverse_congr {visit visit' : Visit} {name : Option Edge}
    (h : ∀ part ∈ parts n, visit name (some part.1) part.2 = visit' name (some part.1) part.2) :
    traverse visit name n = traverse visit' name n := by
  rw [traverse, traverse, map_congr_left h]

theorem visitNode_congr {visit visit' : Visit}
    (h : ∀ m, size m < size n → ∀ parent name, visit parent name m = visit' parent name m)
    (parent name : Option Edge) :
    visitNode visit parent name n = visitNode visit' parent name n := by
  have hchild : ∀ part ∈ parts n, size part.2 < size n :=
    fun part hpart => size_lt (mem_map_of_mem hpart)
  have hself : traverse visit name n = traverse visit' name n :=
    traverse_congr fun part hpart => h _ (hchild part hpart) ..
  cases n with
  | Identifier id => rfl
  | ThisExpression => rfl
  | FunctionExpression fields =>
    rw [visitNode, visitNode, visitFunctionExpression, visitFunctionExpression, hself]
  | CallExpression callee arguments optional =>
    cases callee with
    | FunctionExpression fields =>
      have hcallee := hchild _ (mem_cons_self ..)
      have hargs : visitArguments visit name arguments = visitArguments visit' name arguments :=
        map_congr_left fun part hpart =>
          h _ (hchild part (mem_cons_of_mem _ hpart)) ..
      have hfn : traverse visit (some (.field .callee)) (.FunctionExpression fields)
          = traverse visit' (some (.field .callee)) (.FunctionExpression fields) :=
        traverse_congr fun part hpart =>
          h _ (Nat.lt_trans (size_lt (mem_map_of_mem hpart)) hcallee) ..
      rw [visitNode, visitNode, visitCallExpression, visitCallExpression, hargs, hfn]
    | _ => exact hself
  | _ => exact hself

/-- A visitor that calls the methods. -/
def visitAst (parent name : Option Edge) (n : Node) : Node :=
  visitNode (fun parent name m =>
    if size m < size n then visitAst parent name m else m) parent name n
termination_by size n

theorem visits_visitAst : Visits visitAst := by
  intro parent name n
  rw [visitAst]
  exact visitNode_congr (fun m hm parent name => if_pos hm) parent name

def program (expression : Node) : Node :=
  .other .File [(.field .program, .other .Program [(.item .body 0,
    .other .ExpressionStatement [(.field .expression, expression)])])]

def readsProcess : Node :=
  program (callExpression
    (.other .ArrowFunctionExpression
      [(.field .body, memberExpression globalThis (.Identifier "process"))]) [])

def readsProcessInKey : Node :=
  program (.MemberExpression (objectExpression [])
    (memberExpression globalThis (.Identifier "process")) true false)

/-- `$json.globalThis` -/
def namesProperty : Node := program (memberExpression (.Identifier "$json") globalThis)

theorem readsProcess_sandboxed : Sandboxed readsProcess (ThisSanitizer visitAst readsProcess) := by
  refine (sandboxed_iff_tellsApart visits_visitAst _).mpr fun s hs => ?_
  rw [← mem_preorder] at hs
  simp [readsProcess, program, callExpression, memberExpression, globalThis,
    Place.root, preorder_eq, children_place, Place.child, parts, items] at hs
  rcases hs with rfl | rfl | rfl | rfl | rfl | rfl | rfl | rfl <;>
    simp [HoldsGlobal, parts, items, globalThis, role, roleOfKey, roleAmong]

section

variable (parent name : Option Edge)

theorem visitAst_other (type : NodeType) (fields : List (Edge × Node)) :
    visitAst parent name (.other type fields)
      = .other type (fields.map fun p => (p.1, visitAst name (some p.1) p.2)) := by
  rw [visits_visitAst]
  exact congrArg (Node.other type) (relabel_map _ fields)

theorem visitAst_member (object property : Node) (computed optional : Bool) :
    visitAst parent name (.MemberExpression object property computed optional)
      = .MemberExpression (visitAst name (some (.field .object)) object)
        (visitAst name (some (.field .property)) property) computed optional := by
  rw [visits_visitAst]
  rfl

theorem visitAst_identifier (id : String) :
    visitAst parent name (.Identifier id) = visitIdentifier parent id := by
  rw [visits_visitAst]
  rfl

end

/-- **TWO PROGRAMS** where the test is wrong: in a computed key the reference
    to `globalThis` stays, and the name of a property is replaced. -/
theorem parent_name_misleads :
    Visits visitAst
      ∧ ThisSanitizer visitAst readsProcessInKey = readsProcessInKey
      ∧ ¬ Sandboxed readsProcessInKey (ThisSanitizer visitAst readsProcessInKey)
      ∧ ThisSanitizer visitAst namesProperty
        = program (memberExpression (.Identifier "$json") SAFE_GLOBAL)
      ∧ ¬ Sandboxed namesProperty (ThisSanitizer visitAst namesProperty) := by
  have hsame : ThisSanitizer visitAst readsProcessInKey = readsProcessInKey := by
    simp [ThisSanitizer, readsProcessInKey, program, objectExpression, memberExpression,
      globalThis, items, visitAst_other, visitAst_member, visitAst_identifier,
      visitIdentifier, isPropertyName, GLOBAL_IDENTIFIERS]
  have hreplaced : ThisSanitizer visitAst namesProperty
      = program (memberExpression (.Identifier "$json") SAFE_GLOBAL) := by
    simp [ThisSanitizer, namesProperty, program, memberExpression, globalThis, visitAst_other,
      visitAst_member, visitAst_identifier, visitIdentifier, isPropertyName, GLOBAL_IDENTIFIERS]
  refine ⟨visits_visitAst, hsame, fun h => ?_, hreplaced, fun h => ?_⟩
  · rw [hsame] at h
    have hocc : Occurs (memberExpression globalThis (.Identifier "process")) readsProcessInKey := by
      rw [← mem_preorder]
      simp [readsProcessInKey, program, memberExpression, objectExpression,
        globalThis, items, preorder_eq, children_eq, parts]
    exact h.noReference.2 _ hocc ⟨_, mem_cons_self .., rfl, rfl⟩
  · rw [hreplaced] at h
    have hkept := h.propertyNames [0, 0, 0]
      (memberExpression (.Identifier "$json") globalThis) 1 (.field .property)
      rfl rfl rfl
    cases hkept

end N8nThisSanitizer
