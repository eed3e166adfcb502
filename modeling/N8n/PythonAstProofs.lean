import Mathlib.Algebra.Order.Ring.Nat
import Mathlib.Data.List.ReduceOption
import N8n.SyntaxTreesProofs

/-! # The abstract syntax of Python

    The node classes of Python's `ast` module, each with the fields of its
    class that hold nodes, names or constants.  Operators, contexts and type
    comments carry nothing that is read here and are left out; so are line
    numbers, where no visitor looks at them.  `children` lists the nodes in
    the order of the fields, which is the order of `generic_visit`. -/

namespace N8nPythonAst

open N8nSyntaxTree

/-- The value of a constant: a text, or anything else. -/
inductive ConstantValue where
  | str (value : String)
  | other

/-- `alias`: a name that is imported, and what it is imported as. -/
structure Alias where
  name : String
  asname : Option String

/-- A node of the syntax tree. -/
inductive Ast where
  -- mod
  | Module (body : List Ast)
  -- stmt
  | FunctionDef (name : String) (args : Ast) (body : List Ast)
      (decoratorList : List Ast) (returns : Option Ast) (typeParams : List Ast)
  | AsyncFunctionDef (name : String) (args : Ast) (body : List Ast)
      (decoratorList : List Ast) (returns : Option Ast) (typeParams : List Ast)
  | ClassDef (name : String) (bases : List Ast) (keywords : List Ast)
      (body : List Ast) (decoratorList : List Ast) (typeParams : List Ast)
  | Return (value : Option Ast)
  | Delete (targets : List Ast)
  | Assign (targets : List Ast) (value : Ast)
  | TypeAlias (name : Ast) (typeParams : List Ast) (value : Ast)
  | AugAssign (target value : Ast)
  | AnnAssign (target annotation : Ast) (value : Option Ast)
  | For (target iter : Ast) (body orelse : List Ast)
  | AsyncFor (target iter : Ast) (body orelse : List Ast)
  | While (test : Ast) (body orelse : List Ast)
  | If (test : Ast) (body orelse : List Ast)
  | With (items : List Ast) (body : List Ast)
  | AsyncWith (items : List Ast) (body : List Ast)
  | Match (subject : Ast) (cases : List Ast)
  | Raise (exc cause : Option Ast)
  | Try (body handlers orelse finalbody : List Ast)
  | TryStar (body handlers orelse finalbody : List Ast)
  | Assert (test : Ast) (msg : Option Ast)
  | Import (lineno : Nat) (names : List Alias)
  | ImportFrom (lineno : Nat) (module : Option String) (names : List Alias) (level : Nat)
  | Global (names : List String)
  | Nonlocal (names : List String)
  | Expr (value : Ast)
  | Pass
  | Break
  | Continue
  -- expr
  | BoolOp (values : List Ast)
  | NamedExpr (target value : Ast)
  | BinOp (left right : Ast)
  | UnaryOp (operand : Ast)
  | Lambda (args body : Ast)
  | IfExp (test body orelse : Ast)
  /-- a missing key stands for a mapping that is unpacked -/
  | Dict (keys : List (Option Ast)) (values : List Ast)
  | Set (elts : List Ast)
  | ListComp (elt : Ast) (generators : List Ast)
  | SetComp (elt : Ast) (generators : List Ast)
  | DictComp (key value : Ast) (generators : List Ast)
  | GeneratorExp (elt : Ast) (generators : List Ast)
  | Await (value : Ast)
  | Yield (value : Option Ast)
  | YieldFrom (value : Ast)
  | Compare (left : Ast) (comparators : List Ast)
  | Call (lineno : Nat) (func : Ast) (args keywords : List Ast)
  | FormattedValue (value : Ast) (formatSpec : Option Ast)
  | JoinedStr (values : List Ast)
  | Interpolation (value : Ast) (formatSpec : Option Ast)
  | TemplateStr (values : List Ast)
  | Constant (value : ConstantValue)
  | Attribute (lineno : Nat) (value : Ast) (attr : String)
  | Subscript (lineno : Nat) (value slice : Ast)
  | Starred (value : Ast)
  | Name (lineno : Nat) (id : String)
  | List (elts : List Ast)
  | Tuple (elts : List Ast)
  | Slice (lower upper step : Option Ast)
  -- the parts of statements, functions and calls
  | comprehension (target iter : Ast) (ifs : List Ast)
  | ExceptHandler (type : Option Ast) (name : Option String) (body : List Ast)
  | arguments (posonlyargs args : List Ast) (vararg : Option Ast)
      (kwonlyargs : List Ast) (kwDefaults : List (Option Ast))
      (kwarg : Option Ast) (defaults : List Ast)
  | arg (arg : String) ( annotation : Option Ast)
  | keyword (arg : Option String) (value : Ast)
  | withitem (contextExpr : Ast) (optionalVars : Option Ast)
  -- pattern
  | matchCase (pattern : Ast) (guard : Option Ast) (body : List Ast)
  | MatchValue (value : Ast)
  | MatchSingleton (value : ConstantValue)
  | MatchSequence (patterns : List Ast)
  | MatchMapping (keys patterns : List Ast) (rest : Option String)
  | MatchClass (cls : Ast) (patterns : List Ast) (kwdAttrs : List String) (kwdPatterns : List Ast)
  | MatchStar (name : Option String)
  | MatchAs (pattern : Option Ast) (name : Option String)
  | MatchOr (patterns : List Ast)
  -- type_param
  | TypeVar (name : String) (bound default : Option Ast)
  | ParamSpec (name : String) (default : Option Ast)
  | TypeVarTuple (name : String) (default : Option Ast)

/-- The nodes in the fields of a node. -/
def children : Ast → List Ast
  | .Module body => body
  | .FunctionDef _ args body decoratorList returns typeParams
  | .AsyncFunctionDef _ args body decoratorList returns typeParams =>
    args :: body ++ decoratorList ++ returns.toList ++ typeParams
  | .ClassDef _ bases keywords body decoratorList typeParams =>
    bases ++ keywords ++ body ++ decoratorList ++ typeParams
  | .Return value => value.toList
  | .Delete targets => targets
  | .Assign targets value => targets ++ [value]
  | .TypeAlias name typeParams value => name :: typeParams ++ [value]
  | .AugAssign target value => [target, value]
  | .AnnAssign target annotation value => target :: annotation :: value.toList
  | .For target iter body orelse | .AsyncFor target iter body orelse =>
    target :: iter :: body ++ orelse
  | .While test body orelse | .If test body orelse => test :: body ++ orelse
  | .With items body | .AsyncWith items body => items ++ body
  | .Match subject cases => subject :: cases
  | .Raise exc cause => exc.toList ++ cause.toList
  | .Try body handlers orelse finalbody
  | .TryStar body handlers orelse finalbody => body ++ handlers ++ orelse ++ finalbody
  | .Assert test msg => test :: msg.toList
  | .Import _ _ | .ImportFrom _ _ _ _ => []
  | .Global _ | .Nonlocal _ => []
  | .Expr value => [value]
  | .Pass | .Break | .Continue => []
  | .BoolOp values => values
  | .NamedExpr target value => [target, value]
  | .BinOp left right => [left, right]
  | .UnaryOp operand => [operand]
  | .Lambda args body => [args, body]
  | .IfExp test body orelse => [test, body, orelse]
  | .Dict keys values => keys.reduceOption ++ values
  | .Set elts => elts
  | .ListComp elt generators | .SetComp elt generators
  | .GeneratorExp elt generators => elt :: generators
  | .DictComp key value generators => key :: value :: generators
  | .Await value => [value]
  | .Yield value => value.toList
  | .YieldFrom value => [value]
  | .Compare left comparators => left :: comparators
  | .Call _ func args keywords => func :: args ++ keywords
  | .FormattedValue value formatSpec | .Interpolation value formatSpec =>
    value :: formatSpec.toList
  | .JoinedStr values | .TemplateStr values => values
  | .Constant _ => []
  | .Attribute _ value _ => [value]
  | .Subscript _ value slice => [value, slice]
  | .Starred value => [value]
  | .Name _ _ => []
  | .List elts | .Tuple elts => elts
  | .Slice lower upper step => lower.toList ++ upper.toList ++ step.toList
  | .comprehension target iter ifs => target :: iter :: ifs
  | .ExceptHandler type _ body => type.toList ++ body
  | .arguments posonlyargs args vararg kwonlyargs kwDefaults kwarg defaults =>
    posonlyargs ++ args ++ vararg.toList ++ kwonlyargs
      ++ kwDefaults.reduceOption ++ kwarg.toList ++ defaults
  | .arg _ annotation => annotation.toList
  | .keyword _ value => [value]
  | .withitem contextExpr optionalVars => contextExpr :: optionalVars.toList
  | .matchCase pattern guard body => pattern :: guard.toList ++ body
  | .MatchValue value => [value]
  | .MatchSingleton _ => []
  | .MatchSequence patterns => patterns
  | .MatchMapping keys patterns _ => keys ++ patterns
  | .MatchClass cls patterns _ kwdPatterns => cls :: patterns ++ kwdPatterns
  | .MatchStar _ => []
  | .MatchAs pattern _ => pattern.toList
  | .MatchOr patterns => patterns
  | .TypeVar _ bound default => bound.toList ++ default.toList
  | .ParamSpec _ default | .TypeVarTuple _ default => default.toList

/-! ## Children are smaller -/

/-- The sizes of the nodes of a list together. -/
noncomputable def total (l : List Ast) : Nat := (l.map sizeOf).sum

theorem total_append (l l' : List Ast) : total (l ++ l') = total l + total l' := by
  simp [total]

theorem total_cons (a : Ast) (l : List Ast) : total (a :: l) = sizeOf a + total l := by
  simp [total]

theorem total_nil : total [] = 0 := rfl

theorem total_lt (l : List Ast) : total l < sizeOf l := by
  induction l with
  | nil => simp [total]
  | cons a rest ih =>
    rw [total_cons, List.cons.sizeOf_spec]
    omega

theorem total_toList_lt (o : Option Ast) : total o.toList < sizeOf o := by
  cases o with
  | none => simp [total]
  | some a => simp [total]

theorem total_reduceOption_lt (l : List (Option Ast)) : total l.reduceOption < sizeOf l := by
  induction l with
  | nil => simp [total]
  | cons o rest ih =>
    cases o with
    | none =>
      rw [List.reduceOption_cons_of_none, List.cons.sizeOf_spec]
      omega
    | some a =>
      rw [List.reduceOption_cons_of_some, total_cons,
        List.cons.sizeOf_spec, Option.some.sizeOf_spec]
      omega

theorem le_total {c : Ast} {l : List Ast} (h : c ∈ l) : sizeOf c ≤ total l := by
  induction l with
  | nil => cases h
  | cons a rest ih =>
    rw [total_cons]
    rcases List.mem_cons.mp h with rfl | h
    · omega
    · have := ih h
      omega

theorem total_children_lt (a : Ast) : total (children a) < sizeOf a := by
  cases a <;>
    simp only [children, total_append, total_cons, total_nil] <;>
    simp <;>
    grind [total_lt, total_toList_lt, total_reduceOption_lt]

instance : SyntaxTree Ast where
  children := children
  sizeOf_lt {a _} h := Nat.lt_of_le_of_lt (le_total h) (total_children_lt a)

end N8nPythonAst
