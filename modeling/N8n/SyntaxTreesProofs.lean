import Mathlib.Data.List.Basic

/-! # Syntax trees — occurrences, preorder and visitors

    A syntax tree is a type with the children of each node, all of them
    smaller than the node.  `Occurs b a` says that `b` is a node of the tree
    `a`, at any depth.  A visitor takes a state through the nodes: it treats
    a node and then its children, from left to right.

    The engine is `visit_eq`: a visitor goes through the nodes in preorder,
    so a fact about the whole visit is an induction over a list, and what it
    has seen is what occurs. -/

namespace N8nSyntaxTree

open List

/-- The children of each node, which are smaller than the node. -/
class SyntaxTree (α : Type) [SizeOf α] where
  children : α → List α
  sizeOf_lt : ∀ {a c : α}, c ∈ children a → sizeOf c < sizeOf a

open SyntaxTree

variable {α σ : Type} [SizeOf α] [SyntaxTree α]

/-- The node is in the tree. -/
inductive Occurs (b : α) : α → Prop where
  | here : Occurs b b
  | inside {a c : α} : c ∈ children a → Occurs b c → Occurs b a

/-- **TREE INDUCTION**: from the children to the node. -/
theorem tree_induction {P : α → Prop}
    (step : ∀ a, (∀ c ∈ children a, P c) → P a) (a : α) : P a := by
  induction hn : sizeOf a using Nat.strongRecOn generalizing a with
  | ind n ih =>
    refine step a fun c hc => ?_
    exact ih (sizeOf c) (hn ▸ sizeOf_lt hc) c rfl

variable {a b : α}

theorem occurs_iff : Occurs b a ↔ b = a ∨ ∃ c ∈ children a, Occurs b c := by
  constructor
  · intro h
    cases h with
    | here => exact .inl rfl
    | inside hc hb => exact .inr ⟨_, hc, hb⟩
  · rintro (rfl | ⟨c, hc, hb⟩)
    · exact .here
    · exact .inside hc hb

variable {c : α}

theorem Occurs.child (h : c ∈ children a) : Occurs c a := .inside h .here

theorem Occurs.trans (hab : Occurs a b) (hbc : Occurs b c) : Occurs a c := by
  induction hbc with
  | here => exact hab
  | inside hmem _ ih => exact .inside hmem ih

/-- The nodes of the tree, each before its children. -/
def preorder (a : α) : List α := a :: (children a).attach.flatMap fun c => preorder c.1
termination_by sizeOf a
decreasing_by exact sizeOf_lt c.2

/-- What a visitor does that treats a node with `check` and then visits its
    children. -/
def visit (check : σ → α → σ) (s : σ) (a : α) : σ :=
  (children a).attach.foldl (fun s c => visit check s c.1) (check s a)
termination_by sizeOf a
decreasing_by exact sizeOf_lt c.2

theorem preorder_eq (a : α) : preorder a = a :: (children a).flatMap preorder := by
  rw [preorder]
  simp

theorem visit_unfold (check : σ → α → σ) (s : σ) (a : α) :
    visit check s a = (children a).foldl (visit check) (check s a) := by
  rw [visit]
  simp

theorem mem_preorder : b ∈ preorder a ↔ Occurs b a := by
  refine tree_induction (P := fun a => b ∈ preorder a ↔ Occurs b a) (fun a ih => ?_) a
  rw [preorder_eq, mem_cons, mem_flatMap, occurs_iff]
  refine or_congr Iff.rfl (exists_congr fun c => and_congr_right fun hc => ?_)
  exact ih c hc

theorem foldl_visit {check : σ → α → σ} (l : List α)
    (h : ∀ c ∈ l, ∀ s, visit check s c = (preorder c).foldl check s) (s : σ) :
    l.foldl (visit check) s = (l.flatMap preorder).foldl check s := by
  induction l generalizing s with
  | nil => rfl
  | cons c rest ih =>
    rw [foldl_cons, flatMap_cons, foldl_append, h c (mem_cons_self ..)]
    exact ih (fun d hd => h d (mem_cons_of_mem _ hd)) _

/-- **A VISIT** goes through the nodes in preorder. -/
theorem visit_eq (check : σ → α → σ) (s : σ) (a : α) :
    visit check s a = (preorder a).foldl check s := by
  refine tree_induction (P := fun a => ∀ s,
    visit check s a = (preorder a).foldl check s) (fun a ih s => ?_) a s
  rw [visit_unfold, preorder_eq, foldl_cons]
  exact foldl_visit _ ih _

/-- The number of nodes. -/
def size (a : α) : Nat := (preorder a).length

theorem length_le_flatMap {l : List α} (h : c ∈ l) : size c ≤ (l.flatMap preorder).length := by
  induction l with
  | nil => cases h
  | cons d rest ih =>
    rw [flatMap_cons, length_append]
    rcases mem_cons.mp h with rfl | h
    · exact Nat.le_add_right ..
    · exact Nat.le_trans (ih h) (Nat.le_add_left ..)

theorem size_lt (h : c ∈ children a) : size c < size a := by
  have hle := length_le_flatMap h
  rw [size, size, preorder_eq a, length_cons]
  exact Nat.lt_succ_of_le hle

/-! ## Positions -/

/-- The node at a position, which says the child to take at each level. -/
def subtreeAt : α → List Nat → Option α
  | a, [] => some a
  | a, i :: p => ((children a)[i]?).bind fun c => subtreeAt c p

theorem subtreeAt_cons {i : Nat} (h : (children a)[i]? = some c)
    (p : List Nat) : subtreeAt a (i :: p) = subtreeAt c p := by
  rw [subtreeAt, h, Option.bind_some]

theorem subtreeAt_append (a : α) (p q : List Nat) :
    subtreeAt a (p ++ q) = (subtreeAt a p).bind fun b => subtreeAt b q := by
  induction p generalizing a with
  | nil => rfl
  | cons i p ih =>
    rw [cons_append, subtreeAt, subtreeAt]
    cases (children a)[i]? with
    | none => rfl
    | some c => exact ih c

theorem occurs_of_subtreeAt {p : List Nat} (h : subtreeAt a p = some b) : Occurs b a := by
  induction p generalizing a with
  | nil =>
    obtain rfl := Option.some.inj h
    exact .here
  | cons i p ih =>
    rw [subtreeAt, Option.bind_eq_some_iff] at h
    obtain ⟨c, hc, hb⟩ := h
    exact .inside (mem_of_getElem? hc) (ih hb)

/-- **EVERY OCCURRENCE** has a position. -/
theorem exists_subtreeAt (h : Occurs b a) : ∃ p, subtreeAt a p = some b := by
  induction h with
  | here => exact ⟨[], rfl⟩
  | inside hmem _ ih =>
    obtain ⟨p, hp⟩ := ih
    obtain ⟨i, hi⟩ := mem_iff_getElem?.mp hmem
    exact ⟨i :: p, (subtreeAt_cons hi p).trans hp⟩

end N8nSyntaxTree
