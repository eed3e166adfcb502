import Mathlib.Algebra.Order.Ring.Nat
import Mathlib.Data.List.Nodup
import Mathlib.Data.List.Perm.Subperm

/-! # Directed paths — how many there are, and what lies on them

    A graph is given by the edges that leave each node and by the node an
    edge leads to; two edges between the same nodes are two edges.  A path
    is the list of its edges, the empty path included.

    Without a cycle a path comes by no node twice, so it is not longer than
    the number of nodes that have an edge (`length_le_of_acyclic`).  The
    paths of bounded length are then all paths, and their number is one more
    than the sum of the numbers at the nodes one step further
    (`count_eq`).

    An edge lies on a path between two nodes, with a property at all nodes
    but the ends, exactly when it can be got to from the one and leads to
    the other that way (`onPathBetween_iff`). -/

namespace N8nDirectedPaths

open List

variable {N E : Type} (out : N → List E) (target : E → N)

def IsPath : N → List E → Prop
  | _, [] => True
  | n, e :: rest => e ∈ out n ∧ IsPath (target e) rest

def endOf : N → List E → N
  | n, [] => n
  | _, e :: rest => endOf (target e) rest

/-- The nodes that a path leaves. -/
def sources : N → List E → List N
  | _, [] => []
  | n, e :: rest => n :: sources (target e) rest

/-- No path leads from a node back to it. -/
def Acyclic : Prop := ∀ n p, p ≠ [] → IsPath out target n p → endOf target n p ≠ n

/-- The paths with at most so many edges. -/
def paths : Nat → N → List (List E)
  | 0, _ => [[]]
  | k + 1, n => [] :: (out n).flatMap fun e => (paths k (target e)).map (e :: ·)

variable {out target} {n : N}

variable {p : List E}

theorem exists_prefix_of_mem_sources {m : N}
    (h : m ∈ sources target n p) (hp : IsPath out target n p) :
    ∃ first, IsPath out target n first ∧ endOf target n first = m := by
  induction p generalizing n with
  | nil => exact absurd h not_mem_nil
  | cons e rest ih =>
    rcases mem_cons.mp h with rfl | hrest
    · exact ⟨[], trivial, rfl⟩
    · obtain ⟨first, hfirst, hend⟩ := ih hrest hp.2
      exact ⟨e :: first, ⟨hp.1, hfirst⟩, hend⟩

theorem nodup_sources (ha : Acyclic out target)
    (hp : IsPath out target n p) : (sources target n p).Nodup := by
  induction p generalizing n with
  | nil => exact nodup_nil
  | cons e rest ih =>
    refine nodup_cons.mpr ⟨?_, ih hp.2⟩
    intro hmem
    obtain ⟨first, hfirst, hend⟩ := exists_prefix_of_mem_sources hmem hp.2
    exact ha n (e :: first) (cons_ne_nil _ _) ⟨hp.1, hfirst⟩ hend

theorem acyclic_of_rank (rank : N → Nat) (h : ∀ n, ∀ e ∈ out n, rank (target e) < rank n) :
    Acyclic out target := by
  have hend : ∀ p n, IsPath out target n p → rank (endOf target n p) + p.length ≤ rank n := by
    intro p
    induction p with
    | nil => exact fun n _ => Nat.le_refl _
    | cons e rest ih =>
      rintro n ⟨he, hrest⟩
      have hrank := h n e he
      have := ih (target e) hrest
      rw [endOf, length_cons]
      omega
  intro n p hne hp heq
  have hlength := hend p n hp
  have hpos := length_pos_iff.mpr hne
  rw [heq] at hlength
  omega

theorem length_sources (p : List E) : (sources target n p).length = p.length := by
  induction p generalizing n with
  | nil => rfl
  | cons e rest ih => rw [sources, length_cons, ih, length_cons]

variable {nodes : List N}

theorem sources_subset (hout : ∀ m, out m ≠ [] → m ∈ nodes) (hp : IsPath out target n p) :
    sources target n p ⊆ nodes := by
  induction p generalizing n with
  | nil => exact nil_subset _
  | cons e rest ih =>
    refine cons_subset.mpr ⟨hout n ?_, ih hp.2⟩
    exact ne_nil_of_mem hp.1

/-- **PATHS ARE SHORT**: a path comes by every node with an edge at most
    once. -/
theorem length_le_of_acyclic (ha : Acyclic out target) (hout : ∀ m, out m ≠ [] → m ∈ nodes)
    (hp : IsPath out target n p) : p.length ≤ nodes.length := by
  calc p.length = (sources target n p).length := (length_sources p).symm
    _ ≤ nodes.length := ((nodup_sources ha hp).subperm (sources_subset hout hp)).length_le

theorem paths_succ_of_short {k : Nat} (h : ∀ p, IsPath out target n p → p.length ≤ k) :
    paths out target (k + 1) n = paths out target k n := by
  induction k generalizing n with
  | zero =>
    have hnone : out n = [] := by
      rw [eq_nil_iff_forall_not_mem]
      intro e he
      exact absurd (h [e] ⟨he, trivial⟩) (by simp)
    show [] :: (out n).flatMap _ = _
    rw [hnone]
    rfl
  | succ k ih =>
    rw [paths, paths]
    congr 1
    refine flatMap_congr fun e he => ?_
    rw [ih]
    intro p hp
    exact Nat.le_of_succ_le_succ (h (e :: p) ⟨he, hp⟩)

/-- The number of paths that start at a node, with the nodes that have an
    edge given. -/
def count (out : N → List E) (target : E → N) (nodes : List N) (n : N) : Nat :=
  (paths out target nodes.length n).length

theorem count_pos (nodes : List N) : 0 < count out target nodes n := by
  rw [count]
  cases nodes.length with
  | zero => exact Nat.one_pos
  | succ k => exact Nat.succ_pos _

/-- **ONE STEP FURTHER**: the empty path, and for every edge the paths from
    where it leads. -/
theorem count_eq (ha : Acyclic out target) (hout : ∀ m, out m ≠ [] → m ∈ nodes) (n : N) :
    count out target nodes n
      = 1 + ((out n).map fun e => count out target nodes (target e)).sum := by
  have hshort : paths out target (nodes.length + 1) n = paths out target nodes.length n :=
    paths_succ_of_short fun p hp => length_le_of_acyclic ha hout hp
  rw [count, ← hshort, paths, length_cons, length_flatMap, Nat.add_comm]
  congr 2
  refine map_congr_left fun e _ => ?_
  rw [length_map, count]

/-! ## Paths that stay between their ends -/

open Relation

theorem isPath_append {q : List E} :
    IsPath out target n (p ++ q)
      ↔ IsPath out target n p ∧ IsPath out target (endOf target n p) q := by
  induction p generalizing n with
  | nil => exact (and_iff_right trivial).symm
  | cons e rest ih => rw [cons_append, IsPath, IsPath, endOf, ih, and_assoc]

theorem endOf_append (p q : List E) :
    endOf target n (p ++ q) = endOf target (endOf target n p) q := by
  induction p generalizing n with
  | nil => rfl
  | cons e rest ih => exact ih

theorem IsPath.mono {out' : N → List E}
    (hp : IsPath out target n p) (hout : ∀ e ∈ p, ∀ m, e ∈ out m → e ∈ out' m) :
    IsPath out' target n p := by
  induction p generalizing n with
  | nil => trivial
  | cons e rest ih =>
    obtain ⟨he, hrest⟩ := forall_mem_cons.mp hout
    exact ⟨he n hp.1, ih hp.2 hrest⟩

theorem IsPath.reach (hp : IsPath out target n p) :
    ReflTransGen (fun a b => ∃ e ∈ out a, target e = b) n (endOf target n p) := by
  induction p generalizing n with
  | nil => exact .refl
  | cons e rest ih => exact .head ⟨e, hp.1, rfl⟩ (ih hp.2)

/-- One step along an edge, to a node where `P` holds. -/
def Into (out : N → List E) (target : E → N) (P : N → Prop) (a b : N) :
    Prop := (∃ e ∈ out a, target e = b) ∧ P b

/-- One step along an edge, from a node where `P` holds. -/
def OutOf (out : N → List E) (target : E → N) (P : N → Prop) (a b : N) :
    Prop := P a ∧ ∃ e ∈ out a, target e = b

/-- The edge is on a path between the nodes that has `P` at all nodes but
    its ends. -/
def OnPathBetween (out : N → List E) (target : E → N) (P : N → Prop) (a b : N) (e : E) : Prop :=
  ∃ p, IsPath out target a p ∧ endOf target a p = b ∧ e ∈ p ∧ ∀ i ∈ p.dropLast, P (target i)

section

variable {P : N → Prop} {a b : N}

theorem reach_into {p : List E} (hp : IsPath out target a p) (hP : ∀ i ∈ p, P (target i)) :
    ReflTransGen (Into out target P) a (endOf target a p) := by
  induction p generalizing a with
  | nil => exact .refl
  | cons e rest ih =>
    obtain ⟨he, hrest⟩ := forall_mem_cons.mp hP
    exact .head ⟨⟨e, hp.1, rfl⟩, he⟩ (ih hp.2 hrest)

theorem exists_path_into (h : ReflTransGen (Into out target P) a b) :
    ∃ p, IsPath out target a p ∧ endOf target a p = b ∧ ∀ i ∈ p, P (target i) := by
  induction h using ReflTransGen.head_induction_on with
  | refl => exact ⟨[], trivial, rfl, fun i hi => absurd hi not_mem_nil⟩
  | head hstep _ ih =>
    obtain ⟨⟨e, he, rfl⟩, hP⟩ := hstep
    obtain ⟨p, hp, hend, hall⟩ := ih
    exact ⟨e :: p, ⟨he, hp⟩, hend, forall_mem_cons.mpr ⟨hP, hall⟩⟩

theorem reach_outOf {p : List E} {e : E} (hp : IsPath out target (target e) p)
    (hP : ∀ i ∈ (e :: p).dropLast, P (target i)) :
    ReflTransGen (OutOf out target P) (target e) (endOf target (target e) p) := by
  induction p generalizing e with
  | nil => exact .refl
  | cons f rest ih =>
    obtain ⟨he, hrest⟩ := forall_mem_cons.mp hP
    exact .head ⟨he, f, hp.1, rfl⟩ (ih hp.2 hrest)

theorem exists_path_outOf (h : ReflTransGen (OutOf out target P) a b) {e : E} (he : target e = a) :
    ∃ p, IsPath out target a p ∧ endOf target a p = b ∧ ∀ i ∈ (e :: p).dropLast, P (target i) := by
  induction h using ReflTransGen.head_induction_on generalizing e with
  | refl => exact ⟨[], trivial, rfl, fun i hi => absurd hi not_mem_nil⟩
  | head hstep _ ih =>
    obtain ⟨hP, f, hf, hto⟩ := hstep
    obtain ⟨p, hp, hend, hall⟩ := ih hto
    refine ⟨f :: p, ⟨hf, hto ▸ hp⟩, (by rw [endOf, hto]; exact hend), ?_⟩
    exact forall_mem_cons.mpr ⟨he ▸ hP, hall⟩

/-- **BETWEEN TWO NODES**: the edge can be got to from the one, and leads to
    the other. -/
theorem onPathBetween_iff {e : E} :
    OnPathBetween out target P a b e ↔ ∃ x, e ∈ out x
      ∧ ReflTransGen (Into out target P) a x
      ∧ ReflTransGen (OutOf out target P) (target e) b := by
  constructor
  · rintro ⟨p, hp, rfl, he, hP⟩
    obtain ⟨first, last, rfl⟩ := append_of_mem he
    obtain ⟨hfirst, hout, hlast⟩ := isPath_append.mp hp
    rw [dropLast_append_of_ne_nil (cons_ne_nil _ _)] at hP
    obtain ⟨hP₁, hP₂⟩ := forall_mem_append.mp hP
    refine ⟨_, hout, reach_into hfirst hP₁, ?_⟩
    rw [endOf_append]
    exact reach_outOf hlast hP₂
  · rintro ⟨x, he, hfrom, hto⟩
    obtain ⟨first, hfirst, rfl, hP₁⟩ := exists_path_into hfrom
    obtain ⟨last, hlast, rfl, hP₂⟩ := exists_path_outOf hto rfl
    refine ⟨first ++ e :: last, isPath_append.mpr ⟨hfirst, he, hlast⟩,
      endOf_append .., mem_append_right _ (mem_cons_self ..), ?_⟩
    rw [dropLast_append_of_ne_nil (cons_ne_nil _ _)]
    exact forall_mem_append.mpr ⟨hP₁, hP₂⟩

end

/-! ## The last visit -/

/-- **THE LAST VISIT**: a way either never leaves `v`, or it ends with what
    follows the last time that it does. -/
theorem exists_last_visit {α : Type} {R : α → α → Prop} {a x : α} (v : α) (h : ReflTransGen R a x) :
    ReflTransGen (fun a b => R a b ∧ a ≠ v) a x
      ∨ ∃ c, R v c ∧ ReflTransGen (fun a b => R a b ∧ a ≠ v) c x := by
  induction h using ReflTransGen.head_induction_on with
  | refl => exact .inl .refl
  | @head a b hab _ ih =>
    rcases ih with hbx | hlast
    · by_cases hav : a = v
      · subst hav
        exact .inr ⟨b, hab, hbx⟩
      · exact .inl (.head ⟨hab, hav⟩ hbx)
    · exact .inr hlast

end N8nDirectedPaths
