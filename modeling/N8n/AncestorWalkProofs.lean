import Mathlib.Data.List.Basic

/-! # Walks with ancestors

    A tree whose nodes hold their parts at places.  A walk with ancestors
    comes to every node together with the nodes around it, the outermost
    first, and to the parts of a node before the node itself.

    `Visited` says which nodes the walk comes to, at which place and under
    which ancestors; `visits` is the walk, and `mem_visits` says that it
    comes to these and no others. -/

namespace N8nAncestorWalk

open List

/-- The parts of each node with their places; parts are smaller than the
    node. -/
class PlacedTree (ρ : outParam Type) (α : Type) [SizeOf α] where
  parts : α → List (ρ × α)
  sizeOf_lt : ∀ {a : α} {p : ρ × α}, p ∈ parts a → sizeOf p.2 < sizeOf a

open PlacedTree

variable {ρ α : Type} [SizeOf α] [PlacedTree ρ α]

/-- The walk from `root` comes to the node, at this place and under these
    ancestors. -/
inductive Visited (start : ρ) (root : α) : List α → ρ → α → Prop where
  | root : Visited start root [] start root
  | part {ancestors : List α} {r r' : ρ} {a c : α} :
      Visited start root ancestors r a → (r', c) ∈ parts a →
      Visited start root (ancestors ++ [a]) r' c

variable {ancestors : List α} {b c root : α} {r r' start : ρ}

theorem Visited.of_part (hpart : (r, c) ∈ parts root) (h : Visited r c ancestors r' b) :
    Visited start root (root :: ancestors) r' b := by
  induction h with
  | root => exact .part .root hpart
  | part _ hmem ih => exact .part ih hmem

theorem Visited.last {a : α}
    (h : Visited start root (ancestors ++ [a]) r c) : (r, c) ∈ parts a := by
  generalize hl : ancestors ++ [a] = l at h
  cases h with
  | root => simp at hl
  | part _ hmem =>
    obtain ⟨-, ha⟩ := append_inj' hl rfl
    obtain rfl : a = _ := by simpa using ha
    exact hmem

/-- What the walk comes to, in order, below these ancestors. -/
def visits (ancestors : List α) (r : ρ) (a : α) : List (List α × ρ × α) :=
  ((parts a).attach.flatMap fun p =>
    visits (ancestors ++ [a]) p.1.1 p.1.2) ++ [(ancestors, r, a)]
termination_by sizeOf a
decreasing_by exact sizeOf_lt p.2

/-- What the walk comes to in these parts, one after the other. -/
def visitsBelow (ancestors : List α) (ps : List (ρ × α)) : List (List α × ρ × α) :=
  ps.flatMap fun p => visits ancestors p.1 p.2

theorem visitsBelow_nil (ancestors : List α) : visitsBelow (ρ := ρ) ancestors [] = [] := rfl

theorem visitsBelow_cons (ancestors : List α) (p : ρ × α) (ps : List (ρ × α)) :
    visitsBelow ancestors (p :: ps) = visits ancestors p.1 p.2 ++ visitsBelow ancestors ps := by
  rw [visitsBelow, flatMap_cons, visitsBelow]

theorem visits_eq (ancestors : List α) (r : ρ) (a : α) :
    visits ancestors r a = visitsBelow (ancestors ++ [a]) (parts a) ++ [(ancestors, r, a)] := by
  rw [visits, visitsBelow, flatMap_subtype
    (g := fun p => visits (ancestors ++ [a]) p.1 p.2) fun _ _ => rfl, unattach_attach]

variable {l : List α}

theorem mem_visits_iff_part {a : α} : (l, r', b) ∈ visits ancestors r a
      ↔ (∃ p ∈ parts a, (l, r', b) ∈ visits (ancestors ++ [a]) p.1 p.2)
        ∨ (l = ancestors ∧ r' = r ∧ b = a) := by
  rw [visits_eq, visitsBelow, mem_append, mem_flatMap]
  simp

/-- **PARTS COME FIRST**, and under their node. -/
theorem visits_part {r'' : ρ}
    (hpart : (r'', c) ∈ parts b) (a : α) (h : (l, r', b) ∈ visits ancestors r a) :
    (l ++ [b], r'', c) ∈ visits ancestors r a := by
  induction hn : sizeOf a using Nat.strongRecOn generalizing a ancestors r with
  | ind n ih =>
    rw [mem_visits_iff_part] at h ⊢
    left
    rcases h with ⟨p, hp, hb⟩ | ⟨rfl, rfl, rfl⟩
    · exact ⟨p, hp, ih _ (hn ▸ sizeOf_lt hp) p.2 hb rfl⟩
    · exact ⟨(r'', c), hpart, mem_visits_iff_part.mpr (.inr ⟨rfl, rfl, rfl⟩)⟩

theorem visited_of_mem (a : α) (h : (l, r', b) ∈ visits ancestors r a) :
    ∃ below, l = ancestors ++ below ∧ Visited r a below r' b := by
  induction hn : sizeOf a using Nat.strongRecOn generalizing a ancestors r with
  | ind n ih =>
    rcases mem_visits_iff_part.mp h with ⟨p, hp, hb⟩ | ⟨rfl, rfl, rfl⟩
    · obtain ⟨below, rfl, hbelow⟩ :=
        ih _ (hn ▸ sizeOf_lt hp) p.2 hb rfl
      refine ⟨a :: below, ?_, hbelow.of_part hp⟩
      rw [append_assoc, singleton_append]
    · exact ⟨[], (append_nil _).symm, .root⟩

/-- **THE WALK** comes to what is visited, and to nothing else. -/
theorem mem_visits : (l, r, b) ∈ visits [] start root ↔ Visited start root l r b := by
  constructor
  · intro h
    obtain ⟨below, rfl, hb⟩ := visited_of_mem root h
    exact hb
  · intro h
    induction h with
    | root => exact mem_visits_iff_part.mpr (.inr ⟨rfl, rfl, rfl⟩)
    | part _ hmem ih => exact visits_part hmem root ih

end N8nAncestorWalk
