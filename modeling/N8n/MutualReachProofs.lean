import Mathlib.Data.Nat.Find
import N8n.DepthFirstProofs

/-! # Mutual reachability — what a search knows of the classes

    Two nodes are in one class if each of them can be reached from the
    other.  The *entry* of a class is the node of it that a search sees
    first.

    Before a node of a class that was not seen first there is a gray node of
    the class (`exists_gray_mutual`).  When the search leaves the entry it
    has seen the whole class (`mem_of_mutual`); when it leaves another node
    there is a chain from it to an earlier node of the class
    (`exists_earlier`). -/

namespace N8nMutualReach

open Relation N8nDepthFirst List

variable {N : Type} {out : N → List N}

def Mutual (out : N → List N) (a b : N) : Prop := Reach out a b ∧ Reach out b a

theorem Mutual.refl (a : N) : Mutual out a a := ⟨.refl, .refl⟩

theorem Mutual.symm {a b : N} (h : Mutual out a b) : Mutual out b a := ⟨h.2, h.1⟩

theorem Mutual.trans {a b c : N} (h : Mutual out a b) (h' : Mutual out b c) : Mutual out a c :=
  ⟨h.1.trans h'.1, h'.2.trans h.2⟩

/-! ## Entries -/

section

variable [DecidableEq N] {seen : List N} {v r : N}

/-- The first of the nodes that is in the class of `v`. -/
structure IsEntry (out : N → List N) (seen : List N) (v r : N) : Prop where
  mem : r ∈ seen
  member : Mutual out v r
  first : ∀ x ∈ seen, Mutual out v x → seen.idxOf r ≤ seen.idxOf x

theorem eq_of_idxOf {x y : N} (hx : x ∈ seen) (h : seen.idxOf x = seen.idxOf y) : x = y :=
  (idxOf_inj hx).mp h

theorem IsEntry.eq {r' : N} (h : IsEntry out seen v r) (h' : IsEntry out seen v r') : r = r' :=
  eq_of_idxOf h.mem (Nat.le_antisymm (h.first r' h'.mem h'.member) (h'.first r h.mem h.member))

theorem IsEntry.of_mutual {w : N} (h : IsEntry out seen v r)
    (hvw : Mutual out v w) : IsEntry out seen w r :=
  ⟨h.mem, hvw.symm.trans h.member, fun x hx hwx => h.first x hx (hvw.trans hwx)⟩

open Classical in
theorem exists_entry (out : N → List N) (hv : v ∈ seen) : ∃ r, IsEntry out seen v r := by
  have hsome : ∃ n, ∃ x ∈ seen, Mutual out v x ∧ seen.idxOf x = n := ⟨_, v, hv, Mutual.refl v, rfl⟩
  obtain ⟨r, hr, hmutual, hidx⟩ := Nat.find_spec hsome
  refine ⟨r, hr, hmutual, fun x hx hvx => ?_⟩
  rw [hidx]
  exact Nat.find_min' hsome ⟨x, hx, hvx, rfl⟩

theorem IsEntry.append {more : List N} (h : IsEntry out seen v r) :
    IsEntry out (seen ++ more) v r := by
  refine ⟨mem_append_left _ h.mem, h.member, fun x hx hvx => ?_⟩
  rw [idxOf_append_of_mem h.mem]
  by_cases hxs : x ∈ seen
  · rw [idxOf_append_of_mem hxs]
    exact h.first x hxs hvx
  · rw [idxOf_append_of_notMem hxs]
    exact Nat.le_add_right_of_le (Nat.le_of_lt (idxOf_lt_length_iff.mpr h.mem))

end

/-! ## Chains -/

section

variable {left : List (N × N)} {seen : List N} {u v x : N}

theorem chain_ends (hends : ∀ e ∈ left, e.1 ∈ seen ∧ e.2 ∈ seen)
    (h : Chain left v x) : v = x ∨ (v ∈ seen ∧ x ∈ seen) := by
  induction left generalizing v with
  | nil => exact .inl h
  | cons e rest ih =>
    obtain ⟨he, hrest⟩ := forall_mem_cons.mp hends
    rcases h with h | ⟨rfl, h⟩
    · exact ih hrest h
    · rcases ih hrest h with heq | ⟨-, hx⟩
      · exact .inr ⟨he.1, heq ▸ he.2⟩
      · exact .inr ⟨he.1, hx⟩

end

/-! ## What the search has seen of a class -/

section

variable [DecidableEq N] {gray : List N} {s : Search N} {u v x y : N}

theorem exists_gray (h : Invariant out gray s) (hu : u ∈ gray) (hx : x ∈ s.seen)
    (hlt : s.seen.idxOf x < s.seen.idxOf u) (hreach : Reach out x u) :
    ∃ g ∈ gray, s.seen.idxOf g < s.seen.idxOf u ∧ Reach out x g ∧ Reach out g u := by
  induction hreach using ReflTransGen.head_induction_on with
  | refl => exact absurd hlt (Nat.lt_irrefl _)
  | @head x c hxc hcu ih =>
    by_cases hgray : x ∈ gray
    · exact ⟨x, hgray, hlt, .refl, .head hxc hcu⟩
    · obtain ⟨hc, hclt⟩ := h.before u hu x hx hgray hlt c hxc
      obtain ⟨g, hg, hglt, hcg, hgu⟩ := ih hc hclt
      exact ⟨g, hg, hglt, .head hxc hcg, hgu⟩

/-- **GRAY MEMBERS**: a gray node that was not seen first in its class has
    another gray node of the class before it. -/
theorem exists_gray_mutual (h : Invariant out (u :: gray) s)
    (hx : x ∈ s.seen) (hlt : s.seen.idxOf x < s.seen.idxOf u)
    (hxu : Mutual out x u) : ∃ g ∈ gray, Mutual out g u := by
  obtain ⟨g, hg, hglt, hxg, hgu⟩ := exists_gray h (mem_cons_self ..) hx hlt hxu.1
  refine ⟨g, (mem_cons.mp hg).resolve_left ?_, hgu, hxu.2.trans hxg⟩
  rintro rfl
  exact Nat.lt_irrefl _ hglt

section

variable (h : Invariant out (v :: gray) s) (hv : Finished out v s)
include h hv

theorem out_seen (hy : y ∈ s.seen) (hle : s.seen.idxOf v ≤ s.seen.idxOf y) :
    ∀ c ∈ out y, c ∈ s.seen := by
  by_cases hyv : y = v
  · rw [hyv]
    exact hv.outs
  · refine h.closed y hy fun hgray => ?_
    have hgray := (mem_cons.mp hgray).resolve_left hyv
    have hlt := (pairwise_cons.mp h.ordered).1 y hgray
    omega

/-- **WHEN ANOTHER NODE IS LEFT** there is a chain from it to an earlier
    node of its class. -/
theorem exists_earlier (hlt : s.seen.idxOf x < s.seen.idxOf v) (hxv : Mutual out x v) :
    ∃ z ∈ s.seen, s.seen.idxOf z < s.seen.idxOf v ∧ Mutual out z v ∧ Chain s.left v z := by
  have hway : ∀ {y}, Reach out y x → y ∈ s.seen → s.seen.idxOf v ≤ s.seen.idxOf y → Reach out v y →
      ∃ z ∈ s.seen, s.seen.idxOf z < s.seen.idxOf v ∧ Mutual out z v ∧ Chain s.left v z := by
    intro y hyx
    induction hyx using ReflTransGen.head_induction_on with
    | refl => exact fun _ hle _ => absurd hlt (Nat.not_lt.mpr hle)
    | @head y c hyc hcx ih =>
      intro hy hle hvy
      have hc := out_seen h hv hy hle c hyc
      by_cases hclt : s.seen.idxOf c < s.seen.idxOf v
      · exact ⟨c, hc, hclt, ⟨hcx.trans hxv.1, hvy.tail hyc⟩, hv.chains y hy hle c hyc⟩
      · exact ih hc (Nat.not_lt.mp hclt) (hvy.tail hyc)
  exact hway hxv.2 (h.gray_seen v (mem_cons_self ..)) (Nat.le_refl _) .refl

/-- **WHEN THE ENTRY IS LEFT** the whole class was seen. -/
theorem mem_of_mutual (hfirst : ∀ x ∈ s.seen, Mutual out v x → s.seen.idxOf v ≤ s.seen.idxOf x)
    (hvy : Mutual out v y) : y ∈ s.seen := by
  obtain ⟨hvy, hyv⟩ := hvy
  induction hvy with
  | refl => exact h.gray_seen v (mem_cons_self ..)
  | @tail b c hvb hbc ih =>
    have hbv : Reach out b v := .head hbc hyv
    have hb := ih hbv
    exact out_seen h hv hb (hfirst b hb ⟨hvb, hbv⟩) c hbc

end

end

end N8nMutualReach
