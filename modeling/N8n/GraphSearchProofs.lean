import Mathlib.Data.List.Basic
import Mathlib.Logic.Relation

/-! # Depth-first search — a stack, a set of seen vertices, one target

    The search pops a vertex, marks it as seen and pushes what it leads to
    and is not yet seen.  A vertex can stand on the stack more than once, so
    that popping does not always mark a new one; what makes the search end is
    that popping a marked vertex either shrinks the stack or leaves an
    unmarked one on top of it.

    The invariant of the search is that what the seen vertices lead to is
    seen or on the stack (`Explored`), and it is enough for the search to be
    exact (`search_iff`). -/

namespace N8nGraphSearch

open List

variable {α : Type}

/-! ## Paths and the invariant -/

section

variable {next : α → List α} {target : α}

/-- One vertex leads to another in any number of steps. -/
abbrev Leads (next : α → List α) : α → α → Prop := Relation.ReflTransGen fun a b => b ∈ next a

/-- What the seen vertices lead to is seen or still on the stack. -/
structure Explored (next : α → List α) (target : α)
    (stack seen : List α) : Prop where
  missed : target ∉ seen
  closed : ∀ a ∈ seen, ∀ b ∈ next a, b ∈ seen ∨ b ∈ stack

theorem Explored.stack_of_leads {stack seen : List α} (h : Explored next target stack seen)
    {a : α} (hleads : Leads next a target) (ha : a ∈ seen) :
    ∃ s ∈ stack, Leads next s target := by
  induction hleads using Relation.ReflTransGen.head_induction_on with
  | refl => exact absurd ha h.missed
  | head hstep hrest ih =>
    rcases h.closed _ ha _ hstep with hseen | hstack
    · exact ih hseen
    · exact ⟨_, hstack, hrest⟩

end

/-! ## The search -/

variable [DecidableEq α]

/-- The size of a stack with a seen vertex on top, and 0 otherwise. -/
def seenOnTop : List α → List α → Nat
  | [], _ => 0
  | top :: rest, seen => if top ∈ seen then rest.length + 1 else 0

/-- How far the search can still go: the vertices of the stack that are not
    of the finite set, those of the set that are not seen, and the size of a
    stack with a seen vertex on top. -/
def remaining (all stack seen : List α) : Nat × Nat × Nat :=
  (stack.countP fun a => a ∉ all, all.countP fun a => a ∉ seen, seenOnTop stack seen)

theorem countP_pushed {all pushed : List α} (h : ∀ b ∈ pushed, b ∈ all) (rest : List α) :
    (pushed ++ rest).countP (fun a => a ∉ all)
      = rest.countP fun a => a ∉ all := by
  have hzero : pushed.countP (fun a => a ∉ all) = 0 :=
    countP_eq_zero.mpr fun b hb => by simpa using h b hb
  rw [countP_append, hzero, Nat.zero_add]

theorem countP_seen (all seen : List α) (top : α) :
    (all.countP fun a => a ∉ top :: seen) ≤ all.countP fun a => a ∉ seen := by
  refine countP_mono_left fun a _ ha => ?_
  simp only [decide_eq_true_eq, mem_cons, not_or] at ha ⊢
  exact ha.2

theorem countP_seen_lt {all seen : List α} {top : α} (htop : top ∈ all) (hnew : top ∉ seen) :
    (all.countP fun a => a ∉ top :: seen) < all.countP fun a => a ∉ seen := by
  induction all with
  | nil => cases htop
  | cons a rest ih =>
    rw [countP_cons, countP_cons]
    have hmono := countP_seen rest seen top
    by_cases ha : a = top
    · subst ha
      rw [if_neg (by simp), if_pos (by simpa using hnew)]
      exact Nat.lt_succ_of_le hmono
    · have hrest := ih ((mem_cons.mp htop).resolve_left (Ne.symm ha))
      simpa only [mem_cons, ha, false_or] using Nat.add_lt_add_right hrest _

/-- **ONE POP** makes what remains smaller. -/
theorem remaining_lt {all seen pushed rest : List α} {top : α} (hall : ∀ b ∈ pushed, b ∈ all)
    (hnew : ∀ b ∈ pushed, b ∉ top :: seen) :
    Prod.Lex (· < ·) (Prod.Lex (· < ·) (· < ·)) (remaining all (pushed ++ rest) (top :: seen))
      (remaining all (top :: rest) seen) := by
  rw [remaining, remaining, countP_pushed hall, countP_cons]
  by_cases htop : top ∈ all
  · rw [if_neg (by simpa using htop), Nat.add_zero]
    refine Prod.Lex.right _ ?_
    by_cases hseen : top ∈ seen
    · -- A seen vertex: what is seen stays the same.
      have hsame : (all.countP fun a => a ∉ top :: seen)
          = all.countP fun a => a ∉ seen :=
        countP_congr fun a _ => by
          by_cases ha : a = top
          · subst ha
            simp [hseen]
          · simp [ha]
      rw [hsame]
      refine Prod.Lex.right _ ?_
      rw [seenOnTop, if_pos hseen]
      cases pushed with
      | nil =>
        cases rest with
        | nil => exact Nat.succ_pos _
        | cons a rest =>
          rw [nil_append, seenOnTop]
          split
          · exact Nat.lt_succ_self _
          · exact Nat.succ_pos _
      | cons b pushed =>
        rw [cons_append, seenOnTop, if_neg (hnew b (mem_cons_self ..))]
        exact Nat.succ_pos _
    · exact Prod.Lex.left _ _ (countP_seen_lt htop hseen)
  · rw [if_pos (by simpa using htop)]
    exact Prod.Lex.left _ _ (Nat.lt_succ_self _)

/-- Search for `target`; every vertex leads to vertices of `all` only. -/
def search (next : α → List α) (all : List α) (hall : ∀ a, ∀ b ∈ next a, b ∈ all) (target : α) :
    List α → List α → Bool
  | [], _ => false
  | top :: rest, seen =>
    if top = target then true
    else
      search next all hall target
        (((next top).filter fun b => b ∉ top :: seen).reverse ++ rest) (top :: seen)
termination_by stack seen => remaining all stack seen
decreasing_by
  refine remaining_lt (fun b hb => ?_) fun b hb => ?_
  · exact hall top b (mem_filter.mp (mem_reverse.mp hb)).1
  · simpa using (mem_filter.mp (mem_reverse.mp hb)).2

/-! ## What the search finds -/

section

variable {next : α → List α} {target : α}

theorem Explored.pop {top : α} {rest seen : List α}
    (h : Explored next target (top :: rest) seen) (hne : top ≠ target) :
    Explored next target (((next top).filter fun b => b ∉ top :: seen).reverse ++ rest)
      (top :: seen) := by
  have hnew : ∀ b ∈ next top, b ∈ top :: seen
      ∨ b ∈ ((next top).filter fun b => b ∉ top :: seen).reverse ++ rest := by
    intro b hb
    by_cases hseen : b ∈ top :: seen
    · exact .inl hseen
    · refine .inr (mem_append_left _ (mem_reverse.mpr ?_))
      exact mem_filter.mpr ⟨hb, decide_eq_true hseen⟩
  constructor
  · rintro (_ | ⟨_, hseen⟩)
    · exact hne rfl
    · exact h.missed hseen
  · intro a ha b hb
    rcases mem_cons.mp ha with rfl | ha
    · exact hnew b hb
    · rcases h.closed a ha b hb with hseen | hstack
      · exact .inl (mem_cons_of_mem _ hseen)
      · rcases mem_cons.mp hstack with rfl | hrest
        · exact .inl (mem_cons_self ..)
        · exact .inr (mem_append_right _ hrest)

theorem search_of_explored (all : List α) (hall : ∀ a, ∀ b ∈ next a, b ∈ all)
    {stack seen : List α} (h : Explored next target stack seen) :
    search next all hall target stack seen = true ↔ ∃ s ∈ stack, Leads next s target := by
  induction stack, seen using search.induct next all hall target with
  | case1 seen =>
    rw [search]
    exact ⟨fun hfalse => (by cases hfalse), fun ⟨s, hs, _⟩ => by cases hs⟩
  | case2 rest seen =>
    rw [search, if_pos rfl]
    exact ⟨fun _ => ⟨target, mem_cons_self .., .refl⟩, fun _ => rfl⟩
  | case3 top rest seen hne ih =>
    have hpop := h.pop hne
    rw [search, if_neg hne, ih hpop]
    constructor
    · rintro ⟨s, hs, hleads⟩
      rcases mem_append.mp hs with hpushed | hrest
      · have hstep :=
          (mem_filter.mp (mem_reverse.mp hpushed)).1
        exact ⟨top, mem_cons_self .., .head hstep hleads⟩
      · exact ⟨s, mem_cons_of_mem _ hrest, hleads⟩
    · rintro ⟨s, hs, hleads⟩
      rcases mem_cons.mp hs with rfl | hrest
      · exact hpop.stack_of_leads hleads (mem_cons_self ..)
      · exact ⟨s, mem_append_right _ hrest, hleads⟩

/-- **THE SEARCH IS EXACT**: it finds the target where a path leads. -/
theorem search_iff (all : List α) (hall : ∀ a, ∀ b ∈ next a, b ∈ all) (start : α) :
    search next all hall target [start] [] = true ↔ Leads next start target := by
  rw [search_of_explored all hall ⟨fun hmem => (by cases hmem), fun a ha => by cases ha⟩]
  constructor
  · rintro ⟨s, hs, hleads⟩
    rwa [mem_singleton.mp hs] at hleads
  · exact fun hleads => ⟨start, mem_cons_self .., hleads⟩

end

end N8nGraphSearch
