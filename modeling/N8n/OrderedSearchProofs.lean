import Mathlib.Data.List.Count
import N8n.DepthFirstProofs

/-! # A search that puts the farther nodes first

    The search follows what leads out of a node, except back onto its own
    path.  The results of a branch are moved to the front of what was found
    before them.

    It finds what can be reached (`mem_search`), and without a cycle it
    lists a node after all that it leads to (`ordered_search`).  A node that
    was found before is moved when a branch finds it, not when the search
    steps to it, so it is listed once exactly if no step leads to a node that
    was found before (`nodup_search`). -/

namespace N8nOrderedSearch

open Relation N8nDepthFirst List

variable {N : Type} [DecidableEq N]

/-- From the last to the first of them, each is taken out and put in
    front. -/
def bringForward (add found : List N) : List N :=
  add.foldr (fun a found => a :: found.erase a) found

/-- What is found over the nodes of a list, each with its branch. -/
def gather (branch : N → List N) (skip : List N) (nodes found : List N) : List N :=
  nodes.foldl (fun found c =>
    if c ∈ skip then found
    else bringForward (branch c) (c :: found)) found

def search (out : N → List N) : Nat → N → List N → List N
  | 0, _, _ => []
  | fuel + 1, v, path =>
    if v ∈ path then []
    else
      gather (fun c => search out fuel c (v :: path)) (v :: path) (out v) []

/-- The first of the one node comes before any of the other. -/
def Before (l : List N) (x y : N) : Prop := l.idxOf x < l.idxOf y

/-- Every node comes after what it leads to. -/
def Ordered (out : N → List N) (l : List N) : Prop := ∀ y ∈ l, ∀ x ∈ out y, Before l x y

/-- A step that does not lead to one of the nodes. -/
def Avoids (out : N → List N) (nodes : List N) (a b : N) : Prop := b ∈ out a ∧ b ∉ nodes

/-- No node that is reached leads back to itself. -/
def AcyclicFrom (out : N → List N) (v : N) : Prop := ∀ x, Reach out v x → ¬ TransGen (Edge out) x x

/-! ## Moving to the front -/

section

variable {a x y : N} {add found l : List N}

theorem bringForward_cons (a : N) (add found : List N) :
    bringForward (a :: add) found = a :: (bringForward add found).erase a :=
  rfl

theorem mem_bringForward : x ∈ bringForward add found ↔ x ∈ add ∨ x ∈ found := by
  induction add with
  | nil =>
    show x ∈ found ↔ _
    rw [or_iff_right not_mem_nil]
  | cons a add ih =>
    rw [bringForward_cons, mem_cons, mem_cons]
    by_cases hx : x = a
    · rw [or_iff_left_of_imp fun _ => hx]
      exact ⟨fun h => .inl (.inl h), fun _ => hx⟩
    · rw [mem_erase_of_ne hx, ih, or_assoc]

theorem count_bringForward (x : N) (add found : List N) : (bringForward add found).count x
      = if x ∈ add then max 1 (found.count x) else found.count x := by
  induction add with
  | nil => rw [if_neg not_mem_nil]; rfl
  | cons a add ih =>
    rw [bringForward_cons]
    by_cases hx : a = x
    · subst hx
      rw [count_cons_self, count_erase_self, ih, if_pos mem_cons_self]
      split <;> omega
    · rw [count_cons_of_ne hx, count_erase_of_ne (Ne.symm hx), ih]
      have hmem : x ∈ a :: add ↔ x ∈ add :=
        ⟨fun h => (mem_cons.mp h).resolve_left (Ne.symm hx), mem_cons_of_mem a⟩
      simp [hmem]

theorem nodup_bringForward : (bringForward add found).Nodup ↔ found.Nodup := by
  rw [nodup_iff_count_le_one, nodup_iff_count_le_one]
  refine forall_congr' fun x => ?_
  rw [count_bringForward]
  split <;> omega

theorem before_cons : Before (a :: l) x y ↔ a ≠ y ∧ (a = x ∨ Before l x y) := by
  rw [Before, Before]
  by_cases hy : a = y
  · subst hy
    rw [idxOf_cons_self]
    exact ⟨fun h => absurd h (Nat.not_lt_zero _), fun h => absurd rfl h.1⟩
  rw [idxOf_cons_ne l hy]
  by_cases hx : a = x
  · subst hx
    rw [idxOf_cons_self]
    exact ⟨fun _ => ⟨hy, .inl rfl⟩, fun _ => Nat.succ_pos _⟩
  · rw [idxOf_cons_ne l hx, Nat.succ_lt_succ_iff, or_iff_right hx]
    exact ⟨fun h => ⟨hy, h⟩, fun h => h.2⟩

theorem before_erase (hx : x ≠ a) (hy : y ≠ a) : Before (l.erase a) x y ↔ Before l x y := by
  induction l with
  | nil => rfl
  | cons b l ih =>
    by_cases hb : b = a
    · subst hb
      rw [erase_cons_head, before_cons]
      exact ⟨fun h => ⟨hy.symm, .inr h⟩, fun h => h.2.resolve_left hx.symm⟩
    · rw [erase_cons_tail (by simpa using hb), before_cons, before_cons, ih]

theorem Before.ne (h : Before l x y) : x ≠ y := by
  rintro rfl
  exact Nat.lt_irrefl _ h

theorem Before.mem (h : Before l x y) : x ∈ l :=
  idxOf_lt_length_iff.mp (Nat.lt_of_lt_of_le h idxOf_le_length)

theorem before_bringForward (hne : x ≠ y) :
    Before (bringForward add found) x y
      ↔ if y ∈ add then Before add x y else x ∈ add ∨ Before found x y := by
  induction add with
  | nil =>
    rw [if_neg not_mem_nil, or_iff_right not_mem_nil]
    rfl
  | cons a add ih =>
    rw [bringForward_cons, before_cons]
    by_cases hy : a = y
    · subst hy
      rw [if_pos mem_cons_self, before_cons]
      exact ⟨fun h => absurd rfl h.1, fun h => absurd rfl h.1⟩
    have hmemy : y ∈ a :: add ↔ y ∈ add :=
      ⟨fun h => (mem_cons.mp h).resolve_left (Ne.symm hy), mem_cons_of_mem a⟩
    simp only [hmemy, before_cons, ne_eq, hy, not_false_eq_true, true_and, mem_cons]
    by_cases hx : a = x
    · simp [hx]
    · rw [before_erase (Ne.symm hx) (Ne.symm hy), ih, or_iff_right hx,
        or_iff_right hx, or_iff_right (Ne.symm hx)]

end

/-! ## Gathering the branches -/

section

variable {out : N → List N} {branch : N → List N} {skip nodes found : List N}
  {c x : N}

theorem gather_cons_skip (h : c ∈ skip) :
    gather branch skip (c :: nodes) found = gather branch skip nodes found := by
  rw [gather, foldl_cons, if_pos h]
  rfl

theorem gather_cons (h : c ∉ skip) :
    gather branch skip (c :: nodes) found
      = gather branch skip nodes (bringForward (branch c) (c :: found)) := by
  rw [gather, foldl_cons, if_neg h]
  rfl

theorem gather_congr {branch' : N → List N} (h : ∀ c ∈ nodes, c ∉ skip → branch c = branch' c) :
    gather branch skip nodes found = gather branch' skip nodes found := by
  induction nodes generalizing found with
  | nil => rfl
  | cons c nodes ih =>
    obtain ⟨hc, hrest⟩ := forall_mem_cons.mp h
    by_cases hskip : c ∈ skip
    · rw [gather_cons_skip hskip, gather_cons_skip hskip, ih hrest]
    · rw [gather_cons hskip, gather_cons hskip, hc hskip, ih hrest]

theorem mem_gather :
    x ∈ gather branch skip nodes found
      ↔ x ∈ found ∨ ∃ c ∈ nodes, c ∉ skip ∧ (x = c ∨ x ∈ branch c) := by
  induction nodes generalizing found with
  | nil => exact ⟨.inl, fun h => h.resolve_right (by simp)⟩
  | cons c nodes ih =>
    rw [exists_mem_cons_iff]
    by_cases hskip : c ∈ skip
    · rw [gather_cons_skip hskip, ih]
      exact or_congr_right (or_iff_right fun h => h.1 hskip).symm
    · rw [gather_cons hskip, ih, mem_bringForward, mem_cons, and_iff_right hskip]
      simp [or_assoc, or_left_comm]

theorem nodup_gather : (gather branch skip nodes found).Nodup
      ↔ found.Nodup ∧ (∀ c ∈ nodes, c ∉ skip → c ∉ found)
        ∧ (nodes.filter (· ∉ skip)).Pairwise fun c d => d ≠ c ∧ d ∉ branch c := by
  induction nodes generalizing found with
  | nil =>
    refine ⟨fun h => ⟨h, ?_, List.Pairwise.nil⟩, fun h => h.1⟩
    exact fun c hc => absurd hc not_mem_nil
  | cons c nodes ih =>
    rw [forall_mem_cons]
    by_cases hskip : c ∈ skip
    · rw [gather_cons_skip hskip, ih, filter_cons_of_neg (by simpa),
        and_iff_right fun h => absurd hskip h]
    rw [gather_cons hskip, ih, nodup_bringForward, nodup_cons,
      filter_cons_of_pos (by simpa), pairwise_cons]
    simp only [mem_bringForward, mem_cons, mem_filter, decide_eq_true_eq, not_or, and_imp]
    constructor
    · rintro ⟨⟨hc, hfound⟩, hfresh, hpairs⟩
      exact ⟨hfound, ⟨fun _ => hc, fun d hd hs => (hfresh d hd hs).2.2⟩,
        fun d hd hs => ⟨(hfresh d hd hs).2.1, (hfresh d hd hs).1⟩, hpairs⟩
    · rintro ⟨hfound, ⟨hc, hfresh⟩, hfirst, hpairs⟩
      exact ⟨⟨hc hskip, hfound⟩, fun d hd hs => ⟨(hfirst d hd hs).2,
        (hfirst d hd hs).1, hfresh d hd hs⟩, hpairs⟩

theorem ordered_gather (hfound : Ordered out found) (hbranch : ∀ c ∈ nodes, c ∉ skip → c ∉ branch c
      ∧ (∀ x ∈ out c, x ∈ branch c) ∧ Ordered out (branch c)) :
    Ordered out (gather branch skip nodes found) := by
  induction nodes generalizing found with
  | nil => exact hfound
  | cons c nodes ih =>
    obtain ⟨hc, hrest⟩ := forall_mem_cons.mp hbranch
    by_cases hskip : c ∈ skip
    · rw [gather_cons_skip hskip]
      exact ih hfound hrest
    rw [gather_cons hskip]
    obtain ⟨hnot, houts, hordered⟩ := hc hskip
    refine ih (fun y hy x hx => ?_) hrest
    by_cases hadd : y ∈ branch c
    · have hxy := hordered y hadd x hx
      rw [before_bringForward hxy.ne, if_pos hadd]
      exact hxy
    rcases mem_cons.mp ((mem_bringForward.mp hy).resolve_left hadd) with rfl | hy
    · have hmem := houts x hx
      have hne : x ≠ y := fun h => hadd (h ▸ hmem)
      rw [before_bringForward hne, if_neg hadd]
      exact .inl hmem
    · have hxy := hfound y hy x hx
      rw [before_bringForward hxy.ne, if_neg hadd, before_cons]
      by_cases hyc : c = y
      · exact .inl (houts x (hyc ▸ hx))
      · exact .inr ⟨hyc, .inr hxy⟩

end

/-! ## What can be reached on a path -/

section

variable {out : N → List N} {nodes : List N} {a b c v x : N}

omit [DecidableEq N] in
theorem avoids_of_cons (h : TransGen (Avoids out (c :: nodes)) a b) :
    TransGen (Avoids out nodes) a b :=
  TransGen.mono (fun _ _ hstep =>
    ⟨hstep.1, fun hmem => hstep.2 (mem_cons_of_mem c hmem)⟩) _ _ h

omit [DecidableEq N] in
theorem edges_of_avoids (h : TransGen (Avoids out nodes) a b) : TransGen (Edge out) a b :=
  TransGen.mono (fun _ _ hstep => hstep.1) _ _ h

theorem eq_or_avoids (c : N) (h : ReflTransGen (Avoids out nodes) c x) :
    x = c ∨ TransGen (Avoids out (c :: nodes)) c x := by
  induction h with
  | refl => exact .inl rfl
  | @tail b x _ hstep ih =>
    by_cases hx : x = c
    · exact .inl hx
    have hlast : Avoids out (c :: nodes) b x :=
      ⟨hstep.1, fun hmem => (mem_cons.mp hmem).elim hx hstep.2⟩
    rcases ih with rfl | ih
    · exact .inr (.single hlast)
    · exact .inr (ih.tail hlast)

theorem avoids_iff : TransGen (Avoids out nodes) v x
    ↔ ∃ c ∈ out v, c ∉ nodes ∧ (x = c ∨ TransGen (Avoids out (c :: nodes)) c x) := by
  rw [TransGen.head'_iff]
  constructor
  · rintro ⟨c, ⟨hout, hnew⟩, hreach⟩
    exact ⟨c, hout, hnew, eq_or_avoids c hreach⟩
  · rintro ⟨c, hout, hnew, rfl | hreach⟩
    · exact ⟨x, ⟨hout, hnew⟩, .refl⟩
    · exact ⟨c, ⟨hout, hnew⟩, (avoids_of_cons hreach).to_reflTransGen⟩

theorem avoids_self_iff : TransGen (Avoids out [v]) v x ↔ x ≠ v ∧ TransGen (Edge out) v x := by
  constructor
  · intro h
    refine ⟨?_, edges_of_avoids h⟩
    obtain ⟨b, -, hstep⟩ := TransGen.tail'_iff.mp h
    exact fun heq => hstep.2 (mem_singleton.mpr heq)
  · rintro ⟨hne, h⟩
    have hreach : ReflTransGen (Avoids out []) v x :=
      ReflTransGen.mono (fun _ _ hstep => ⟨hstep, not_mem_nil⟩) _ _ h.to_reflTransGen
    exact (eq_or_avoids v hreach).resolve_left hne

end

/-! ## The search -/

section

variable {out : N → List N} {nodes path : List N} {v x : N} {fuel : Nat}

theorem length_unseen_cons_lt (hv : v ∈ nodes) (hnew : v ∉ path) :
    (unseen nodes (v :: path)).length < (unseen nodes path).length := by
  have hsplit : unseen nodes (v :: path) = (unseen nodes path).filter (· ≠ v) := by
    rw [unseen, unseen, filter_filter]
    exact filter_congr fun x _ => by simp
  rw [hsplit]
  exact length_filter_lt_length_iff_exists.mpr
    ⟨v, mem_filter.mpr ⟨hv, decide_eq_true hnew⟩, by simp⟩

theorem search_succ (hnew : v ∉ path) : search out (fuel + 1) v path
    = gather (fun c => search out fuel c (v :: path)) (v :: path) (out v) [] := by
  rw [search, if_neg hnew]

section

variable (hout : ∀ v, out v ≠ [] → v ∈ nodes)
include hout

/-- **REACHED NODES**: the search finds what can be reached off its
    path. -/
theorem mem_search (hnew : v ∉ path) (hfuel : (unseen nodes path).length < fuel) :
    x ∈ search out fuel v path ↔ TransGen (Avoids out (v :: path)) v x := by
  induction fuel generalizing v path x with
  | zero => exact absurd hfuel (Nat.not_lt_zero _)
  | succ fuel ih =>
    rw [search_succ hnew, mem_gather, avoids_iff, or_iff_right not_mem_nil]
    refine exists_congr fun c => and_congr_right fun hc =>
      and_congr_right fun hnew' => or_congr_right ?_
    have hlt := length_unseen_cons_lt (hout v (ne_nil_of_mem hc)) hnew
    exact ih hnew' (by omega)

/-- **ORDER**: without a cycle, every node comes after what it leads
    to. -/
theorem ordered_search (hacyclic : AcyclicFrom out v)
    (hpath : ∀ p ∈ path, TransGen (Edge out) p v) (hfuel : (unseen nodes path).length < fuel) :
    Ordered out (search out fuel v path) := by
  induction fuel generalizing v path with
  | zero => exact absurd hfuel (Nat.not_lt_zero _)
  | succ fuel ih =>
    have hnew : v ∉ path := fun hv => hacyclic v .refl (hpath v hv)
    rw [search_succ hnew]
    refine ordered_gather (fun y hy => absurd hy not_mem_nil) fun c hc hnew' => ?_
    have hlt := length_unseen_cons_lt (hout v (ne_nil_of_mem hc)) hnew
    have hedge : Edge out v c := hc
    have hacyclic' : AcyclicFrom out c := fun x hx =>
      hacyclic x (.head hedge hx)
    have hpath' : ∀ p ∈ v :: path, TransGen (Edge out) p c :=
      forall_mem_cons.mpr ⟨.single hedge, fun p hp => (hpath p hp).tail hedge⟩
    have hself : c ∉ search out fuel c (v :: path) := by
      rw [mem_search hout hnew' (by omega)]
      exact fun h => hacyclic' c .refl (edges_of_avoids h)
    refine ⟨hself, fun x hx => ?_, ih hacyclic' hpath' (by omega)⟩
    rw [mem_search hout hnew' (by omega)]
    refine .single ⟨hx, fun hmem => hacyclic' x (.single hx) ?_⟩
    rcases mem_cons.mp hmem with rfl | hmem
    · exact .single hx
    · exact (hpath' x hmem).tail hx

/-- **MULTIPLICITY**: every node is listed once exactly if no step from the
    first node leads to one that was found before. -/
theorem nodup_search (hnew : v ∉ path) (hfuel : (unseen nodes path).length < fuel) :
    (search out fuel v path).Nodup
      ↔ ((out v).filter (· ∉ v :: path)).Pairwise
          fun c d => ¬ ReflTransGen (Avoids out (v :: path)) c d := by
  obtain ⟨fuel, rfl⟩ : ∃ n, fuel = n + 1 := ⟨fuel - 1, by omega⟩
  rw [search_succ hnew, nodup_gather, and_iff_right nodup_nil,
    and_iff_right fun c _ _ => not_mem_nil]
  refine List.Pairwise.iff_of_mem fun {c d} hc hd => ?_
  obtain ⟨hout', hnew'⟩ := mem_filter.mp hc
  have hlt := length_unseen_cons_lt (hout v (ne_nil_of_mem hout')) hnew
  rw [mem_search hout (of_decide_eq_true hnew') (by omega), ← not_or]
  refine not_congr ⟨?_, eq_or_avoids c⟩
  rintro (rfl | h)
  · exact .refl
  · exact (avoids_of_cons h).to_reflTransGen

end

theorem Ordered.of_transGen {l : List N} {y : N} (h : Ordered out l)
    (hy : y ∈ l) (hxy : TransGen (Edge out) y x) : Before l x y := by
  induction hxy with
  | single hstep => exact h y hy _ hstep
  | tail _ hstep ih => exact Nat.lt_trans (h _ ih.mem _ hstep) ih

end

end N8nOrderedSearch
