import Mathlib.Data.List.Nodup
import Mathlib.Logic.Relation

/-! # Depth-first search — what holds when a node is entered and left

    A search enters the nodes that it has not seen, follows what leads out
    of them one by one, and leaves what it has followed.  Hooks on these
    events compute along with it.

    `search_rule` is its invariant rule: what the hooks keep, given what the
    search itself guarantees at each event, holds afterwards.  The nodes
    entered and not left yet are *gray*; a node that is left leads to nodes
    that were seen (`Invariant.closed`), and from a node that is finished a
    chain goes wherever what was entered from it leads
    (`Finished.chains`). -/

namespace N8nDepthFirst

open Relation List

variable {N A : Type}

/-- The nodes entered, in this order, and what was left, the latest
    first. -/
structure Search (N : Type) where
  seen : List N
  left : List (N × N)

namespace Search

def start : Search N := { seen := [], left := [] }

def enter (s : Search N) (v : N) : Search N :=
  { s with seen := s.seen ++ [v] }

def leave (s : Search N) (v c : N) : Search N :=
  { s with left := (v, c) :: s.left }

end Search

/-- What is computed when a node is entered, when what was followed out of
    it is left, and when the node is left. -/
structure Hooks (N A : Type) where
  enter : N → A → A
  leave : N → N → A → A
  exit : N → A → A

section

variable [DecidableEq N] (out : N → List N)

def search (hooks : Hooks N A) : Nat → Search N × A → N → Search N × A
  | 0, s, _ => s
  | fuel + 1, s, v =>
    if v ∈ s.1.seen then s
    else
      let t := (out v).foldl (fun t c =>
          let u := search hooks fuel t c
          (u.1.leave v c, hooks.leave v c u.2))
        (s.1.enter v, hooks.enter v s.2)
      (t.1, hooks.exit v t.2)

/-- One search after the other, from each of the nodes. -/
def searchAll (hooks : Hooks N A) (fuel : Nat) (s : Search N × A) (roots : List N) : Search N × A :=
  roots.foldl (search out hooks fuel) s

/-- What is seen in the end, in this order. -/
def visit : Nat → List N → N → List N
  | 0, seen, _ => seen
  | fuel + 1, seen, v =>
    if v ∈ seen then seen
    else (out v).foldl (visit fuel) (seen ++ [v])

/-- The nodes that have not been seen. -/
def unseen (nodes seen : List N) : List N := nodes.filter fun v => v ∉ seen

end

/-- What leads from one node to another. -/
def Edge (out : N → List N) (a b : N) : Prop := b ∈ out a

abbrev Reach (out : N → List N) : N → N → Prop := ReflTransGen (Edge out)

/-- Nothing leads out of the nodes. -/
def Closed (out : N → List N) (nodes : List N) : Prop := ∀ v ∈ nodes, ∀ c ∈ out v, c ∈ nodes

theorem Closed.mem_of_reach {out : N → List N} {nodes : List N} (h : Closed out nodes)
    {x y : N} (hx : x ∈ nodes) (hxy : Reach out x y) : y ∈ nodes := by
  induction hxy with
  | refl => exact hx
  | tail _ hbc ih => exact h _ ih _ hbc

/-! ## Chains -/

/-- A way from one node to another along what was left, the first step of
    it last. -/
def Chain : List (N × N) → N → N → Prop
  | [], v, x => v = x
  | (a, b) :: earlier, v, x => Chain earlier v x ∨ (v = a ∧ Chain earlier b x)

/-- The steps lead from one node to the other. -/
def Steps : List (N × N) → N → N → Prop
  | [], v, x => v = x
  | (a, b) :: rest, v, x => v = a ∧ Steps rest b x

variable {left : List (N × N)}

theorem Chain.refl (v : N) : Chain left v v := by
  induction left with
  | nil => rfl
  | cons e rest ih => exact .inl ih

theorem Chain.mono (new : List (N × N)) {v x : N}
    (h : Chain left v x) : Chain (new ++ left) v x := by
  induction new with
  | nil => exact h
  | cons e rest ih => exact .inl ih

theorem chain_iff {v x : N} : Chain left v x ↔ ∃ steps, steps.Sublist left ∧ Steps steps v x := by
  induction left generalizing v with
  | nil =>
    constructor
    · intro h
      exact ⟨[], List.Sublist.refl [], h⟩
    · rintro ⟨steps, hsub, h⟩
      rw [sublist_nil.mp hsub] at h
      exact h
  | cons e rest ih =>
    obtain ⟨a, b⟩ := e
    constructor
    · rintro (h | ⟨rfl, h⟩)
      · obtain ⟨steps, hsub, hsteps⟩ := ih.mp h
        exact ⟨steps, hsub.cons _, hsteps⟩
      · obtain ⟨steps, hsub, hsteps⟩ := ih.mp h
        exact ⟨(v, b) :: steps, hsub.cons_cons _, rfl, hsteps⟩
    · rintro ⟨steps, hsub, hsteps⟩
      cases hsub with
      | cons _ hsub => exact .inl (ih.mpr ⟨steps, hsub, hsteps⟩)
      | cons_cons _ hsub =>
        obtain ⟨rfl, hsteps⟩ := hsteps
        exact .inr ⟨rfl, ih.mpr ⟨_, hsub, hsteps⟩⟩

theorem Chain.reach {out : N → List N}
    (hleft : ∀ e ∈ left, e.2 ∈ out e.1) {v x : N} (h : Chain left v x) :
    Reach out v x := by
  induction left generalizing v with
  | nil => rw [show v = x from h]
  | cons e rest ih =>
    obtain ⟨a, b⟩ := e
    have hrest := fun e he => hleft e (mem_cons_of_mem _ he)
    rcases h with h | ⟨rfl, h⟩
    · exact ih hrest h
    · exact .head (hleft (v, b) (mem_cons_self ..)) (ih hrest h)

/-! ## What a search guarantees -/

section

variable [DecidableEq N] (out : N → List N)

structure Invariant (gray : List N) (s : Search N) : Prop where
  nodup : s.seen.Nodup
  gray_seen : ∀ g ∈ gray, g ∈ s.seen
  closed : ∀ x ∈ s.seen, x ∉ gray → ∀ c ∈ out x, c ∈ s.seen
  reached : ∀ g ∈ gray, ∀ y ∈ s.seen, s.seen.idxOf g ≤ s.seen.idxOf y → Reach out g y
  ordered : gray.Pairwise fun a b => s.seen.idxOf b < s.seen.idxOf a
  before : ∀ g ∈ gray, ∀ x ∈ s.seen, x ∉ gray → s.seen.idxOf x < s.seen.idxOf g →
      ∀ c ∈ out x, c ∈ s.seen ∧ s.seen.idxOf c < s.seen.idxOf g
  edges : ∀ e ∈ s.left, e.2 ∈ out e.1
  ends : ∀ e ∈ s.left, e.1 ∈ s.seen ∧ e.2 ∈ s.seen

/-- All that leads out of the node was left, and what was entered from it
    was followed. -/
structure Finished (v : N) (s : Search N) : Prop where
  outs : ∀ c ∈ out v, c ∈ s.seen
  chains : ∀ y ∈ s.seen, s.seen.idxOf v ≤ s.seen.idxOf y → ∀ z ∈ out y, Chain s.left v z

/-- What was seen stays, and so does what was left. -/
structure Extends (s t : Search N) : Prop where
  seen : s.seen <+: t.seen
  left : s.left <:+ t.left

/-- The search from the node leads to all that it enters, and it follows
    all of that. -/
structure Follows (s : Search N) (v : N) (t : Search N) (y : N) : Prop where
  reach : Reach out v y
  outs : ∀ z ∈ out y, z ∈ t.seen
  chains : ∀ z ∈ out y, Chain t.left v z

/-- What a search from the node has done. -/
structure Searched (s : Search N) (v : N) (t : Search N) : Prop extends
    Extends s t where
  entered : v ∈ t.seen
  follows : ∀ y ∈ t.seen, y ∉ s.seen → Follows out s v t y

/-- What it has done when some of what leads out of the node was left. -/
structure PartlySearched (s : Search N) (v : N) (done : List N)
    (t : Search N) : Prop extends Extends (s.enter v) t where
  outs : ∀ c ∈ done, c ∈ t.seen
  chains : ∀ c ∈ done, Chain t.left v c
  follows : ∀ y ∈ t.seen, y ∉ s.seen → y ≠ v → Follows out s v t y

/-- What hooks have to keep to keep `P` throughout a search. -/
structure Rule (hooks : Hooks N A) (nodes : List N)
    (P : List N → Search N → A → Prop) : Prop where
  enter : ∀ gray s a v, Invariant out gray s → P gray s a → v ∈ nodes →
    v ∉ s.seen → (∀ g ∈ gray, Reach out g v) → P (v :: gray) (s.enter v) (hooks.enter v a)
  leave : ∀ gray s a v c, Invariant out (v :: gray) s →
    P (v :: gray) s a → c ∈ out v → c ∈ s.seen → P (v :: gray) (s.leave v c) (hooks.leave v c a)
  exit : ∀ gray s a v, Invariant out (v :: gray) s → Finished out v s →
    P (v :: gray) s a → P gray s (hooks.exit v a)

end

/-! ## The rule -/

section

variable {out : N → List N} {gray nodes : List N} {v : N} {s t u : Search N}

theorem Extends.refl (s : Search N) : Extends s s := ⟨prefix_rfl, suffix_rfl⟩

theorem Extends.trans (h : Extends s t) (h' : Extends t u) : Extends s u :=
  ⟨h.seen.trans h'.seen, h.left.trans h'.left⟩

theorem Extends.enter (s : Search N) (v : N) : Extends s (s.enter v) :=
  ⟨prefix_append .., suffix_rfl⟩

theorem Extends.leave (s : Search N) (v c : N) : Extends s (s.leave v c) :=
  ⟨prefix_rfl, suffix_cons ..⟩

variable {y : N}

theorem Extends.mem (h : Extends s t) (hy : y ∈ s.seen) : y ∈ t.seen := h.seen.subset hy

theorem Extends.chain (h : Extends s t) {z : N} (hc : Chain s.left y z) : Chain t.left y z := by
  obtain ⟨new, hnew⟩ := h.left
  rw [← hnew]
  exact hc.mono new

theorem mem_enter : y ∈ (s.enter v).seen ↔ y ∈ s.seen ∨ y = v := by
  show y ∈ s.seen ++ [v] ↔ _
  rw [mem_append, mem_singleton]

theorem Follows.extends (h : Follows out s v t y) (he : Extends t u) : Follows out s v u y :=
  ⟨h.reach, fun z hz => he.mem (h.outs z hz), fun z hz => he.chain (h.chains z hz)⟩

theorem prefix_foldl {f : List N → N → List N}
    (hf : ∀ seen v, seen <+: f seen v) (seen rest : List N) :
    seen <+: rest.foldl f seen := by
  induction rest generalizing seen with
  | nil => exact prefix_rfl
  | cons c rest ih => exact (hf seen c).trans (ih (f seen c))

variable [DecidableEq N]

theorem Extends.idxOf (h : Extends s t) (hy : y ∈ s.seen) : t.seen.idxOf y = s.seen.idxOf y := by
  obtain ⟨new, hnew⟩ := h.seen
  rw [← hnew, idxOf_append_of_mem hy]

theorem idxOf_enter (hy : y ∈ s.seen) (hv : v ∉ s.seen) :
    (s.enter v).seen.idxOf y < (s.enter v).seen.idxOf v := by
  rw [(Extends.enter s v).idxOf hy]
  show _ < (s.seen ++ [v]).idxOf v
  rw [idxOf_append_of_notMem hv]
  exact Nat.lt_add_right _ (idxOf_lt_length_iff.mpr hy)

theorem Invariant.start : Invariant out [] (Search.start : Search N) :=
  ⟨nodup_nil, (by simp), (by simp [Search.start]), (by simp),
    List.Pairwise.nil, (by simp), (by simp [Search.start]), (by simp [Search.start])⟩

theorem Invariant.enter (h : Invariant out gray s) (hv : v ∉ s.seen)
    (hreach : ∀ g ∈ gray, Reach out g v) :
    Invariant out (v :: gray) (s.enter v) := by
  have hkeep := fun {y} (hy : y ∈ s.seen) => (Extends.enter s v).idxOf hy
  refine ⟨?_, ?_, ?_, ?_, ?_, ?_, h.edges, fun e he =>
    ⟨mem_enter.mpr (.inl (h.ends e he).1), mem_enter.mpr (.inl (h.ends e he).2)⟩⟩
  · exact nodup_append.mpr ⟨h.nodup, nodup_singleton v,
      fun x hx y hy heq => hv (by
        rw [← mem_singleton.mp hy, ← heq]
        exact hx)⟩
  · intro g hg
    rcases mem_cons.mp hg with rfl | hg
    · exact mem_enter.mpr (.inr rfl)
    · exact mem_enter.mpr (.inl (h.gray_seen g hg))
  · intro x hx hgray c hc
    obtain ⟨hne, hgray⟩ := not_or.mp (mt mem_cons.mpr hgray)
    rcases mem_enter.mp hx with hx | hx
    · exact mem_enter.mpr (.inl (h.closed x hx hgray c hc))
    · exact absurd hx hne
  · intro g hg y hy hle
    rcases mem_cons.mp hg with rfl | hg
    · rcases mem_enter.mp hy with hy | rfl
      · exact absurd (idxOf_enter hy hv) (Nat.not_lt.mpr hle)
      · exact .refl
    · rcases mem_enter.mp hy with hy | hy
      · rw [(Extends.enter s v).idxOf hy, (Extends.enter s v).idxOf (h.gray_seen g hg)] at hle
        exact h.reached g hg y hy hle
      · rw [hy]
        exact hreach g hg
  · refine pairwise_cons.mpr ⟨fun g hg => idxOf_enter (h.gray_seen g hg) hv, ?_⟩
    refine h.ordered.imp_of_mem fun {a b} ha hb hab => ?_
    rw [hkeep (h.gray_seen a ha), hkeep (h.gray_seen b hb)]
    exact hab
  · intro g hg x hx hgray hlt c hc
    obtain ⟨hne, hgray⟩ := not_or.mp (mt mem_cons.mpr hgray)
    have hx := (mem_enter.mp hx).resolve_right hne
    have hcs := h.closed x hx hgray c hc
    refine ⟨mem_enter.mpr (.inl hcs), ?_⟩
    rcases mem_cons.mp hg with rfl | hg
    · exact idxOf_enter hcs hv
    · rw [hkeep hx, hkeep (h.gray_seen g hg)] at hlt
      rw [hkeep hcs, hkeep (h.gray_seen g hg)]
      exact (h.before g hg x hx hgray hlt c hc).2

theorem Invariant.leave (h : Invariant out gray s) {c : N}
    (hv : v ∈ s.seen) (hc : c ∈ out v) (hcs : c ∈ s.seen) :
    Invariant out gray (s.leave v c) := by
  refine ⟨h.nodup, h.gray_seen, h.closed, h.reached, h.ordered, h.before, ?_, ?_⟩
  · intro e he
    rcases mem_cons.mp he with rfl | he
    · exact hc
    · exact h.edges e he
  · intro e he
    rcases mem_cons.mp he with rfl | he
    · exact ⟨hv, hcs⟩
    · exact h.ends e he

theorem Invariant.exit (h : Invariant out (v :: gray) s)
    (hv : Finished out v s) : Invariant out gray s := by
  refine ⟨h.nodup, fun g hg => h.gray_seen g (mem_cons_of_mem v hg), ?_,
    fun g hg => h.reached g (mem_cons_of_mem v hg),
    (pairwise_cons.mp h.ordered).2, ?_, h.edges, h.ends⟩
  · intro x hx hgray c hc
    by_cases hxv : x = v
    · subst hxv
      exact hv.outs c hc
    · exact h.closed x hx (fun hmem => (mem_cons.mp hmem).elim hxv hgray) c hc
  · intro g hg x hx hgray hlt c hc
    by_cases hxv : x = v
    · have hgv := (pairwise_cons.mp h.ordered).1 g hg
      rw [hxv] at hlt
      exact absurd hgv (Nat.not_lt.mpr (Nat.le_of_lt hlt))
    · exact h.before g (mem_cons_of_mem v hg) x hx
        (fun hmem => (mem_cons.mp hmem).elim hxv hgray) hlt c hc

theorem PartlySearched.leave {done : List N} {c : N} (h : PartlySearched out s v done t)
    (hc : c ∈ out v) (hsearched : Searched out t c u) :
    PartlySearched out s v (done ++ [c]) (u.leave v c) := by
  have htu : Extends t (u.leave v c) := hsearched.toExtends.trans (Extends.leave u v c)
  refine ⟨h.toExtends.trans htu, ?_, ?_, ?_⟩
  · intro d hd
    rcases mem_append.mp hd with hd | hd
    · exact htu.mem (h.outs d hd)
    · rw [mem_singleton.mp hd]
      exact hsearched.entered
  · intro d hd
    rcases mem_append.mp hd with hd | hd
    · exact htu.chain (h.chains d hd)
    · rw [mem_singleton.mp hd]
      exact .inr ⟨rfl, Chain.refl c⟩
  · intro y hy hnew hne
    by_cases hyt : y ∈ t.seen
    · exact (h.follows y hyt hnew hne).extends htu
    · have hfollows := hsearched.follows y hy hyt
      exact ⟨.head hc hfollows.reach, hfollows.outs, fun z hz => .inr ⟨rfl, hfollows.chains z hz⟩⟩

theorem PartlySearched.finished (h : PartlySearched out s v (out v) t)
    (hv : v ∉ s.seen) : Finished out v t := by
  have hvt : v ∈ (s.enter v).seen := mem_enter.mpr (.inr rfl)
  refine ⟨h.outs, fun y hy hle z hz => ?_⟩
  by_cases hyv : y = v
  · subst hyv
    exact h.chains z hz
  · refine (h.follows y hy (fun hys => ?_) hyv).chains z hz
    have hlt := idxOf_enter hys hv
    rw [h.idxOf (mem_enter.mpr (.inl hys)), h.idxOf hvt] at hle
    omega

theorem PartlySearched.searched (h : PartlySearched out s v (out v) t) : Searched out s v t := by
  refine ⟨(Extends.enter s v).trans h.toExtends,
    h.mem (mem_enter.mpr (.inr rfl)), fun y hy hnew => ?_⟩
  by_cases hyv : y = v
  · subst hyv
    exact ⟨.refl, h.outs, h.chains⟩
  · exact h.follows y hy hnew hyv

theorem length_unseen_le (nodes : List N) {seen seen' : List N} (h : seen <+: seen') :
    (unseen nodes seen').length ≤ (unseen nodes seen).length := by
  refine (monotone_filter_right nodes fun x hx => ?_).length_le
  exact decide_eq_true fun hxs => of_decide_eq_true hx (h.subset hxs)

theorem length_unseen_lt {seen seen' : List N} (hv : v ∈ nodes)
    (hnew : v ∉ seen) (h : seen ++ [v] <+: seen') :
    (unseen nodes seen').length < (unseen nodes seen).length := by
  have hsub : (unseen nodes seen').Sublist ((unseen nodes seen).filter (· ≠ v)) := by
    rw [unseen, unseen, filter_filter]
    refine monotone_filter_right nodes fun x hx => ?_
    have hx' : x ∉ seen ++ [v] := fun hmem =>
      of_decide_eq_true hx (h.subset hmem)
    obtain ⟨hxs, hxv⟩ := not_or.mp (mt mem_append.mpr hx')
    simp [mem_singleton.not.mp hxv, hxs]
  refine Nat.lt_of_le_of_lt hsub.length_le ?_
  refine length_filter_lt_length_iff_exists.mpr ⟨v, ?_, by simp⟩
  exact mem_filter.mpr ⟨hv, decide_eq_true hnew⟩

section

variable {hooks : Hooks N A} {P : List N → Search N → A → Prop}

/-- What holds after a search from the node, or between two of its
    steps. -/
def Kept (out : N → List N) (P : List N → Search N → A → Prop)
    (gray : List N) (s : Search N × A) : Prop :=
  Invariant out gray s.1 ∧ P gray s.1 s.2

theorem foldl_rule {fuel : Nat} (hclosed : Closed out nodes) (hrule : Rule out hooks nodes P)
    (hsearch : ∀ gray (s : Search N × A) v, Kept out P gray s → v ∈ nodes →
      (∀ g ∈ gray, Reach out g v) → (unseen nodes s.1.seen).length < fuel →
        Kept out P gray (search out hooks fuel s v)
          ∧ Searched out s.1 v (search out hooks fuel s v).1) (hv : v ∈ nodes) (hnew : v ∉ s.seen)
    (hreach : ∀ g ∈ gray, Reach out g v) (hfuel : (unseen nodes s.seen).length < fuel + 1)
    {done : List N} (rest : List N) (hrest : rest ⊆ out v)
    {t : Search N × A} (ht : Kept out P (v :: gray) t)
    (hdone : PartlySearched out s v done t.1) :
    let u := rest.foldl (fun t c =>
      ((search out hooks fuel t c).1.leave v c, hooks.leave v c (search out hooks fuel t c).2)) t
    Kept out P (v :: gray) u ∧ PartlySearched out s v (done ++ rest) u.1 := by
  induction rest generalizing done t with
  | nil =>
    rw [append_nil]
    exact ⟨ht, hdone⟩
  | cons c rest ih =>
    obtain ⟨hc, hrest⟩ := cons_subset.mp hrest
    have hlt := length_unseen_lt hv hnew hdone.seen
    have hreach' : ∀ g ∈ v :: gray, Reach out g c := by
      intro g hg
      rcases mem_cons.mp hg with rfl | hg
      · exact .single hc
      · exact (hreach g hg).tail hc
    obtain ⟨hkept, hsearched⟩ := hsearch (v :: gray) t c ht (hclosed v hv c hc) hreach' (by omega)
    have hleft := hrule.leave gray _ _ v c hkept.1 hkept.2 hc hsearched.entered
    have hleave : Kept out P (v :: gray)
        ((search out hooks fuel t c).1.leave v c, hooks.leave v c (search out hooks fuel t c).2) :=
      ⟨hkept.1.leave (hkept.1.gray_seen v (mem_cons_self ..)) hc hsearched.entered, hleft⟩
    have hnext := ih hrest hleave (hdone.leave hc hsearched)
    rw [append_assoc] at hnext
    exact hnext

/-- **THE RULE**: what the hooks keep at each event holds after the search
    as well. -/
theorem search_rule {fuel : Nat} (hclosed : Closed out nodes) (hrule : Rule out hooks nodes P)
    {s : Search N × A} (hs : Kept out P gray s) (hv : v ∈ nodes)
    (hreach : ∀ g ∈ gray, Reach out g v) (hfuel : (unseen nodes s.1.seen).length < fuel) :
    Kept out P gray (search out hooks fuel s v)
      ∧ Searched out s.1 v (search out hooks fuel s v).1 := by
  induction fuel generalizing gray s v with
  | zero => omega
  | succ fuel ih =>
    rw [search]
    by_cases hseen : v ∈ s.1.seen
    · rw [if_pos hseen]
      exact ⟨hs, Extends.refl s.1, hseen, fun y hy hnew => absurd hy hnew⟩
    · rw [if_neg hseen]
      have hentered : Kept out P (v :: gray) (s.1.enter v, hooks.enter v s.2) :=
        ⟨hs.1.enter hseen hreach, hrule.enter gray s.1 s.2 v hs.1 hs.2 hv hseen hreach⟩
      have hfirst : PartlySearched out s.1 v [] (s.1.enter v) := by
        refine ⟨Extends.refl _, (by simp), (by simp), ?_⟩
        intro y hy hnew hne
        exact absurd (mem_enter.mp hy) (by simp [hnew, hne])
      obtain ⟨hkept, hdone⟩ := foldl_rule hclosed hrule
        (fun gray s v hs hv hreach hfuel => ih hs hv hreach hfuel)
        hv hseen hreach hfuel (out v) (List.Subset.refl _) hentered hfirst
      have hfinished := PartlySearched.finished hdone hseen
      exact ⟨⟨hkept.1.exit hfinished,
        hrule.exit gray _ _ v hkept.1 hfinished hkept.2⟩, hdone.searched⟩

/-- What the searches from several nodes have done. -/
structure SearchedAll (out : N → List N) (s : Search N) (roots : List N)
    (t : Search N) : Prop extends Extends s t where
  entered : ∀ r ∈ roots, r ∈ t.seen
  reach : ∀ y ∈ t.seen, y ∉ s.seen → ∃ r ∈ roots, Reach out r y

theorem searchAll_rule {fuel : Nat} (hclosed : Closed out nodes)
    (hrule : Rule out hooks nodes P) {s : Search N × A} (hs : Kept out P [] s)
    {roots : List N} (hroots : roots ⊆ nodes) (hfuel : nodes.length < fuel) :
    Kept out P [] (searchAll out hooks fuel s roots)
      ∧ SearchedAll out s.1 roots (searchAll out hooks fuel s roots).1 := by
  induction roots generalizing s with
  | nil => exact ⟨hs, Extends.refl s.1, (by simp), fun y hy hnew => absurd hy hnew⟩
  | cons r rest ih =>
    obtain ⟨hr, hrest⟩ := cons_subset.mp hroots
    have hle : (unseen nodes s.1.seen).length ≤ nodes.length := length_filter_le ..
    obtain ⟨hkept, hsearched⟩ := search_rule hclosed hrule hs hr
      (fun g hg => by cases hg) (Nat.lt_of_le_of_lt hle hfuel)
    obtain ⟨hkept', hall⟩ := ih hkept hrest
    refine ⟨hkept', hsearched.toExtends.trans hall.toExtends, ?_, ?_⟩
    · intro x hx
      rcases mem_cons.mp hx with rfl | hx
      · exact hall.mem hsearched.entered
      · exact hall.entered x hx
    · intro y hy hnew
      by_cases hyt : y ∈ (search out hooks fuel s r).1.seen
      · exact ⟨r, mem_cons_self .., (hsearched.follows y hyt hnew).reach⟩
      · obtain ⟨x, hx, hxy⟩ := hall.reach y hy hyt
        exact ⟨x, mem_cons_of_mem r hx, hxy⟩

end

/-! ## What is seen in the end -/

section

variable {B : Type} {s : Search N × A} {t : Search N × B} (hooks : Hooks N A)
  (hooks' : Hooks N B) (fuel : Nat) (hst : s.1 = t.1)
include hooks hooks' hst

theorem search_fst (v : N) : (search out hooks fuel s v).1 = (search out hooks' fuel t v).1 := by
  induction fuel generalizing s t v with
  | zero => exact hst
  | succ fuel ih =>
    rw [search, search, hst]
    by_cases hv : v ∈ t.1.seen
    · rw [if_pos hv, if_pos hv]
      exact hst
    · rw [if_neg hv, if_neg hv]
      have hfold : ∀ (rest : List N) {s : Search N × A} {t : Search N × B}, s.1 = t.1 →
          (rest.foldl (fun t c => ((search out hooks fuel t c).1.leave v c,
            hooks.leave v c (search out hooks fuel t c).2)) s).1
          = (rest.foldl (fun t c =>
            ((search out hooks' fuel t c).1.leave v c,
              hooks'.leave v c (search out hooks' fuel t c).2)) t).1 := by
        intro rest
        induction rest with
        | nil => exact fun h => h
        | cons c rest ihRest => exact fun h => ihRest (congrArg (·.leave v c) (ih h c))
      exact hfold (out v) rfl

theorem searchAll_fst (roots : List N) : (searchAll out hooks fuel s roots).1
      = (searchAll out hooks' fuel t roots).1 := by
  induction roots generalizing s t with
  | nil => exact hst
  | cons r rest ih => exact ih (search_fst hooks hooks' fuel hst r)

end

theorem search_seen (hooks : Hooks N A) (fuel : Nat) (s : Search N × A)
    (v : N) : (search out hooks fuel s v).1.seen = visit out fuel s.1.seen v := by
  induction fuel generalizing s v with
  | zero => rfl
  | succ fuel ih =>
    rw [search, visit]
    by_cases hv : v ∈ s.1.seen
    · rw [if_pos hv, if_pos hv]
    · rw [if_neg hv, if_neg hv]
      have hfold : ∀ (rest : List N) (t : Search N × A),
          (rest.foldl (fun t c => ((search out hooks fuel t c).1.leave v c,
            hooks.leave v c (search out hooks fuel t c).2)) t).1.seen
            = rest.foldl (visit out fuel) t.1.seen := by
        intro rest
        induction rest with
        | nil => exact fun t => rfl
        | cons c rest ihRest =>
          intro t
          rw [foldl_cons, foldl_cons, ihRest, ← ih t c]
          rfl
      exact hfold (out v) _

theorem searchAll_seen (hooks : Hooks N A) (fuel : Nat) (s : Search N × A)
    (roots : List N) : (searchAll out hooks fuel s roots).1.seen
      = roots.foldl (visit out fuel) s.1.seen := by
  induction roots generalizing s with
  | nil => rfl
  | cons r rest ih =>
    rw [foldl_cons, ← search_seen hooks fuel s r, ← ih]
    rfl

theorem prefix_visit (out : N → List N) (fuel : Nat) (seen : List N)
    (v : N) : seen <+: visit out fuel seen v := by
  induction fuel generalizing seen v with
  | zero => exact prefix_rfl
  | succ fuel ih =>
    rw [visit]
    split
    · exact prefix_rfl
    · exact (prefix_append ..).trans (prefix_foldl ih _ _)

theorem Invariant.mem_of_reach (h : Invariant out [] s) {x : N}
    (hx : x ∈ s.seen) (hxy : Reach out x y) : y ∈ s.seen := by
  induction hxy with
  | refl => exact hx
  | tail hab hbc ih => exact h.closed _ ih (fun hmem => by cases hmem) _ hbc

/-- Hooks that compute nothing. -/
def noHooks : Hooks N Unit :=
  { enter := fun _ a => a, leave := fun _ _ a => a, exit := fun _ a => a }

theorem noHooks_rule : Rule out (noHooks : Hooks N Unit) nodes fun _ _ _ => True :=
  ⟨fun _ _ _ _ _ _ _ _ _ => trivial, fun _ _ _ _ _ _ _ _ _ => trivial, fun _ _ _ _ _ _ _ => trivial⟩

/-- **ALL THAT IS REACHED**: searches from several nodes see exactly what
    can be reached from one of them. -/
theorem mem_visitAll {fuel : Nat} (hclosed : Closed out nodes)
    {roots : List N} (hroots : roots ⊆ nodes) (hfuel : nodes.length < fuel) :
    y ∈ roots.foldl (visit out fuel) [] ↔ ∃ r ∈ roots, Reach out r y := by
  have hstart : Kept out (fun _ _ _ => True) []
      ((Search.start, ()) : Search N × Unit) := ⟨Invariant.start, trivial⟩
  obtain ⟨hkept, hall⟩ := searchAll_rule hclosed noHooks_rule hstart hroots hfuel
  have hseen : (searchAll out noHooks fuel (Search.start, ()) roots).1.seen
      = _ := searchAll_seen noHooks fuel _ roots
  rw [show ([] : List N) = (Search.start : Search N).seen from rfl, ← hseen]
  constructor
  · intro hy
    exact hall.reach y hy (fun hmem => by cases hmem)
  · rintro ⟨r, hr, hreach⟩
    exact hkept.1.mem_of_reach (hall.entered r hr) hreach

/-! ## Searches that may fail -/

section

variable {ε : Type} (follow : Nat → List N → N → Except ε (List N))

theorem foldlM_follow {fuel : Nat}
    (hfollow : ∀ seen, ∀ v ∈ nodes, (unseen nodes seen).length ≤ fuel →
      follow fuel seen v = .ok (visit out fuel seen v))
    {rest : List N} (hrest : rest ⊆ nodes) {seen : List N}
    (hfuel : (unseen nodes seen).length ≤ fuel) :
    rest.foldlM (follow fuel) seen = .ok (rest.foldl (visit out fuel) seen) := by
  induction rest generalizing seen with
  | nil => rfl
  | cons c rest ih =>
    obtain ⟨hc, hrest⟩ := cons_subset.mp hrest
    rw [foldlM_cons, hfollow seen c hc hfuel]
    refine ih hrest (Nat.le_trans ?_ hfuel)
    exact length_unseen_le nodes (prefix_visit out fuel seen c)

/-- **ENOUGH FUEL**: a search that may fail, but does not at a node that was
    seen nor at any other of the nodes, sees what the plain search sees. -/
theorem follow_ok (hclosed : Closed out nodes)
    (hseen : ∀ fuel seen v, v ∈ seen → follow fuel seen v = .ok seen)
    (hnew : ∀ fuel seen, ∀ v ∈ nodes, v ∉ seen →
      follow (fuel + 1) seen v = (out v).foldlM (follow fuel) (seen ++ [v]))
    {fuel : Nat} {seen : List N} (hv : v ∈ nodes)
    (hfuel : (unseen nodes seen).length ≤ fuel) :
    follow fuel seen v = .ok (visit out fuel seen v) := by
  induction fuel generalizing seen v with
  | zero =>
    have hmem : v ∈ seen := by
      by_contra hnot
      have hlt := length_unseen_lt hv hnot prefix_rfl
      omega
    exact hseen 0 seen v hmem
  | succ fuel ih =>
    rw [visit]
    by_cases hmem : v ∈ seen
    · rw [if_pos hmem]
      exact hseen (fuel + 1) seen v hmem
    · have hlt := length_unseen_lt hv hmem prefix_rfl
      rw [if_neg hmem, hnew fuel seen v hv hmem]
      exact foldlM_follow follow (fun seen v hv hfuel => ih hv hfuel) (hclosed v hv) (by omega)

end

end

end N8nDepthFirst
