import N8n.StrongComponentsProofs

/-! # When the components are the classes

    Two invariants divide what can happen.  In one (`Exact`) all that was
    popped are whole classes, and the low link value of a node is the id of
    the earliest node of its class that a chain leads to from it.  In the
    other (`Stuck`) a node whose class was left is still on the stack, with
    a low link value that is not the id of the entry; nothing pops it any
    more.

    Which of the two holds in the end is a matter of the order in which the
    connections are left: there is a chain from each node to the entry of its
    class, or a node is stuck (`areComponents_iff`). -/

namespace N8nComponentClasses

open Relation N8nExcept N8nOrderedMap N8nDirectedGraph N8nDepthFirst List
  N8nMutualReach N8nPartialGraph N8nStrongComponents

/-- No gray node is in the class. -/
def ClassLeft (g : Graph) (gray : List INode) (y : INode) : Prop :=
  ∀ u ∈ gray, ¬ Mutual g.children u y

structure Exact (g : Graph) (gray : List INode) (s : Search INode)
    (t : Tarjan) : Prop where
  least : ∀ v ∈ s.seen, ∀ x ∈ s.seen, Mutual g.children v x →
    Chain s.left v x → ∀ low, t.lowLinkValues.get? v = some low → low ≤ s.seen.idxOf x
  attained : ∀ v ∈ s.seen, ∃ w ∈ s.seen, t.lowLinkValues.get? v = some (s.seen.idxOf w)
      ∧ Mutual g.children v w ∧ Chain s.left v w
  stack : ∀ y, y ∈ t.stack ↔ y ∈ s.seen ∧ ∃ u ∈ gray, Mutual g.children u y
  whole : ∀ scc ∈ t.stronglyConnectedComponents, ∀ x ∈ scc, ∀ y, Mutual g.children x y → y ∈ scc
  chained : ∀ y ∈ s.seen, ClassLeft g gray y → ∀ r, IsEntry g.children s.seen y r → Chain s.left y r

/-- The node `y` stays on the stack. -/
structure Stuck (g : Graph) (gray : List INode) (s : Search INode)
    (t : Tarjan) (y : INode) : Prop where
  stack : y ∈ t.stack
  left : ClassLeft g gray y
  low : ∃ w ∈ s.seen, t.lowLinkValues.get? y = some (s.seen.idxOf w) ∧ Mutual g.children y w
  chainless : ∃ r, IsEntry g.children s.seen y r ∧ ¬ Chain s.left y r

/-- What holds at each point of the search. -/
def Classified (g : Graph) (gray : List INode) (s : Search INode)
    (a : Except GraphError Tarjan) : Prop :=
  ∃ t, a = .ok t ∧ Base g s t ∧ (Exact g gray s t ∨ ∃ y, Stuck g gray s t y)

section

variable {g : Graph} {gray : List INode} {s : Search INode} {t : Tarjan}
  {u v c y : INode}

theorem ClassLeft.ne (h : ClassLeft g gray y) (hu : u ∈ gray) : y ≠ u :=
  fun heq => h u hu (heq ▸ Mutual.refl y)

theorem reach_top (hs : Invariant g.children (v :: gray) s)
    (hu : u ∈ v :: gray) : Reach g.children u v := by
  refine hs.reached u hu v (hs.gray_seen v (mem_cons_self ..)) ?_
  rcases mem_cons.mp hu with rfl | hu
  · exact Nat.le_refl _
  · exact Nat.le_of_lt ((pairwise_cons.mp hs.ordered).1 u hu)

theorem exists_gray_of_enter (hs : Invariant g.children gray s) (hv : v ∉ s.seen)
    (hreach : ∀ u ∈ gray, Reach g.children u v) (hy : y ∈ s.seen) (hvy : Mutual g.children v y) :
    ∃ u ∈ gray, Mutual g.children u y := by
  obtain ⟨u, hu, huv⟩ := exists_gray_mutual (hs.enter hv hreach)
    (mem_enter.mpr (.inl hy)) (idxOf_enter hy hv) hvy.symm
  exact ⟨u, hu, huv.trans hvy⟩

theorem IsEntry.of_enter {r : INode} (hy : y ∈ s.seen)
    (h : IsEntry g.children (s.enter v).seen y r) :
    IsEntry g.children s.seen y r := by
  obtain ⟨r', hr'⟩ := exists_entry g.children hy
  have hsame : r' = r := IsEntry.eq (IsEntry.append hr') h
  rw [← hsame]
  exact hr'

end

/-! ## Entering a node -/

section

variable {g : Graph} {gray : List INode} {s : Search INode} {t : Tarjan}
  {v y : INode}

theorem Exact.enter (h : Exact g gray s t) (hb : Base g s t) (hs : Invariant g.children gray s)
    (hv : v ∉ s.seen) (hreach : ∀ u ∈ gray, Reach g.children u v) :
    Exact g (v :: gray) (s.enter v) (t.push v) := by
  have hkeep := fun {y} (hy : y ∈ s.seen) => (Extends.enter s v).idxOf hy
  have hne : ∀ {y}, y ∈ s.seen → v ≠ y := fun hy heq => hv (heq ▸ hy)
  refine ⟨?_, ?_, ?_, h.whole, ?_⟩
  · intro a ha x hx hax hchain low hlow
    rw [hb.low_push hv] at hlow
    have hends := chain_ends (fun e he => hs.ends e he) hchain
    rcases mem_enter.mp ha with ha | rfl
    · rw [if_neg (hne ha)] at hlow
      have hxs : x ∈ s.seen := hends.elim (fun heq => heq ▸ ha) And.right
      rw [hkeep hxs]
      exact h.least a ha x hxs hax hchain low hlow
    · rw [if_pos rfl] at hlow
      cases hlow
      rcases hends with rfl | ⟨hmem, -⟩
      · exact Nat.le_refl _
      · exact absurd hmem hv
  · intro a ha
    rw [hb.low_push hv]
    rcases mem_enter.mp ha with ha | rfl
    · obtain ⟨w, hw, hlow, hrest⟩ := h.attained a ha
      rw [if_neg (hne ha), hlow, ← hkeep hw]
      exact ⟨w, mem_enter.mpr (.inl hw), rfl, hrest⟩
    · exact ⟨a, ha, if_pos rfl, Mutual.refl a, Chain.refl a⟩
  · intro y
    show y ∈ v :: t.stack ↔ _
    rw [mem_cons, h.stack y, mem_enter]
    constructor
    · rintro (rfl | ⟨hy, u, hu, huy⟩)
      · exact ⟨.inr rfl, y, mem_cons_self .., Mutual.refl y⟩
      · exact ⟨.inl hy, u, mem_cons_of_mem v hu, huy⟩
    · rintro ⟨hy | hy, u, hu, huy⟩
      · rcases mem_cons.mp hu with rfl | hu
        · exact .inr ⟨hy, exists_gray_of_enter hs hv hreach hy huy⟩
        · exact .inr ⟨hy, u, hu, huy⟩
      · exact .inl hy
  · intro y hy hleft r hr
    have hyv := ClassLeft.ne hleft (mem_cons_self ..)
    have hy := (mem_enter.mp hy).resolve_right hyv
    exact h.chained y hy (fun u hu => hleft u (mem_cons_of_mem v hu)) r (IsEntry.of_enter hy hr)

theorem Stuck.enter (h : Stuck g gray s t y) (hb : Base g s t) (hs : Invariant g.children gray s)
    (hv : v ∉ s.seen) (hreach : ∀ u ∈ gray, Reach g.children u v) :
    Stuck g (v :: gray) (s.enter v) (t.push v) y := by
  have hy : y ∈ s.seen := hb.of_stack h.stack
  obtain ⟨w, hw, hlow, hyw⟩ := h.low
  obtain ⟨r, hr, hchain⟩ := h.chainless
  refine ⟨mem_cons_of_mem v h.stack, ?_, ?_, r, IsEntry.append hr, hchain⟩
  · intro u hu huy
    rcases mem_cons.mp hu with rfl | hu
    · obtain ⟨u', hu', hu'y⟩ := exists_gray_of_enter hs hv hreach hy huy
      exact h.left u' hu' hu'y
    · exact h.left u hu huy
  · refine ⟨w, mem_enter.mpr (.inl hw), ?_, hyw⟩
    have hne : v ≠ y := fun heq => hv (heq ▸ hy)
    rw [hb.low_push hv, if_neg hne, hlow, (Extends.enter s v).idxOf hw]

end

/-! ## Leaving a connection -/

section

variable {g : Graph} {gray : List INode} {s : Search INode}
  {t t' : Tarjan} {v c y : INode}

section

variable (h : Exact g (v :: gray) s t) (hs : Invariant g.children (v :: gray) s)
  (hvc : c ∈ g.children v) (hc : c ∈ s.seen)
include h hs hvc hc

theorem Exact.mem_stack_iff : c ∈ t.stack ↔ Mutual g.children v c := by
  rw [h.stack c]
  constructor
  · rintro ⟨-, u, hu, huc⟩
    exact ⟨.single hvc, huc.2.trans (reach_top hs hu)⟩
  · exact fun hmutual => ⟨hc, v, mem_cons_self .., hmutual⟩

theorem Exact.leave (ht : Lowered v c t t') : Exact g (v :: gray) (s.leave v c) t' := by
  have hgray : v ∈ v :: gray := mem_cons_self ..
  have hstack := h.mem_stack_iff hs hvc hc
  obtain ⟨wc, hwc, hlowC, hmutualC, hchainC⟩ := h.attained c hc
  obtain ⟨wv, hwv, hlowV, hmutualV, hchainV⟩ := h.attained v (hs.gray_seen v hgray)
  have hown := ht.own _ _ hlowC hlowV
  refine ⟨?_, ?_, ?_, ?_, ?_⟩
  · intro a ha x hx hax hchain low hlow
    by_cases hav : a = v
    · subst hav
      cases hown.symm.trans hlow
      rcases hchain with hchain | ⟨-, hchain⟩
      · have hle := h.least a ha x hx hax hchain _ hlowV
        refine Nat.le_trans ?_ hle
        split
        · exact Nat.min_le_right ..
        · exact Nat.le_refl _
      · have hcx : Reach g.children c x := hchain.reach hs.edges
        have hac : Mutual g.children a c := ⟨.single hvc, hcx.trans hax.2⟩
        have hle := h.least c hc x hx (hac.symm.trans hax) hchain _ hlowC
        rw [if_pos (hstack.mpr hac)]
        exact Nat.le_trans (Nat.min_le_left ..) hle
    · rcases hchain with hchain | ⟨heq, -⟩
      · rw [ht.other a hav] at hlow
        exact h.least a ha x hx hax hchain low hlow
      · exact absurd heq hav
  · intro a ha
    by_cases hav : a = v
    · subst hav
      by_cases hmem : c ∈ t.stack
      · have hac := hstack.mp hmem
        rw [if_pos hmem] at hown
        rcases Nat.le_total (s.seen.idxOf wc) (s.seen.idxOf wv) with hle | hle
        · exact ⟨wc, hwc, hown.trans (congrArg some (Nat.min_eq_left hle)),
            hac.trans hmutualC, .inr ⟨rfl, hchainC⟩⟩
        · exact ⟨wv, hwv, hown.trans (congrArg some (Nat.min_eq_right hle)), hmutualV, .inl hchainV⟩
      · rw [if_neg hmem] at hown
        exact ⟨wv, hwv, hown, hmutualV, .inl hchainV⟩
    · obtain ⟨w, hw, hlow, hmutual, hchain⟩ := h.attained a ha
      exact ⟨w, hw, (ht.other a hav).trans hlow, hmutual, .inl hchain⟩
  · intro y
    rw [ht.stack]
    exact h.stack y
  · rw [ht.components]
    exact h.whole
  · exact fun y hy hleft r hr => .inl (h.chained y hy hleft r hr)

end

theorem Stuck.leave (h : Stuck g (v :: gray) s t y)
    (ht : Lowered v c t t') : Stuck g (v :: gray) (s.leave v c) t' y := by
  have hyv := h.left.ne (mem_cons_self ..)
  obtain ⟨w, hw, hlow, hyw⟩ := h.low
  obtain ⟨r, hr, hchain⟩ := h.chainless
  refine ⟨ht.stack ▸ h.stack, h.left, ⟨w, hw, (ht.other y hyv).trans hlow, hyw⟩, r, hr, ?_⟩
  rintro (hold | ⟨heq, -⟩)
  · exact hchain hold
  · exact hyv heq

end

/-! ## Leaving a node -/

section

variable {g : Graph} {gray : List INode} {s : Search INode} {t : Tarjan}
  {v y : INode}

theorem takeWhile_eq_filter {α : Type} {p : α → Bool} {l : List α}
    (h : l.Pairwise fun a b => p b → p a) :
    l.takeWhile p = l.filter p := by
  induction l with
  | nil => rfl
  | cons a rest ih =>
    obtain ⟨hall, hrest⟩ := pairwise_cons.mp h
    by_cases ha : p a = true
    · rw [takeWhile_cons_of_pos ha, filter_cons_of_pos ha, ih hrest]
    · rw [takeWhile_cons_of_neg ha, filter_cons_of_neg ha]
      exact (filter_eq_nil_iff.mpr fun b hb hpb =>
        ha (hall b hb hpb)).symm

theorem mem_dropWhile {α : Type} {p : α → Bool} {l : List α} {x : α}
    (h : l.Nodup) : x ∈ l.dropWhile p ↔ x ∈ l ∧ x ∉ l.takeWhile p := by
  have hsplit := takeWhile_append_dropWhile (p := p) (l := l)
  rw [← hsplit] at h
  obtain ⟨-, -, hdisjoint⟩ := nodup_append.mp h
  constructor
  · intro hdrop
    exact ⟨(dropWhile_sublist p).subset hdrop, fun htake => hdisjoint x htake x hdrop rfl⟩
  · rintro ⟨hx, htake⟩
    rw [← hsplit] at hx
    exact (mem_append.mp hx).resolve_left htake

theorem Exact.exit_later (h : Exact g (v :: gray) s t)
    (hs : Invariant g.children (v :: gray) s) {x : INode} (hx : x ∈ s.seen)
    (hlt : s.seen.idxOf x < s.seen.idxOf v) (hxv : Mutual g.children x v) :
    Exact g gray s t := by
  obtain ⟨u, hu, huv⟩ := exists_gray_mutual hs hx hlt hxv
  have hsame : ∀ y, (∃ a ∈ v :: gray, Mutual g.children a y)
      ↔ ∃ a ∈ gray, Mutual g.children a y := by
    refine fun y => ⟨?_, fun ⟨a, ha, hay⟩ =>
      ⟨a, mem_cons_of_mem v ha, hay⟩⟩
    rintro ⟨a, ha, hay⟩
    rcases mem_cons.mp ha with rfl | ha
    · exact ⟨u, hu, huv.trans hay⟩
    · exact ⟨a, ha, hay⟩
  refine ⟨h.least, h.attained,
    fun y => (h.stack y).trans (and_congr_right fun _ => hsame y), h.whole,
    fun y hy hleft r hr => h.chained y hy (fun a ha hay => ?_) r hr⟩
  obtain ⟨b, hb, hby⟩ := (hsame y).mp ⟨a, ha, hay⟩
  exact hleft b hb hby

/-- What is known when the first node of a class is left. -/
structure AtEntry (g : Graph) (gray : List INode) (s : Search INode)
    (t : Tarjan) (v : INode) : Prop where
  entry : IsEntry g.children s.seen v v
  low : t.hasLow (s.seen.idxOf v) v
  left : ClassLeft g gray v
  members : ∀ y, Mutual g.children v y → y ∈ s.seen ∧ y ∈ t.stack
  later : ∀ y ∈ t.stack, s.seen.idxOf v ≤ s.seen.idxOf y → Mutual g.children v y
  hasLow : ∀ y, Mutual g.children v y → (t.hasLow (s.seen.idxOf v) y ↔ Chain s.left y v)

theorem Exact.atEntry (h : Exact g (v :: gray) s t) (hb : Base g s t)
    (hs : Invariant g.children (v :: gray) s) (hv : Finished g.children v s)
    (hfirst : ∀ x ∈ s.seen, Mutual g.children v x →
      s.seen.idxOf v ≤ s.seen.idxOf x) : AtEntry g gray s t v := by
  have hgray : v ∈ v :: gray := mem_cons_self ..
  have hseen : v ∈ s.seen := hs.gray_seen v hgray
  have hleft : ClassLeft g gray v := by
    intro u hu huv
    have hlt := (pairwise_cons.mp hs.ordered).1 u hu
    have hle := hfirst u (hs.gray_seen u (mem_cons_of_mem v hu)) huv.symm
    omega
  have hmem : ∀ y, Mutual g.children v y → y ∈ s.seen := fun y hy => mem_of_mutual hs hv hfirst hy
  have hlow : ∀ y, Mutual g.children v y → (t.hasLow (s.seen.idxOf v) y ↔ Chain s.left y v) := by
    intro y hy
    have hys := hmem y hy
    obtain ⟨w, hw, hget, hyw, hchain⟩ := h.attained y hys
    constructor
    · intro hown
      have hidx := Option.some.inj (hget.symm.trans (of_decide_eq_true hown))
      rw [← eq_of_idxOf hw hidx]
      exact hchain
    · intro hyv
      have hle := h.least y hys v hseen hy.symm hyv _ hget
      have hge := hfirst w hw (hy.trans hyw)
      exact decide_eq_true (hget.trans (congrArg some (Nat.le_antisymm hle hge)))
  refine ⟨⟨hseen, Mutual.refl v, hfirst⟩,
    (hlow v (Mutual.refl v)).mpr (Chain.refl v), hleft, ?_, ?_, hlow⟩
  · exact fun y hy => ⟨hmem y hy, (h.stack y).mpr ⟨hmem y hy, v, hgray, hy⟩⟩
  · intro y hy hle
    obtain ⟨-, u, hu, huy⟩ := (h.stack y).mp hy
    have hvy := hs.reached v hgray y (hb.of_stack hy) hle
    exact ⟨hvy, huy.2.trans (reach_top hs hu)⟩

/-- **THE WHOLE CLASS IS POPPED** if there is a chain from each of its nodes
    to the first one. -/
theorem AtEntry.pop (ha : AtEntry g gray s t v) (h : Exact g (v :: gray) s t)
    (hb : Base g s t) (hs : Invariant g.children (v :: gray) s)
    (hall : ∀ y, Mutual g.children v y → Chain s.left y v) :
    Exact g gray s (t.pop (s.seen.idxOf v)) := by
  have hown : ∀ y ∈ t.stack, (t.hasLow (s.seen.idxOf v) y ↔ Mutual g.children v y) := fun y hy =>
    ⟨hb.mutual_of_hasLow hs (hb.of_stack hy), fun hvy => (ha.hasLow y hvy).mpr (hall y hvy)⟩
  have htop : t.stack.Pairwise fun a b =>
      t.hasLow (s.seen.idxOf v) b → t.hasLow (s.seen.idxOf v) a := by
    refine hb.order.imp_of_mem fun {a b} hmemA hmemB hlt hlow => ?_
    have hvb := (hown b hmemB).mp hlow
    have hle := ha.entry.first b (hb.of_stack hmemB) hvb
    exact (hown a hmemA).mpr (ha.later a hmemA (by omega))
  have hscc : ∀ y, y ∈ t.stack.takeWhile (t.hasLow (s.seen.idxOf v)) ↔ Mutual g.children v y := by
    intro y
    rw [takeWhile_eq_filter htop, mem_filter]
    exact ⟨fun hy => (hown y hy.1).mp hy.2, fun hvy =>
      ⟨(ha.members y hvy).2, (hown y (ha.members y hvy).2).mpr hvy⟩⟩
  refine ⟨h.least, h.attained, fun y => ?_, fun scc hmem x hx y hxy => ?_,
    fun y hy hleft r hr => ?_⟩
  · have hstack : y ∈ (t.pop (s.seen.idxOf v)).stack
        ↔ y ∈ t.stack ∧ ¬ Mutual g.children v y := by
      rw [← hscc]
      exact mem_dropWhile (nodup_append.mp hb.nodup).1
    rw [hstack, h.stack y, and_assoc]
    refine and_congr_right fun hy => ⟨?_, ?_⟩
    · rintro ⟨⟨u, hu, huy⟩, hvy⟩
      rcases mem_cons.mp hu with rfl | hu
      · exact absurd huy hvy
      · exact ⟨u, hu, huy⟩
    · rintro ⟨u, hu, huy⟩
      exact ⟨⟨u, mem_cons_of_mem v hu, huy⟩, fun hvy => ha.left u hu (huy.trans hvy.symm)⟩
  · rcases Tarjan.mem_pop.mp hmem with hold | ⟨-, rfl⟩
    · exact h.whole scc hold x hx y hxy
    · exact (hscc y).mpr (((hscc x).mp hx).trans hxy)
  · by_cases hvy : Mutual g.children v y
    · have hentry : r = v := IsEntry.eq hr (IsEntry.of_mutual ha.entry hvy)
      rw [hentry]
      exact hall y hvy
    · refine h.chained y hy (fun u hu huy => ?_) r hr
      rcases mem_cons.mp hu with rfl | hu
      · exact hvy huy
      · exact hleft u hu huy

/-- **A NODE IS STUCK** if there is no chain from it to the first node. -/
theorem AtEntry.stuck (ha : AtEntry g gray s t v) (h : Exact g (v :: gray) s t)
    (hvy : Mutual g.children v y) (hchain : ¬ Chain s.left y v) :
    Stuck g gray s (t.pop (s.seen.idxOf v)) y := by
  obtain ⟨hy, hstack⟩ := ha.members y hvy
  obtain ⟨w, hw, hlow, hyw, -⟩ := h.attained y hy
  refine ⟨?_, fun u hu huy => ha.left u hu (huy.trans hvy.symm),
    ⟨w, hw, hlow, hyw⟩, v, IsEntry.of_mutual ha.entry hvy, hchain⟩
  exact mem_dropWhile_of_not hstack (mt (ha.hasLow y hvy).mp hchain)

theorem Stuck.pop (h : Stuck g (v :: gray) s t y) : Stuck g gray s (t.pop (s.seen.idxOf v)) y := by
  obtain ⟨w, hw, hlow, hyw⟩ := h.low
  refine ⟨?_, fun u hu => h.left u (mem_cons_of_mem v hu), ⟨w, hw, hlow, hyw⟩, h.chainless⟩
  refine mem_dropWhile_of_not h.stack fun hown => ?_
  have hidx := Option.some.inj (hlow.symm.trans (of_decide_eq_true hown))
  have hwv := eq_of_idxOf hw hidx
  exact h.left v (mem_cons_self ..) (hwv ▸ hyw.symm)

theorem Stuck.exit (h : Stuck g (v :: gray) s t y) : Stuck g gray s t y :=
  ⟨h.stack, fun u hu => h.left u (mem_cons_of_mem v hu), h.low, h.chainless⟩

theorem Exact.exit (h : Exact g (v :: gray) s t) (hb : Base g s t)
    (hs : Invariant g.children (v :: gray) s) (hv : Finished g.children v s) :
    Classified g gray s (t.popComponent v) := by
  have hseen : v ∈ s.seen := hs.gray_seen v (mem_cons_self ..)
  rw [hb.popComponent hseen]
  by_cases hfirst : ∀ x ∈ s.seen, Mutual g.children v x → s.seen.idxOf v ≤ s.seen.idxOf x
  · have ha := h.atEntry hb hs hv hfirst
    rw [if_pos ha.low]
    refine ⟨_, rfl, hb.pop hs, ?_⟩
    by_cases hall : ∀ y, Mutual g.children v y → Chain s.left y v
    · exact .inl (ha.pop h hb hs hall)
    · push Not at hall
      obtain ⟨y, hvy, hchain⟩ := hall
      exact .inr ⟨y, ha.stuck h hvy hchain⟩
  · push Not at hfirst
    obtain ⟨x, hx, hvx, hlt⟩ := hfirst
    obtain ⟨z, hz, hzlt, hzv, hchain⟩ := exists_earlier hs hv hlt hvx.symm
    have hlow : ¬ t.hasLow (s.seen.idxOf v) v := fun hown => by
      have hle := h.least v hseen z hz hzv.symm hchain _ (of_decide_eq_true hown)
      omega
    rw [if_neg hlow]
    exact ⟨t, rfl, hb, .inl (h.exit_later hs hx hlt hvx.symm)⟩

theorem Stuck.popComponent (h : Stuck g (v :: gray) s t y) (hb : Base g s t)
    (hs : Invariant g.children (v :: gray) s) :
    Classified g gray s (t.popComponent v) := by
  rw [hb.popComponent (hs.gray_seen v (mem_cons_self ..))]
  split
  · exact ⟨_, rfl, hb.pop hs, .inr ⟨y, h.pop⟩⟩
  · exact ⟨t, rfl, hb, .inr ⟨y, h.exit⟩⟩

end

/-! ## The whole run -/

variable {g : Graph}

/-- **AT EACH POINT** of the search one of the invariants holds. -/
theorem classified_rule : Rule g.children Tarjan.hooks g.nodes (Classified g) := by
  refine ⟨?_, ?_, ?_⟩
  · rintro gray s _ v hs ⟨t, rfl, hb, h⟩ - hv hreach
    refine ⟨t.push v, rfl, hb.push hv, ?_⟩
    exact h.imp (fun h => h.enter hb hs hv hreach) fun ⟨y, h⟩ => ⟨y, h.enter hb hs hv hreach⟩
  · rintro gray s _ v c hs ⟨t, rfl, hb, h⟩ hvc hc
    have hseen : v ∈ s.seen := hs.gray_seen v (mem_cons_self ..)
    obtain ⟨t', ht', hb', hlowered⟩ := hb.minLowLink hseen hc hvc
    refine ⟨t', ht', hb', ?_⟩
    exact h.imp (fun h => h.leave hs hvc hc hlowered) fun ⟨y, h⟩ => ⟨y, h.leave hlowered⟩
  · rintro gray s _ v hs hv ⟨t, rfl, hb, h⟩
    rcases h with h | ⟨y, h⟩
    · exact h.exit hb hs hv
    · exact h.popComponent hb hs

theorem classified_start : Classified g [] .start (.ok .start) :=
  ⟨.start, rfl, base_start, .inl ⟨(by simp [Search.start]),
    (by simp [Search.start]), (by simp [Search.start, Tarjan.start]),
    (by simp [Tarjan.start]), (by simp [Search.start])⟩⟩

def searchNodes (g : Graph) : Search INode :=
  (searchAll g.children noHooks (depth g.graph) (.start, ()) g.nodes).1

theorem mem_searchNodes {x : INode} : x ∈ (searchNodes g).seen ↔ x ∈ g.nodes := by
  have hseen : (searchNodes g).seen = g.nodes.foldl (visit g.children (depth g.graph)) [] :=
    searchAll_seen noHooks _ _ _
  rw [hseen, mem_visitAll Graph.closed_children (List.Subset.refl _) nodes_lt_depth]
  constructor
  · rintro ⟨r, hr, hreach⟩
    exact Graph.closed_children.mem_of_reach hr hreach
  · exact fun hx => ⟨x, hx, .refl⟩

theorem getStronglyConnectedComponents_run : ∃ t, getStronglyConnectedComponents g.graph
        = .ok t.stronglyConnectedComponents
      ∧ Base g (searchNodes g) t
      ∧ (Exact g [] (searchNodes g) t ∨ ∃ y, Stuck g [] (searchNodes g) t y) := by
  have hstart : Kept g.children (Classified g) [] (.start, .ok .start) :=
    ⟨Invariant.start, classified_start⟩
  obtain ⟨⟨-, hclassified⟩, -⟩ := searchAll_rule Graph.closed_children
    classified_rule hstart (List.Subset.refl g.nodes) nodes_lt_depth
  have hsame : (searchAll g.children Tarjan.hooks (depth g.graph)
      (.start, .ok .start) g.nodes).1 = searchNodes g :=
    searchAll_fst Tarjan.hooks noHooks _ rfl _
  obtain ⟨t, ht, hb, h⟩ := hclassified
  rw [hsame] at hb h
  refine ⟨t, ?_, hb, h⟩
  rw [getStronglyConnectedComponents_eq, ht]
  rfl

/-- What holds of the components in any case: no two of them overlap, and
    each is a part of a class. -/
structure AreParts (g : Graph) (sccs : List (List INode)) : Prop where
  nodup : sccs.flatten.Nodup
  parts : ∀ scc ∈ sccs, scc ≠ [] ∧ ∀ x ∈ scc, ∀ y ∈ scc, Mutual g.children x y

/-- **NO FAILURE**: the components are parts of classes. -/
theorem getStronglyConnectedComponents_parts (g : Graph) :
    ∃ sccs, getStronglyConnectedComponents g.graph = .ok sccs ∧ AreParts g sccs := by
  obtain ⟨t, hrun, hb, -⟩ := getStronglyConnectedComponents_run (g := g)
  exact ⟨_, hrun, (nodup_append.mp hb.nodup).2.1, hb.components⟩

/-! ## When the components are the classes -/

/-- Every node is in exactly one of the sets, and two nodes are in the same
    one if and only if each can be reached from the other. -/
structure AreClasses (g : Graph) (sccs : List (List INode)) : Prop where
  nodes : ∀ scc ∈ sccs, scc ≠ [] ∧ scc ⊆ g.nodes
  once : ∀ v ∈ g.nodes, sccs.countP (v ∈ ·) = 1
  same : ∀ v ∈ g.nodes, ∀ w ∈ g.nodes, (∃ scc ∈ sccs, v ∈ scc ∧ w ∈ scc) ↔ Mutual g.children v w

/-- From every node some way leads to the node of its class that a
    depth-first search sees first, and the search leaves the connections of
    the way in the order opposite to the way's. -/
def ChainsToEntries (g : Graph) : Prop :=
  ∀ v ∈ g.nodes, ∀ r, IsEntry g.children (searchNodes g).seen v r →
    ∃ steps, steps.Sublist (searchNodes g).left ∧ Steps steps v r

theorem countP_mem_of_nodup {α : Type} [DecidableEq α] {l : List (List α)}
    {x : α} (h : l.flatten.Nodup) :
    l.countP (x ∈ ·) = if x ∈ l.flatten then 1 else 0 := by
  induction l with
  | nil => rfl
  | cons a rest ih =>
    obtain ⟨-, hrest, hdisjoint⟩ := nodup_append.mp h
    rw [countP_cons, ih hrest, flatten_cons]
    by_cases ha : x ∈ a
    · have hnot : x ∉ rest.flatten := fun hmem =>
        hdisjoint x ha x hmem rfl
      simp [ha, hnot]
    · simp [ha]

theorem Exact.areClasses {t : Tarjan} (h : Exact g [] (searchNodes g) t)
    (hb : Base g (searchNodes g) t) :
    AreClasses g t.stronglyConnectedComponents := by
  have hempty : t.stack = [] := by
    refine eq_nil_iff_forall_not_mem.mpr fun y hy => ?_
    obtain ⟨-, u, hu, -⟩ := (h.stack y).mp hy
    cases hu
  have hmem : ∀ v, v ∈ t.stronglyConnectedComponents.flatten ↔ v ∈ g.nodes := by
    intro v
    rw [← mem_searchNodes, ← hb.mem v, hempty, nil_append]
  have hnodup := (nodup_append.mp hb.nodup).2.1
  refine ⟨fun scc hscc => ⟨(hb.components scc hscc).1, fun v hv =>
    (hmem v).mp (mem_flatten_of_mem hscc hv)⟩, ?_, ?_⟩
  · intro v hv
    rw [countP_mem_of_nodup hnodup, if_pos ((hmem v).mpr hv)]
  · intro v hv w hw
    constructor
    · rintro ⟨scc, hscc, hvs, hws⟩
      exact (hb.components scc hscc).2 v hvs w hws
    · intro hvw
      obtain ⟨scc, hscc, hvs⟩ := mem_flatten.mp ((hmem v).mpr hv)
      exact ⟨scc, hscc, hvs, h.whole scc hscc v hvs w hvw⟩

theorem Stuck.not_areClasses {t : Tarjan} {y : INode}
    (h : Stuck g [] (searchNodes g) t y) (hb : Base g (searchNodes g) t) :
    ¬ AreClasses g t.stronglyConnectedComponents := by
  intro hclasses
  have hy : y ∈ g.nodes := mem_searchNodes.mp (hb.of_stack h.stack)
  have hcount := hclasses.once y hy
  obtain ⟨-, hnodup, hdisjoint⟩ := nodup_append.mp hb.nodup
  rw [countP_mem_of_nodup hnodup, if_neg fun hmem => hdisjoint y h.stack y hmem rfl] at hcount
  cases hcount

theorem getStronglyConnectedComponents_classes (hchains : ChainsToEntries g) :
    ∃ sccs, getStronglyConnectedComponents g.graph = .ok sccs ∧ AreClasses g sccs := by
  obtain ⟨t, hrun, hb, h⟩ := getStronglyConnectedComponents_run (g := g)
  rcases h with h | ⟨y, h⟩
  · exact ⟨_, hrun, h.areClasses hb⟩
  · obtain ⟨r, hr, hchain⟩ := h.chainless
    exact absurd (chain_iff.mpr (hchains y (mem_searchNodes.mp (hb.of_stack h.stack)) r hr)) hchain

/-- **WHEN THE COMPONENTS ARE THE CLASSES**: exactly if the search leaves
    some way to the entry of its class from every node, the last connection
    first. -/
theorem areComponents_iff (g : Graph) : (∃ sccs, getStronglyConnectedComponents g.graph = .ok sccs
      ∧ AreClasses g sccs) ↔ ChainsToEntries g := by
  refine ⟨?_, getStronglyConnectedComponents_classes⟩
  rintro ⟨sccs, hok, hclasses⟩
  obtain ⟨t, hrun, hb, h⟩ := getStronglyConnectedComponents_run (g := g)
  rw [hrun] at hok
  cases hok
  rcases h with h | ⟨y, h⟩
  · intro v hv r hr
    exact chain_iff.mp (h.chained v (mem_searchNodes.mpr hv) (fun u hu => by cases hu) r hr)
  · exact absurd hclasses (h.not_areClasses hb)

/-- A loop of the first and the second node, and a loop of the second and the
    third; the second node leads to the third one first. -/
def twoLoops : Graph :=
  .of [⟨1, "trigger"⟩, ⟨2, "node1"⟩, ⟨3, "node2"⟩, ⟨4, "node3"⟩]
    [⟨⟨1, "trigger"⟩, ⟨2, "node1"⟩, .main, 0, 0⟩, ⟨⟨2, "node1"⟩, ⟨3, "node2"⟩, .main, 0, 0⟩,
      ⟨⟨3, "node2"⟩, ⟨4, "node3"⟩, .main, 0, 0⟩, ⟨⟨4, "node3"⟩, ⟨3, "node2"⟩, .main, 0, 0⟩,
      ⟨⟨3, "node2"⟩, ⟨2, "node1"⟩, .main, 1, 0⟩] (by decide)

/-- The third node gets the id of the second one, and stays on top of the
    stack. -/
theorem twoLoops_components :
    getStronglyConnectedComponents twoLoops.graph = .ok []
      ∧ ¬ ∃ sccs, getStronglyConnectedComponents twoLoops.graph = .ok sccs
        ∧ AreClasses twoLoops sccs := by
  have hrun : getStronglyConnectedComponents twoLoops.graph = .ok [] := by
    decide
  refine ⟨hrun, ?_⟩
  rintro ⟨sccs, hok, hclasses⟩
  cases hrun.symm.trans hok
  have honce := hclasses.once ⟨1, "trigger"⟩ (by decide)
  exact absurd honce (by decide)

end N8nComponentClasses
