import N8n.DepthFirstProofs
import N8n.DirectedGraphProofs

/-! # The highest node — ancestors without parents

    `getHighestNode` walks up the main connections, depth first, and keeps
    one list of checked nodes for all branches.  A node whose parents were
    all checked before comes back with nothing, just as a node without
    parents does, and is taken for one.

    The checked nodes are those of a depth-first search along the inner
    connections (`highestNodes_spec`, by induction on the depth and then
    over the parents); what is returned are the nodes that were stuck.  So
    the roots are returned exactly where no node with parents gets stuck
    (`getHighestNode_roots_iff`). -/

namespace N8nHighestNode

open Relation N8nOrderedMap List
open N8nWorkflow (IConnections NodeInputConnections)
open N8nDirectedGraph (objectPrototype)
open N8nDepthFirst (visit prefix_visit unseen length_unseen_le
  length_unseen_lt)

/-! ## The walk -/

/-- A node; its field `disabled` may be absent. -/
structure Node where
  disabled : Option Bool

structure Workflow where
  nodes : OrderedMap String Node
  connectionsByDestinationNode : IConnections

inductive WorkflowError where
  | typeError
deriving DecidableEq

variable (w : Workflow)

/-- `this.nodes[nodeName].disabled`. -/
def disabled (nodeName : String) : Option Bool := (w.nodes.get? nodeName).bind Node.disabled

/-- `nodeName in this.nodes`: inherited names are in it as well. -/
def inNodes (nodeName : String) : Bool := w.nodes.has nodeName || objectPrototype.contains nodeName

def mainInputs (nodeName : String) : Option NodeInputConnections :=
  (w.connectionsByDestinationNode.get? nodeName).bind fun byType =>
    byType.get? .main

/-- The nodes connected to the inputs, in the order of the inputs; all of
    them, or those at one input. -/
def sources (inputs : NodeInputConnections) (nodeConnectionIndex : Option Nat) : List String :=
  inputs.zipIdx.flatMap fun p =>
    if nodeConnectionIndex.any fun index => index ≠ p.2 then []
    else (p.1.getD []).map fun connection => connection.node

/-- Only add if the node is not on the list already. -/
def addNew (returnNodes : List String) (name : String) : List String :=
  if name ∈ returnNodes then returnNodes else returnNodes ++ [name]

/-- The body of the loop over the connections: the nodes returned so far,
    and the checked ones. -/
def addHighest (getHighest : String → List String → List String × List String)
    (state : List String × List String) (source : String) :
    List String × List String :=
  if source ∈ state.2 then state
  else if !inNodes w source then state
  else
    let (addNodes, checkedNodes) := getHighest source state.2
    let addNodes :=
      if addNodes = [] ∧ disabled w source ≠ some true then [source]
      else addNodes
    (addNodes.foldl addNew state.1, checkedNodes)

def highestNodes : Nat → Option Nat → String → List String → List String × List String
  | 0, _, _, checkedNodes => ([], checkedNodes)
  | fuel + 1, nodeConnectionIndex, nodeName, checkedNodes =>
    let currentHighest :=
      if disabled w nodeName = some false then [nodeName] else []
    match mainInputs w nodeName with
    | none => (currentHighest, checkedNodes)
    | some inputs =>
      if nodeName ∈ checkedNodes then (currentHighest, checkedNodes)
      else
        (sources inputs nodeConnectionIndex).foldl
          (addHighest w (highestNodes fuel none)) ([], checkedNodes ++ [nodeName])

/-- The depth of the recursion: every call but the last checks a node. -/
def depth : Nat := w.connectionsByDestinationNode.keys.length + 1

/-- A node named `hasOwnProperty` hides the method that the table is asked
    with. -/
def getHighestNode (nodeName : String) (nodeConnectionIndex : Option Nat) :
    Except WorkflowError (List String) :=
  if !inNodes w nodeName then .error .typeError
  else if w.connectionsByDestinationNode.has "hasOwnProperty" then
    .error .typeError
  else .ok (highestNodes w (depth w) nodeConnectionIndex nodeName []).1

/-! ## Parents -/

/-- The nodes connected to the main inputs of a node. -/
def parents (nodeName : String) : List String :=
  (sources ((mainInputs w nodeName).getD []) none).filter (inNodes w)

/-- The parents that have an entry for main inputs themselves. -/
def innerParents (nodeName : String) : List String :=
  (parents w nodeName).filter fun name => (mainInputs w name).isSome

/-- One node is a parent of the other. -/
def Parent (n p : String) : Prop := p ∈ parents w n

/-- `a` is an ancestor of `n`. -/
abbrev Ancestor (n a : String) : Prop := TransGen (Parent w) n a

/-- The nodes with an entry for main inputs, in the order in which a
    depth-first walk from the node up the main connections finds them. -/
def walk (nodeName : String) : List String := visit (innerParents w) (depth w) [] nodeName

def ReturnsRoots (nodeName : String) : Prop :=
  ∃ returned, getHighestNode w nodeName none = .ok returned
    ∧ returned.Nodup
    ∧ ∀ a, a ∈ returned ↔ Ancestor w nodeName a ∧ parents w a = []

/-- When the walk finds the node, it has not found all its parents. -/
def HasFreshParent (walk : List String) (n : String) : Prop :=
  ∃ p ∈ parents w n, p ∉ walk.takeWhile (· ≠ n)

instance (walk : List String) (n : String) :
    Decidable (HasFreshParent w walk n) :=
  inferInstanceAs (Decidable (∃ p ∈ parents w n, p ∉ walk.takeWhile (· ≠ n)))

/-! ## Positions in a walk -/

/-- The list up to the name, and the name. -/
def upTo (l : List String) (n : String) : List String := l.takeWhile (· ≠ n) ++ [n]

/-- When the node was found, all its parents were. -/
def Stuck (l : List String) (n : String) : Prop := ∀ p ∈ parents w n, p ∈ upTo l n

variable {l : List String} {n : String}

theorem takeWhile_append_of_mem {k : List String}
    (h : n ∈ l) : (l ++ k).takeWhile (· ≠ n) = l.takeWhile (· ≠ n) := by
  induction l with
  | nil => cases h
  | cons a rest ih =>
    rw [cons_append]
    by_cases ha : a = n
    · rw [takeWhile_cons_of_neg (by simpa using ha), takeWhile_cons_of_neg (by simpa using ha)]
    · have hrest : n ∈ rest := by simpa [Ne.symm ha] using h
      rw [takeWhile_cons_of_pos (by simpa using ha),
        takeWhile_cons_of_pos (by simpa using ha), ih hrest]

theorem upTo_of_prefix {l' : List String} (h : l <+: l') (hn : n ∈ l) : upTo l' n = upTo l n := by
  obtain ⟨k, rfl⟩ := h
  rw [upTo, upTo, takeWhile_append_of_mem hn]

theorem upTo_concat (h : n ∉ l) : upTo (l ++ [n]) n = l ++ [n] := by
  rw [upTo, takeWhile_append_of_pos]
  · simp
  · intro a ha
    exact decide_eq_true fun heq => h (heq ▸ ha)

theorem stuck_extend {l' : List String} (h : l <+: l')
    (hn : n ∈ l) : Stuck w l' n ↔ Stuck w l n := by
  rw [Stuck, Stuck, upTo_of_prefix h hn]

theorem mem_foldl_addNew {names : List String} : n ∈ names.foldl addNew l ↔ n ∈ l ∨ n ∈ names := by
  induction names generalizing l with
  | nil => simp
  | cons a rest ih =>
    rw [foldl_cons, ih, addNew]
    by_cases ha : a ∈ l
    · rw [if_pos ha, mem_cons]
      constructor
      · rintro (h | h)
        · exact .inl h
        · exact .inr (.inr h)
      · rintro (h | rfl | h)
        · exact .inl h
        · exact .inl ha
        · exact .inr h
    · rw [if_neg ha]
      simp [or_assoc]

theorem nodup_foldl_addNew {names : List String} (h : l.Nodup) : (names.foldl addNew l).Nodup := by
  induction names generalizing l with
  | nil => exact h
  | cons a rest ih =>
    refine ih ?_
    rw [addNew]
    split
    · exact h
    · rename_i ha
      exact h.append (nodup_singleton a) (by simpa using ha)

/-! ## One call -/

/-- The nodes with an entry for main inputs. -/
def innerNodes : List String :=
  w.connectionsByDestinationNode.keys.filter fun name =>
    (mainInputs w name).isSome

/-- Every name of the list has an entry for main inputs. -/
def AllInner (l : List String) : Prop := ∀ z ∈ l, (mainInputs w z).isSome

theorem mem_innerNodes (h : (mainInputs w n).isSome) : n ∈ innerNodes w := by
  refine mem_filter.mpr ⟨?_, h⟩
  rw [mainInputs] at h
  cases hget : w.connectionsByDestinationNode.get? n with
  | none => rw [hget] at h; cases h
  | some byType => exact OrderedMap.mem_keys_of_get? hget

variable {fuel : Nat}

theorem allInner_visit (hl : AllInner w l) (hn : (mainInputs w n).isSome) :
    AllInner w (visit (innerParents w) fuel l n) := by
  induction fuel generalizing l n with
  | zero => exact hl
  | succ fuel ih =>
    rw [visit]
    split
    · exact hl
    · have hstart : AllInner w (l ++ [n]) := by
        intro z hz
        rcases mem_append.mp hz with hz | hz
        · exact hl z hz
        · exact mem_singleton.mp hz ▸ hn
      have hparents : AllInner w (innerParents w n) := fun z hz =>
        (mem_filter.mp hz).2
      generalize l ++ [n] = k at hstart
      generalize innerParents w n = rest at hparents
      induction rest generalizing k with
      | nil => exact hstart
      | cons p rest ihrest =>
        obtain ⟨hp, hrest⟩ := forall_mem_cons.mp hparents
        exact ihrest _ (ih hstart hp) hrest

theorem prefix_visit_of_not_mem (hn : n ∉ l) (hfuel : fuel ≠ 0) :
    l ++ [n] <+: visit (innerParents w) fuel l n := by
  cases fuel with
  | zero => exact absurd rfl hfuel
  | succ fuel =>
    rw [visit, if_neg hn]
    exact N8nDepthFirst.prefix_foldl (prefix_visit _ fuel) _ _

theorem visit_of_mem (fuel : Nat) (hn : n ∈ l) : visit (innerParents w) fuel l n = l := by
  cases fuel with
  | zero => rfl
  | succ fuel => rw [visit, if_pos hn]

/-- What a call returns: the nodes that it found stuck, and the parents
    without an entry of the nodes that it found. -/
structure Spec (seen : List String) (n : String) (found : List String)
    (r : List String × List String) : Prop where
  checked : r.2 = found
  nodup : r.1.Nodup
  nonempty : r.1 ≠ [] ↔ ∃ p ∈ parents w n, p ∉ seen ++ [n]
  mem : ∀ y, y ∈ r.1
    ↔ (y ∈ found ∧ y ∉ seen ++ [n] ∧ Stuck w found y)
      ∨ (mainInputs w y = none ∧ ∃ z ∈ found, z ∉ seen ∧ y ∈ parents w z)

/-- The same in the loop over the parents, after some of them. -/
structure PartSpec (start done found : List String)
    (r : List String × List String) : Prop where
  checked : r.2 = found
  nodup : r.1.Nodup
  inner : AllInner w found
  grows : start <+: found
  same : (∀ p ∈ done, p ∈ start) → found = start
  nonempty : r.1 ≠ [] ↔ ∃ p ∈ done, p ∉ start
  mem : ∀ y, y ∈ r.1
    ↔ (y ∈ found ∧ y ∉ start ∧ Stuck w found y)
      ∨ (mainInputs w y = none ∧ (y ∈ done ∨ ∃ z ∈ found, z ∉ start ∧ y ∈ parents w z))

variable {w}

variable {p : String}

theorem exists_mem_concat {P : String → Prop} : (∃ q ∈ l ++ [p], P q) ↔ (∃ q ∈ l, P q) ∨ P p := by
  simp only [mem_append, mem_singleton]
  constructor
  · rintro ⟨q, hq | rfl, hP⟩
    · exact .inl ⟨q, hq, hP⟩
    · exact .inr hP
  · rintro (⟨q, hq, hP⟩ | hP)
    · exact ⟨q, .inl hq, hP⟩
    · exact ⟨p, .inr rfl, hP⟩

variable {done found start : List String} {r : List String × List String}

section

variable (h : PartSpec w start done found r)
include h

theorem PartSpec.skip (hp : p ∈ found) : PartSpec w start (done ++ [p]) found r := by
  have hinner := h.inner p hp
  refine ⟨h.checked, h.nodup, h.inner, h.grows, fun hall => ?_, ?_, ?_⟩
  · exact h.same fun q hq => hall q (mem_append_left _ hq)
  · rw [h.nonempty, exists_mem_concat]
    refine ⟨.inl, ?_⟩
    rintro (hdone | hnew)
    · exact hdone
    · refine Classical.by_contradiction fun hnone => ?_
      have hall : ∀ q ∈ done, q ∈ start := by
        intro q hq
        refine Classical.by_contradiction fun hnot => ?_
        exact hnone ⟨q, hq, hnot⟩
      exact hnew (h.same hall ▸ hp)
  · intro y
    rw [h.mem y]
    refine or_congr_right (and_congr_right fun hy => or_congr_left ?_)
    rw [mem_append, mem_singleton]
    refine ⟨.inl, ?_⟩
    rintro (hdone | rfl)
    · exact hdone
    · rw [hy] at hinner
      cases hinner

theorem PartSpec.root (hp : mainInputs w p = none) :
    PartSpec w start (done ++ [p]) found ([p].foldl addNew r.1, found) := by
  have hpstart : p ∉ start := by
    intro hmem
    have hinner := h.inner p (h.grows.subset hmem)
    rw [hp] at hinner
    cases hinner
  refine ⟨rfl, nodup_foldl_addNew h.nodup, h.inner, h.grows, fun hall => ?_, ?_, ?_⟩
  · exact absurd (hall p (by simp)) hpstart
  · refine iff_of_true (fun hnil => ?_) ⟨p, by simp, hpstart⟩
    have hmem : p ∈ [p].foldl addNew r.1 := mem_foldl_addNew.mpr (by simp)
    rw [show [p].foldl addNew r.1 = [] from hnil] at hmem
    cases hmem
  · intro y
    rw [mem_foldl_addNew, h.mem y, mem_singleton, mem_append, mem_singleton]
    constructor
    · rintro ((hstuck | ⟨hy, hdone | hparent⟩) | rfl)
      · exact .inl hstuck
      · exact .inr ⟨hy, .inl (.inl hdone)⟩
      · exact .inr ⟨hy, .inr hparent⟩
      · exact .inr ⟨hp, .inl (.inr rfl)⟩
    · rintro (hstuck | ⟨hy, (hdone | rfl) | hparent⟩)
      · exact .inl (.inl hstuck)
      · exact .inl (.inr ⟨hy, .inl hdone⟩)
      · exact .inr rfl
      · exact .inl (.inr ⟨hy, .inr hparent⟩)

/-- A parent with an entry that is not checked is walked up from. -/
theorem PartSpec.step {found' : List String} {a : List String × List String}
    (hinner : (mainInputs w p).isSome) (hp : p ∉ found) (hfound' : AllInner w found')
    (hgrows : found ++ [p] <+: found') (hspec : Spec w found p found' a) :
    PartSpec w start (done ++ [p]) found'
      ((if a.1 = [] then [p] else a.1).foldl addNew r.1, found') := by
  have hfound : found <+: found' := (prefix_append ..).trans hgrows
  have hpstart : p ∉ start := fun hmem => hp (h.grows.subset hmem)
  have hpmem : p ∈ found' := hgrows.subset (by simp)
  have hempty : a.1 = [] ↔ Stuck w found' p := by
    rw [← not_iff_not, ← ne_eq, hspec.nonempty,
      stuck_extend w hgrows (by simp), Stuck, upTo_concat hp]
    simp
  have hadd (y : String) : y ∈ (if a.1 = [] then [p] else a.1) ↔ (a.1 = [] ∧ y = p) ∨ y ∈ a.1 := by
    split
    · rename_i hnil
      simp [hnil]
    · rename_i hnil
      simp [hnil]
  refine ⟨rfl, nodup_foldl_addNew h.nodup, hfound', h.grows.trans hfound,
    fun hall => ?_, ?_, fun y => ?_⟩
  · exact absurd (hall p (by simp)) hpstart
  · refine iff_of_true (fun hnil => ?_) ⟨p, by simp, hpstart⟩
    have hnone (y : String) : ¬ ((a.1 = [] ∧ y = p) ∨ y ∈ a.1) := by
      rw [← hadd y]
      intro hy
      have hmem : y ∈ _ := mem_foldl_addNew.mpr (.inr hy : y ∈ r.1 ∨ _)
      rw [show (if a.1 = [] then [p] else a.1).foldl addNew r.1 = [] from hnil] at hmem
      cases hmem
    by_cases ha : a.1 = []
    · exact hnone p (.inl ⟨ha, rfl⟩)
    · obtain ⟨y, hy⟩ := exists_mem_of_ne_nil _ ha
      exact hnone y (.inr hy)
  · rw [mem_foldl_addNew, hadd, h.mem y, hspec.mem y]
    constructor
    · rintro ((⟨hy, hstart, hstuck⟩ | ⟨hy, hdone | ⟨z, hz, hzs, hzy⟩⟩)
        | (⟨hnil, rfl⟩ | ⟨hy, hnew, hstuck⟩ | ⟨hy, z, hz, hzs, hzy⟩))
      · exact .inl ⟨hfound.subset hy, hstart, (stuck_extend w hfound hy).mpr hstuck⟩
      · exact .inr ⟨hy, .inl (mem_append_left _ hdone)⟩
      · exact .inr ⟨hy, .inr ⟨z, hfound.subset hz, hzs, hzy⟩⟩
      · exact .inl ⟨hpmem, hpstart, hempty.mp hnil⟩
      · exact .inl ⟨hy, fun hmem => hnew (mem_append_left _ (h.grows.subset hmem)), hstuck⟩
      · exact .inr ⟨hy, .inr ⟨z, hz, fun hmem => hzs (h.grows.subset hmem), hzy⟩⟩
    · rintro (⟨hy, hstart, hstuck⟩ | ⟨hy, hdone | ⟨z, hz, hzs, hzy⟩⟩)
      · by_cases hyf : y ∈ found
        · exact .inl (.inl ⟨hyf, hstart, (stuck_extend w hfound hyf).mp hstuck⟩)
        · by_cases hyp : y = p
          · subst hyp
            exact .inr (.inl ⟨hempty.mpr hstuck, rfl⟩)
          · refine .inr (.inr (.inl ⟨hy, ?_, hstuck⟩))
            simp [hyf, hyp]
      · rcases mem_append.mp hdone with hdone | hlast
        · exact .inl (.inr ⟨hy, .inl hdone⟩)
        · rw [mem_singleton.mp hlast] at hy
          rw [hy] at hinner
          cases hinner
      · by_cases hzf : z ∈ found
        · exact .inl (.inr ⟨hy, .inr ⟨z, hzf, hzs, hzy⟩⟩)
        · exact .inr (.inr (.inr ⟨hy, z, hz, hzf, hzy⟩))

end

/-- No node is disabled. -/
def Enabled (w : Workflow) : Prop :=
  ∀ name node, w.nodes.get? name = some node → node.disabled ≠ some true

theorem Enabled.ne (h : Enabled w) (name : String) : disabled w name ≠ some true := by
  rw [disabled]
  cases hget : w.nodes.get? name with
  | none => simp
  | some node => exact h name node hget

theorem highestNodes_root (hp : mainInputs w p = none) (fuel : Nat) (seen : List String) :
    (highestNodes w fuel none p seen).2 = seen
      ∧ ((highestNodes w fuel none p seen).1 = [] ∨ (highestNodes w fuel none p seen).1 = [p]) := by
  cases fuel with
  | zero => exact ⟨rfl, .inl rfl⟩
  | succ fuel =>
    rw [highestNodes, hp]
    dsimp only
    refine ⟨rfl, ?_⟩
    split
    · exact .inr rfl
    · exact .inl rfl

/-- What the search has found after these parents. -/
def foundAfter (w : Workflow) (fuel : Nat) (found : List String)
    (names : List String) : List String :=
  (names.filter fun name => (mainInputs w name).isSome).foldl (visit (innerParents w) fuel) found

theorem foundAfter_inner (hp : (mainInputs w p).isSome) (fuel : Nat) (found : List String) :
    foundAfter w fuel found [p] = visit (innerParents w) fuel found p := by
  simp [foundAfter, hp]

theorem foundAfter_root (hp : mainInputs w p = none) (fuel : Nat) (found : List String) :
    foundAfter w fuel found [p] = found := by
  simp [foundAfter, hp]

/-- One turn of the loop over the parents. -/
theorem PartSpec.turn (henabled : Enabled w) (h : PartSpec w start done found r)
    (hnode : inNodes w p = true) (hfuel : (mainInputs w p).isSome → p ∉ found → fuel ≠ 0)
    (hspec : (mainInputs w p).isSome → p ∉ found →
      Spec w found p (visit (innerParents w) fuel found p) (highestNodes w fuel none p found)) :
    PartSpec w start (done ++ [p]) (foundAfter w fuel found [p])
      (addHighest w (highestNodes w fuel none) r p) := by
  have hchecked := h.checked
  rw [addHighest, hchecked]
  by_cases hp : p ∈ found
  · rw [if_pos hp, foundAfter_inner (h.inner p hp), visit_of_mem w fuel hp]
    exact h.skip hp
  · rw [if_neg hp, hnode]
    cases hinput : mainInputs w p with
    | none =>
      obtain ⟨hseen, hreturned⟩ := highestNodes_root hinput fuel found
      have hadd : (if (highestNodes w fuel none p found).1 = []
          ∧ disabled w p ≠ some true then [p]
          else (highestNodes w fuel none p found).1) = [p] := by
        rcases hreturned with hnil | hone
        · rw [if_pos ⟨hnil, henabled.ne p⟩]
        · rw [if_neg (by simp [hone]), hone]
      have hroot := h.root hinput
      rw [foundAfter_root hinput, if_neg (by simp)]
      dsimp only
      rw [hadd, hseen]
      exact hroot
    | some inputs =>
      have hinner : (mainInputs w p).isSome := by rw [hinput]; rfl
      have hstep := h.step hinner hp (allInner_visit w h.inner hinner)
        (prefix_visit_of_not_mem w hp (hfuel hinner hp)) (hspec hinner hp)
      have hadd : (if (highestNodes w fuel none p found).1 = []
          ∧ disabled w p ≠ some true then [p]
          else (highestNodes w fuel none p found).1)
          = if (highestNodes w fuel none p found).1 = [] then [p]
            else (highestNodes w fuel none p found).1 := by
        by_cases hnil : (highestNodes w fuel none p found).1 = []
        · rw [if_pos ⟨hnil, henabled.ne p⟩, if_pos hnil]
        · rw [if_neg (fun hand => hnil hand.1), if_neg hnil]
      rw [foundAfter_inner hinner, if_neg (by simp)]
      dsimp only
      rw [hadd, (hspec hinner hp).checked]
      exact hstep

theorem foldl_addHighest_filter (getHighest : String → List String → List String × List String)
    (r : List String × List String) (names : List String) :
    names.foldl (addHighest w getHighest) r
      = (names.filter (inNodes w)).foldl (addHighest w getHighest) r := by
  induction names generalizing r with
  | nil => rfl
  | cons p rest ih =>
    rw [foldl_cons]
    by_cases hp : inNodes w p = true
    · rw [filter_cons_of_pos hp, foldl_cons, ih]
    · rw [filter_cons_of_neg hp, ih, addHighest]
      simp [hp]

theorem foundAfter_concat (fuel : Nat) (found names : List String) (p : String) :
    foundAfter w fuel found (names ++ [p])
      = foundAfter w fuel (foundAfter w fuel found names) [p] := by
  rw [foundAfter, filter_append, foldl_append]
  rfl

theorem length_unseen_pos {seen : List String} (hp : (mainInputs w p).isSome) (hnew : p ∉ seen) :
    (unseen (innerNodes w) seen).length ≠ 0 := by
  intro hzero
  have hmem : p ∈ unseen (innerNodes w) seen :=
    mem_filter.mpr ⟨mem_innerNodes w hp, decide_eq_true hnew⟩
  rw [length_eq_zero_iff.mp hzero] at hmem
  cases hmem

/-- **ONE CALL** follows the depth-first search, and returns what was stuck
    in it and the parents without an entry. -/
theorem highestNodes_spec (henabled : Enabled w)
    {seen : List String} (hn : (mainInputs w n).isSome) (hnew : n ∉ seen)
    (hseen : AllInner w seen)
    (hfuel : (unseen (innerNodes w) seen).length ≤ fuel) :
    Spec w seen n (visit (innerParents w) fuel seen n) (highestNodes w fuel none n seen) := by
  induction fuel generalizing n seen with
  | zero => exact absurd (Nat.le_zero.mp hfuel) (length_unseen_pos hn hnew)
  | succ fuel ih =>
    obtain ⟨inputs, hinputs⟩ := Option.isSome_iff_exists.mp hn
    have hparents : parents w n = (sources inputs none).filter (inNodes w) := by
      rw [parents, hinputs]
      rfl
    rw [visit, if_neg hnew, highestNodes, hinputs]
    dsimp only
    rw [if_neg hnew, foldl_addHighest_filter, ← hparents]
    have hstart : AllInner w (seen ++ [n]) := by
      intro z hz
      rcases mem_append.mp hz with hz | hz
      · exact hseen z hz
      · exact mem_singleton.mp hz ▸ hn
    -- the loop over the parents, by induction on its end
    have hloop (done : List String) (hdone : ∀ p ∈ done, inNodes w p = true) :
        PartSpec w (seen ++ [n]) done (foundAfter w fuel (seen ++ [n]) done)
          (done.foldl (addHighest w (highestNodes w fuel none)) ([], seen ++ [n])) := by
      induction done using List.reverseRecOn with
      | nil =>
        refine ⟨rfl, nodup_nil, hstart, prefix_rfl, fun _ => rfl, by simp, fun y => ?_⟩
        refine iff_of_false (fun hy => by cases hy) ?_
        rintro (⟨hy, hyn, -⟩ | ⟨-, hy | ⟨z, hz, hzn, -⟩⟩)
        · exact hyn hy
        · cases hy
        · exact hzn hz
      | append_singleton done p ihdone =>
        have hpart := ihdone fun q hq =>
          hdone q (mem_append_left _ hq)
        have hless (hinner : (mainInputs w p).isSome) :=
          length_unseen_lt (mem_innerNodes w hn) hnew hpart.grows
        have hle : (mainInputs w p).isSome →
            (unseen (innerNodes w) (foundAfter w fuel (seen ++ [n]) done)).length ≤ fuel :=
          fun hinner => by have := hless hinner; omega
        rw [foundAfter_concat, foldl_concat]
        refine hpart.turn henabled (hdone p (by simp)) ?_ ?_
        · intro hinner hp hzero
          exact length_unseen_pos hinner hp (Nat.le_zero.mp (hzero ▸ hle hinner))
        · intro hinner hp
          exact ih hinner hp hpart.inner (hle hinner)
    have hpart := hloop (parents w n) fun p hp => (mem_filter.mp hp).2
    have hfound : foundAfter w fuel (seen ++ [n]) (parents w n)
        = (innerParents w n).foldl (visit (innerParents w) fuel) (seen ++ [n]) := rfl
    refine ⟨hpart.checked, hpart.nodup, hpart.nonempty, fun y => ?_⟩
    rw [hpart.mem y]
    refine or_congr_right (and_congr_right fun _ => ?_)
    constructor
    · rintro (hy | ⟨z, hz, hzn, hzy⟩)
      · exact ⟨n, hpart.grows.subset (by simp), hnew, hy⟩
      · exact ⟨z, hz, fun hmem => hzn (mem_append_left _ hmem), hzy⟩
    · rintro ⟨z, hz, hzn, hzy⟩
      by_cases hzeq : z = n
      · exact .inl (hzeq ▸ hzy)
      · exact .inr ⟨z, hz, by simp [hzn, hzeq], hzy⟩

/-! ## Ancestors -/

theorem isSome_of_parents (h : parents w n ≠ []) : (mainInputs w n).isSome := by
  cases hinputs : mainInputs w n with
  | some inputs => rfl
  | none =>
    rw [parents, hinputs] at h
    exact absurd rfl h

theorem closed_innerNodes : N8nDepthFirst.Closed (innerParents w) (innerNodes w) :=
  fun _ _ _ hc => mem_innerNodes w (mem_filter.mp hc).2

variable {y : String}

section

variable (hn : (mainInputs w n).isSome)
include hn

theorem mem_walk : y ∈ walk w n ↔ N8nDepthFirst.Reach (innerParents w) n y := by
  have hdepth : (innerNodes w).length < depth w := Nat.lt_succ_of_le (length_filter_le ..)
  have hroots : [n] ⊆ innerNodes w := by simpa using mem_innerNodes w hn
  have hmem := N8nDepthFirst.mem_visitAll closed_innerNodes hroots hdepth (y := y)
  rw [foldl_cons, foldl_nil] at hmem
  rw [walk, hmem]
  simp

theorem mem_walk_self : n ∈ walk w n := (mem_walk hn).mpr .refl

theorem ancestor_of_mem_walk (hy : y ∈ walk w n) : y = n ∨ Ancestor w n y := by
  have hreach : ReflTransGen (Parent w) n y :=
    ReflTransGen.mono (r := N8nDepthFirst.Edge (innerParents w))
      (fun _ _ h => (mem_filter.mp h).1) _ _ ((mem_walk hn).mp hy)
  rcases reflTransGen_iff_eq_or_transGen.mp hreach with heq | htrans
  · exact .inl heq
  · exact .inr htrans

theorem exists_mem_walk (hy : Ancestor w n y) : ∃ z ∈ walk w n, y ∈ parents w z := by
  induction hy with
  | single h => exact ⟨n, mem_walk_self hn, h⟩
  | @tail b c _ hbc ih =>
    obtain ⟨z, hz, hzb⟩ := ih
    refine ⟨b, (mem_walk hn).mpr (((mem_walk hn).mp hz).tail ?_), hbc⟩
    exact mem_filter.mpr ⟨hzb, isSome_of_parents (ne_nil_of_mem hbc)⟩

end

theorem stuck_iff (hacyclic : ∀ n, ¬ Ancestor w n n) (l : List String)
    (n : String) : Stuck w l n ↔ ¬ HasFreshParent w l n := by
  constructor
  · rintro hstuck ⟨p, hp, hfresh⟩
    rcases mem_append.mp (hstuck p hp) with hmem | hmem
    · exact hfresh hmem
    · rw [mem_singleton.mp hmem] at hp
      exact hacyclic n (.single hp)
  · intro hnone p hp
    refine Classical.by_contradiction fun hnot => hnone ⟨p, hp, fun hmem => ?_⟩
    exact hnot (mem_append_left _ hmem)

theorem hasFreshParent_self (h : parents w n ≠ []) : HasFreshParent w (walk w n) n := by
  obtain ⟨p, hp⟩ := exists_mem_of_ne_nil _ h
  refine ⟨p, hp, ?_⟩
  have hgrows : [] ++ [n] <+: walk w n := prefix_visit_of_not_mem w (by simp) (Nat.succ_ne_zero _)
  obtain ⟨rest, hrest⟩ := hgrows
  rw [← hrest]
  simp

/-- **THE ROOTS** are returned exactly where every node with parents has one
    that the walk has not found before. -/
theorem getHighestNode_roots_iff (hacyclic : ∀ n, ¬ Ancestor w n n) (henabled : Enabled w)
    (n : String) (hnode : w.nodes.has n = true) (hparent : parents w n ≠ []) :
    ReturnsRoots w n
      ↔ w.connectionsByDestinationNode.has "hasOwnProperty" = false
        ∧ ∀ x ∈ walk w n, parents w x ≠ [] → HasFreshParent w (walk w n) x := by
  have hn := isSome_of_parents hparent
  have hfuel : (unseen (innerNodes w) []).length ≤ depth w :=
    Nat.le_trans (length_filter_le ..) (Nat.le_succ_of_le (length_filter_le ..))
  have hspec : Spec w [] n (walk w n) (highestNodes w (depth w) none n []) :=
    highestNodes_spec henabled hn (by simp) (fun z hz => by cases hz) hfuel
  have hfound : getHighestNode w n none
      = if w.connectionsByDestinationNode.has "hasOwnProperty" then
          .error .typeError
        else .ok (highestNodes w (depth w) none n []).1 := by
    rw [getHighestNode, inNodes, hnode]
    rfl
  constructor
  · rintro ⟨returned, hreturned, -, hroots⟩
    rw [hfound] at hreturned
    cases hown : w.connectionsByDestinationNode.has "hasOwnProperty" with
    | true =>
      rw [hown] at hreturned
      cases hreturned
    | false =>
      rw [hown] at hreturned
      obtain rfl : (highestNodes w (depth w) none n []).1 = returned := Except.ok.inj hreturned
      refine ⟨rfl, fun x hx hxparent => ?_⟩
      refine Classical.by_contradiction fun hfresh => ?_
      have hne : x ≠ n := by
        rintro rfl
        exact hfresh (hasFreshParent_self hparent)
      have hmem := (hspec.mem x).mpr
        (.inl ⟨hx, by simpa using hne, (stuck_iff hacyclic _ x).mpr hfresh⟩)
      exact hxparent ((hroots x).mp hmem).2
  · rintro ⟨hown, hfresh⟩
    rw [hown] at hfound
    refine ⟨_, hfound, hspec.nodup, fun a => ?_⟩
    rw [hspec.mem a]
    constructor
    · rintro (⟨ha, hne, hstuck⟩ | ⟨hnone, z, hz, -, hza⟩)
      · refine ⟨(ancestor_of_mem_walk hn ha).resolve_left (by simpa using hne),
          Classical.by_contradiction fun haparent => ?_⟩
        exact (stuck_iff hacyclic _ a).mp hstuck (hfresh a ha haparent)
      · refine ⟨?_, Classical.by_contradiction fun haparent => ?_⟩
        · rcases ancestor_of_mem_walk hn hz with heq | htrans
          · exact .single (heq ▸ hza)
          · exact htrans.tail hza
        · have hsome := isSome_of_parents haparent
          rw [hnone] at hsome
          cases hsome
    · rintro ⟨hancestor, hroot⟩
      obtain ⟨z, hz, hza⟩ := exists_mem_walk hn hancestor
      cases hinputs : mainInputs w a with
      | none => exact .inr ⟨rfl, z, hz, by simp, hza⟩
      | some inputs =>
        refine .inl ⟨?_, ?_, fun p hp => ?_⟩
        · refine (mem_walk hn).mpr (((mem_walk hn).mp hz).tail ?_)
          exact mem_filter.mpr ⟨hza, by rw [hinputs]; rfl⟩
        · intro hmem
          exact hparent (mem_singleton.mp hmem ▸ hroot)
        · rw [hroot] at hp
          cases hp

/-! ## Two workflows -/

theorem parents_eq_nil (h : n ∉ w.connectionsByDestinationNode.keys) : parents w n = [] := by
  have hget : w.connectionsByDestinationNode.get? n = none := OrderedMap.get?_eq_none.mpr h
  rw [parents, mainInputs, hget]
  rfl

theorem acyclic_of_order (order : List String)
    (h : ∀ n ∈ w.connectionsByDestinationNode.keys, ∀ p ∈ parents w n,
      order.idxOf p < order.idxOf n) (n : String) : ¬ Ancestor w n n := by
  have hless {a b : String} (hab : Ancestor w a b) :
      order.idxOf b < order.idxOf a := by
    have hstep {a b : String} (hab : b ∈ parents w a) :
        order.idxOf b < order.idxOf a := by
      by_cases ha : a ∈ w.connectionsByDestinationNode.keys
      · exact h a ha b hab
      · rw [parents_eq_nil ha] at hab
        cases hab
    induction hab with
    | single hab => exact hstep hab
    | tail _ hbc ih => exact Nat.lt_trans (hstep hbc) ih
  exact fun hn => Nat.lt_irrefl _ (hless hn)

/-- The table in which these nodes have these parents, at one input. -/
def tableOf (entries : List (String × List String))
    (h : (entries.map Prod.fst).Nodup) : IConnections :=
  ⟨entries.map fun e => (e.1, OrderedMap.empty.set .main
    [some (e.2.map fun name => ⟨name, .main, 0⟩)]), by
      rw [List.map_map]
      exact h⟩

def nodesOf (names : List String) (h : names.Nodup) : OrderedMap String Node :=
  ⟨names.map fun name => (name, { disabled := none }), by
    rw [List.map_map]
    exact (congrArg List.Nodup (List.map_id names)).mpr h⟩

theorem enabled_nodesOf {w : Workflow} (names : List String)
    (h : names.Nodup) (hw : w.nodes = nodesOf names h) : Enabled w := by
  intro name node hget
  rw [hw, OrderedMap.get?_eq_some] at hget
  obtain ⟨_, -, heq⟩ := mem_map.mp hget
  cases heq
  simp

/-- Two nodes below a root, joined by a third. -/
def diamond : Workflow where
  nodes := nodesOf ["r", "b", "c", "d"] (by decide)
  connectionsByDestinationNode :=
    tableOf [("b", ["r"]), ("c", ["r"]), ("d", ["b", "c"])] (by decide)

theorem diamond_acyclic (n : String) : ¬ Ancestor diamond n n :=
  acyclic_of_order ["r", "b", "c", "d"] (by decide +kernel) n

/-- A diamond below the root itself. -/
theorem diamond_returnsRoots : ReturnsRoots diamond "d" :=
  (getHighestNode_roots_iff diamond_acyclic
    (enabled_nodesOf _ (by decide) rfl) "d" (by decide +kernel) (by decide +kernel)).mpr
    ⟨by decide +kernel, by decide +kernel⟩

/-- The same below a node with a parent. -/
def lowDiamond : Workflow where
  nodes := nodesOf ["r", "a", "b", "c", "d"] (by decide)
  connectionsByDestinationNode :=
    tableOf [("a", ["r"]), ("b", ["a"]), ("c", ["a"]), ("d", ["b", "c"])] (by decide)

theorem lowDiamond_acyclic (n : String) : ¬ Ancestor lowDiamond n n :=
  acyclic_of_order ["r", "a", "b", "c", "d"] (by decide +kernel) n

/-- Of `d`, the root and `c` are returned. -/
theorem not_returnsRoots :
    ¬ ∀ w : Workflow, (∀ n, ¬ Ancestor w n n) → Enabled w →
      ∀ n, w.nodes.has n = true → parents w n ≠ [] → ReturnsRoots w n := by
  intro h
  obtain ⟨returned, hreturned, -, hroots⟩ := h lowDiamond lowDiamond_acyclic
    (enabled_nodesOf _ (by decide) rfl) "d" (by decide +kernel) (by decide +kernel)
  have heq : getHighestNode lowDiamond "d" none = .ok ["r", "c"] := by
    decide +kernel
  rw [heq] at hreturned
  obtain rfl := Except.ok.inj hreturned
  have hc := ((hroots "c").mp (by simp)).2
  exact absurd hc (by decide +kernel)

end N8nHighestNode
