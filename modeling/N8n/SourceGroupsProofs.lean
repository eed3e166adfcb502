import N8n.PartialExecutionProofs
import N8n.AscentProofs

/-! # Groups of sources — how many there are, and what is made of them

    `getSourceDataGroups` sorts the connections into a node into groups, and
    `recreateNodeExecutionStack` makes a stack entry of every group that is
    complete.

    A group ends where no connection is left to the next input.
    `getSourceDataGroups_iff` shows that there are as many groups as
    connections to one input, and no more, exactly when no input has fewer
    connections than one before and one after it. -/

namespace N8nSourceGroups

open N8nExcept N8nOrderedMap N8nWorkflow N8nWorkflowExecute List
open N8nPartialExecution N8nAscent

variable {P V : Type}

/-! ## The loop without fuel -/

/-- What the loop of `getSourceDataGroups` returns. -/
inductive Loop : Nat → List (GraphConnection P) → List (GraphConnection P) →
    SourceConnectionGroup P → List (SourceConnectionGroup P) → Prop
  | done (i : Nat) (group : SourceConnectionGroup P) : Loop i [] [] group [group]
  | withData {i : Nat} {withData withoutData : List (GraphConnection P)}
      {group : SourceConnectionGroup P} {c : GraphConnection P}
      {groups : List (SourceConnectionGroup P)}
      (hfind : withData.find? (toInput i) = some c)
      (rest : Loop (i + 1) (withData.eraseP (toInput i)) withoutData
        { group with connections := group.connections ++ [c] } groups) :
      Loop i withData withoutData group groups
  | withoutData {i : Nat} {withData withoutData : List (GraphConnection P)}
      {group : SourceConnectionGroup P} {c : GraphConnection P}
      {groups : List (SourceConnectionGroup P)}
      (hnone : withData.find? (toInput i) = none)
      (hfind : withoutData.find? (toInput i) = some c)
      (rest : Loop (i + 1) withData (withoutData.eraseP (toInput i))
        { complete := false, connections := group.connections ++ [c] }
        groups) :
      Loop i withData withoutData group groups
  | ends {i : Nat} {withData withoutData : List (GraphConnection P)}
      {group : SourceConnectionGroup P}
      {groups : List (SourceConnectionGroup P)}
      (hne : withData ++ withoutData ≠ [])
      (hwith : withData.find? (toInput i) = none)
      (hwithout : withoutData.find? (toInput i) = none)
      (rest : Loop (minInput (withData ++ withoutData)) withData withoutData newGroup groups) :
      Loop i withData withoutData group (group :: groups)

section

variable {i fuel : Nat} {withData withoutData : List (GraphConnection P)}
  {group : SourceConnectionGroup P} {groups : List (SourceConnectionGroup P)}

theorem Loop.unique {groups' : List (SourceConnectionGroup P)}
    (h : Loop i withData withoutData group groups)
    (h' : Loop i withData withoutData group groups') : groups = groups' := by
  induction h generalizing groups' with
  | done i group =>
    cases h' with
    | done => rfl
    | withData hfind _ => cases hfind
    | withoutData _ hfind _ => cases hfind
    | ends hne _ _ _ => exact absurd rfl hne
  | withData hfind _ ih =>
    cases h' with
    | done => cases hfind
    | withData hfind' rest' =>
      rw [hfind] at hfind'
      cases hfind'
      exact ih rest'
    | withoutData hnone _ _ => rw [hfind] at hnone; cases hnone
    | ends _ hwith _ _ => rw [hfind] at hwith; cases hwith
  | withoutData hnone hfind _ ih =>
    cases h' with
    | done => cases hfind
    | withData hfind' _ => rw [hnone] at hfind'; cases hfind'
    | withoutData _ hfind' rest' =>
      rw [hfind] at hfind'
      cases hfind'
      exact ih rest'
    | ends _ _ hwithout _ => rw [hfind] at hwithout; cases hwithout
  | ends hne hwith hwithout _ ih =>
    cases h' with
    | done => exact absurd rfl hne
    | withData hfind' _ => rw [hwith] at hfind'; cases hfind'
    | withoutData _ hfind' _ => rw [hwithout] at hfind'; cases hfind'
    | ends _ _ _ rest' => rw [ih rest']

/-- The input is connected by what is left. -/
def Connected (i : Nat) (connections : List (GraphConnection P)) : Prop :=
  ∃ c ∈ connections, toInput i c = true

instance {connections : List (GraphConnection P)} :
    Decidable (Connected i connections) :=
  inferInstanceAs (Decidable (∃ c ∈ connections, _))

theorem connected_iff : Connected i (withData ++ withoutData)
    ↔ withData.find? (toInput i) ≠ none ∨ withoutData.find? (toInput i) ≠ none := by
  have hfind : ∀ l : List (GraphConnection P),
      l.find? (toInput i) ≠ none ↔ ∃ c ∈ l, toInput i c = true := by
    intro l
    simp
  rw [hfind, hfind, Connected]
  constructor
  · rintro ⟨c, hc, hin⟩
    exact (mem_append.mp hc).imp (⟨c, ·, hin⟩) (⟨c, ·, hin⟩)
  · rintro (⟨c, hc, hin⟩ | ⟨c, hc, hin⟩)
    · exact ⟨c, mem_append.mpr (.inl hc), hin⟩
    · exact ⟨c, mem_append.mpr (.inr hc), hin⟩

/-- **TERMINATION**: with two steps for each connection the loop ends. -/
theorem loop_groupLoop (h : 2 * (withData.length + withoutData.length)
      + (if Connected i (withData ++ withoutData) then 0 else 1) ≤ fuel) :
    Loop i withData withoutData group (groupLoop fuel i withData withoutData group) := by
  induction fuel generalizing i withData withoutData group with
  | zero =>
    have hwith : withData = [] := length_eq_zero_iff.mp (by omega)
    have hwithout : withoutData = [] := length_eq_zero_iff.mp (by omega)
    rw [hwith, hwithout, groupLoop]
    exact .done i group
  | succ fuel ih =>
    rw [groupLoop]
    by_cases hempty : (withData.isEmpty && withoutData.isEmpty) = true
    · obtain ⟨hwith, hwithout⟩ := Bool.and_eq_true_iff.mp hempty
      rw [isEmpty_iff.mp hwith, isEmpty_iff.mp hwithout]
      exact .done i group
    · rw [if_neg hempty]
      rcases hwith : withData.find? (toInput i) with _ | c
      · rcases hwithout : withoutData.find? (toInput i) with _ | c
        · have hne : withData ++ withoutData ≠ [] := by
            simpa [List.isEmpty_iff] using hempty
          have hnot : ¬ Connected i (withData ++ withoutData) := by
            rw [connected_iff, hwith, hwithout]
            simp
          rw [if_neg hnot] at h
          refine .ends hne hwith hwithout (ih ?_)
          have hconnected : Connected _ _ := exists_minInput hne
          rw [if_pos hconnected]
          omega
        · have hlength := (perm_eraseP hwithout).length_eq
          rw [length_cons] at hlength
          refine .withoutData hwith hwithout (ih ?_)
          split at h <;> split <;> omega
      · have hlength := (perm_eraseP hwith).length_eq
        rw [length_cons] at hlength
        refine .withData hwith (ih ?_)
        split at h <;> split <;> omega

theorem loop_groupFuel (h : groupFuel withData withoutData ≤ fuel) :
    Loop (minInput (withData ++ withoutData)) withData withoutData newGroup
      (groupLoop fuel (minInput (withData ++ withoutData)) withData withoutData newGroup) := by
  refine loop_groupLoop ?_
  rw [groupFuel] at h
  split <;> omega

/-! ## Every group -/

/-- One connection for an input at most, in the order of the inputs; and
    complete if each has data. -/
structure WellFormed (hasData : GraphConnection P → Bool)
    (group : SourceConnectionGroup P) : Prop where
  ordered : group.connections.Pairwise fun c d => c.inputIndex < d.inputIndex
  complete : group.complete = true ↔ ∀ c ∈ group.connections, hasData c = true

theorem wellFormed_newGroup {hasData : GraphConnection P → Bool} : WellFormed hasData newGroup :=
  ⟨List.Pairwise.nil, iff_of_true rfl fun _ hc => by cases hc⟩

variable {c : GraphConnection P}

theorem inputIndex_of_find? {connections : List (GraphConnection P)}
    (h : connections.find? (toInput i) = some c) :
    c.inputIndex = i :=
  of_decide_eq_true (find?_some h : toInput i c = true)

theorem ordered_concat {connections : List (GraphConnection P)}
    (h : connections.Pairwise fun c d => c.inputIndex < d.inputIndex)
    (hbefore : ∀ d ∈ connections, d.inputIndex < i) (hc : c.inputIndex = i) :
    (connections ++ [c]).Pairwise (fun c d => c.inputIndex < d.inputIndex)
      ∧ ∀ d ∈ connections ++ [c], d.inputIndex < i + 1 := by
  constructor
  · refine pairwise_append.mpr ⟨h, pairwise_singleton .., ?_⟩
    intro d hd e he
    rw [mem_singleton.mp he, hc]
    exact hbefore d hd
  · intro d hd
    rcases mem_append.mp hd with hd | hd
    · exact Nat.lt_succ_of_lt (hbefore d hd)
    · rw [mem_singleton.mp hd, hc]
      exact Nat.lt_succ_self i

/-- **GROUPS**: the loop keeps its group well formed, and so are all that it
    returns. -/
theorem Loop.wellFormed {hasData : GraphConnection P → Bool}
    (h : Loop i withData withoutData group groups) (hwith : ∀ c ∈ withData, hasData c = true)
    (hwithout : ∀ c ∈ withoutData, hasData c = false) (hgroup : WellFormed hasData group)
    (hbefore : ∀ c ∈ group.connections, c.inputIndex < i) :
    ∀ g ∈ groups, WellFormed hasData g := by
  induction h with
  | done i group =>
    intro g hg
    rw [mem_singleton.mp hg]
    exact hgroup
  | withData hfind _ ih =>
    obtain ⟨hordered, hbefore⟩ := ordered_concat hgroup.ordered hbefore (inputIndex_of_find? hfind)
    have hdata := hwith _ (mem_of_find?_eq_some hfind)
    refine ih (fun c hc => hwith c (mem_of_mem_eraseP hc)) hwithout ⟨hordered, ?_⟩ hbefore
    rw [hgroup.complete, forall_mem_append, forall_mem_singleton]
    exact (and_iff_left hdata).symm
  | withoutData _ hfind _ ih =>
    obtain ⟨hordered, hbefore⟩ := ordered_concat hgroup.ordered hbefore (inputIndex_of_find? hfind)
    have hdata := hwithout _ (mem_of_find?_eq_some hfind)
    refine ih hwith (fun c hc => hwithout c (mem_of_mem_eraseP hc))
      ⟨hordered, iff_of_false (by simp) fun hall => ?_⟩ hbefore
    have hlast := hall _ (mem_append.mpr (.inr (mem_singleton_self _)))
    rw [hdata] at hlast
    cases hlast
  | ends _ _ _ _ ih =>
    have hrest := ih hwith hwithout wellFormed_newGroup fun _ hc => by cases hc
    intro g hg
    rcases mem_cons.mp hg with rfl | hg
    · exact hgroup
    · exact hrest g hg

/-! ## The number of groups -/

/-- The connections to an input, the first input at position 1. -/
def height (connections : List (GraphConnection P)) : Nat → Nat
  | 0 => 0
  | i + 1 => connections.countP (toInput i)

variable {l : List (GraphConnection P)}

theorem height_perm {l' : List (GraphConnection P)} (h : l.Perm l') : height l = height l' := by
  funext i
  cases i with
  | zero => rfl
  | succ i => exact h.countP_eq _

theorem height_cons (hc : c.inputIndex = i) (l : List (GraphConnection P)) (k : Nat) :
    height (c :: l) k = height l k + if k = i + 1 then 1 else 0 := by
  cases k with
  | zero => rfl
  | succ k =>
    rw [height, height, countP_cons]
    have hin : toInput k c = true ↔ k + 1 = i + 1 := by
      rw [toInput, hc, decide_eq_true_eq]
      omega
    by_cases hk : k + 1 = i + 1
    · rw [if_pos hk, if_pos (hin.mpr hk)]
    · rw [if_neg hk, if_neg fun h => hk (hin.mp h)]

theorem height_pos : 0 < height l (i + 1) ↔ Connected i l := countP_pos_iff

theorem minInput_le (hc : c ∈ l) : minInput l ≤ c.inputIndex := by
  have hmem : c.inputIndex ∈ l.map (·.inputIndex) := mem_map_of_mem hc
  obtain ⟨least, hleast⟩ := Option.isSome_iff_exists.mp (isSome_min?_of_mem hmem)
  rw [minInput, hleast, Option.getD_some]
  exact (min?_eq_some_iff.mp hleast).2 _ hmem

theorem height_minInput (l : List (GraphConnection P)) : height l (minInput l) = 0 := by
  cases hmin : minInput l with
  | zero => rfl
  | succ i =>
    refine Nat.eq_zero_of_not_pos fun hpos => ?_
    obtain ⟨c, hc, hin⟩ := height_pos.mp hpos
    have hle := minInput_le hc
    have hindex : c.inputIndex = i := of_decide_eq_true hin
    omega

theorem ascent_taken {l' : List (GraphConnection P)} {n : Nat} (hperm : l.Perm (c :: l'))
    (hc : c.inputIndex = i) (hn : ∀ c ∈ l, c.inputIndex + 1 < n) :
    ascent (height l') 0 n
        + (if height l i < height l (i + 1) then 1 else 0)
      = ascent (height l) 0 n
        + if height l' (i + 1) < height l' (i + 1 + 1) then 1 else 0 := by
  subst hc
  refine ascent_lower (hn c (hperm.mem_iff.mpr (mem_cons_self ..))) fun k => ?_
  rw [height_perm hperm]
  exact height_cons rfl l' k

/-- **COUNTING**: from the loop's state on, there are as many groups as the
    connections that are left climb, and one more if the group at hand takes
    no part in a climb. -/
theorem Loop.length (h : Loop i withData withoutData group groups) {n : Nat}
    (hn : ∀ c ∈ withData ++ withoutData, c.inputIndex + 1 < n) :
    groups.length + (if height (withData ++ withoutData) i
        < height (withData ++ withoutData) (i + 1) then 1 else 0)
      = ascent (height (withData ++ withoutData)) 0 n + 1 := by
  induction h with
  | done i group =>
    have hzero : ∀ k, height ([] : List (GraphConnection P)) k = 0 := by
      intro k
      cases k with
      | zero => rfl
      | succ k => rfl
    have hascent : ascent (height ([] : List (GraphConnection P))) 0 n = 0 :=
      ascent_of_falling fun i _ _ => by rw [hzero, hzero]
    rw [append_nil, hascent, hzero, hzero, if_neg (Nat.lt_irrefl 0)]
    rfl
  | @withData i withData withoutData _ c _ hfind _ ih =>
    have hperm : (withData ++ withoutData).Perm
        (c :: (withData.eraseP (toInput i) ++ withoutData)) :=
      (perm_eraseP hfind).append_right withoutData
    have htaken := ascent_taken hperm (inputIndex_of_find? hfind) hn
    have hrest := ih fun c hc =>
      hn c (hperm.mem_iff.mpr (mem_cons_of_mem _ hc))
    omega
  | @withoutData i withData withoutData _ c _ _ hfind _ ih =>
    have hperm := ((perm_eraseP hfind).append_left withData).trans perm_middle
    have htaken := ascent_taken hperm (inputIndex_of_find? hfind) hn
    have hrest := ih fun c hc =>
      hn c (hperm.mem_iff.mpr (mem_cons_of_mem _ hc))
    omega
  | @ends i withData withoutData group groups hne hwith hwithout _ ih =>
    have hnot : ¬ Connected i (withData ++ withoutData) := by
      rw [connected_iff, hwith, hwithout]
      simp
    have hconnected : Connected _ (withData ++ withoutData) := exists_minInput hne
    have hfirst := height_pos.mpr hconnected
    have hlow := height_minInput (withData ++ withoutData)
    have hrest := ih hn
    rw [hlow, if_pos hfirst] at hrest
    rw [if_neg fun hlt => hnot (height_pos.mp (by omega))]
    omega

end

/-! ## The claim of the groups -/

/-- The number of connections to an input. -/
def share (connections : List (GraphConnection P)) (i : Nat) : Nat := connections.countP (toInput i)

/-- The largest number of connections that share an input. -/
def largestShare (connections : List (GraphConnection P)) : Nat :=
  ((connections.map fun c => share connections c.inputIndex).max?).getD 0

/-- The connection's node has run data or pinned data. -/
def hasData (runData : IRunData V) (pinnedData : IPinData V) (c : GraphConnection P) : Bool :=
  runData.has c.fromNode.name || pinnedData.has c.fromNode.name

/-- The loop ends: more fuel than it is given changes nothing. -/
def Terminates (P : Type) : Prop :=
  ∀ (withData withoutData : List (GraphConnection P)) (fuel : Nat),
    groupFuel withData withoutData ≤ fuel →
      groupLoop fuel (minInput (withData ++ withoutData)) withData withoutData newGroup
        = groupLoop (groupFuel withData withoutData)
          (minInput (withData ++ withoutData)) withData withoutData newGroup

/-- What is expected of the groups of the connections into a node. -/
structure Grouped (runData : IRunData V) (pinnedData : IPinData V)
    (connections : List (GraphConnection P))
    (groups : List (SourceConnectionGroup P)) : Prop where
  terminates : Terminates P
  partition : (groups.flatMap (·.connections)).Perm connections
  wellFormed : ∀ g ∈ groups, WellFormed (hasData runData pinnedData) g
  number : groups.length = largestShare connections

theorem terminates : Terminates P := by
  intro withData withoutData fuel hfuel
  exact (loop_groupFuel hfuel).unique (loop_groupFuel (Nat.le_refl _))

theorem share_eq_height (connections : List (GraphConnection P)) (i : Nat) :
    share connections i = height connections (i + 1) := rfl

variable {connections : List (GraphConnection P)}

theorem noValley_height : NoValley (height connections) ↔ NoValley (share connections) := by
  constructor
  · intro h i j k hij hjk
    exact h (i + 1) (j + 1) (k + 1) (by omega) (by omega)
  · intro h i j k hij hjk
    match i, j, k, hij, hjk with
    | 0, j, k, _, _ => exact Nat.le_trans (Nat.min_le_left ..) (Nat.zero_le _)
    | i + 1, j + 1, k + 1, hij, hjk => exact h i j k (by omega) (by omega)

theorem exists_above (connections : List (GraphConnection P)) :
    ∃ n, ∀ c ∈ connections, c.inputIndex + 1 < n := by
  induction connections with
  | nil => exact ⟨0, fun c hc => by cases hc⟩
  | cons d rest ih =>
    obtain ⟨n, hn⟩ := ih
    refine ⟨max n (d.inputIndex + 2), fun c hc => ?_⟩
    rcases mem_cons.mp hc with rfl | hc
    · omega
    · have hlt := hn c hc
      omega

theorem height_eq_zero {n : Nat}
    (hn : ∀ c ∈ connections, c.inputIndex + 1 < n) {k : Nat} (hk : n < k) :
    height connections k = 0 := by
  cases k with
  | zero => rfl
  | succ k =>
    refine Nat.eq_zero_of_not_pos fun hpos => ?_
    obtain ⟨c, hc, hin⟩ := height_pos.mp hpos
    have hindex : c.inputIndex = k := of_decide_eq_true hin
    have hlt := hn c hc
    omega

theorem largestShare_spec (connections : List (GraphConnection P)) :
    (∀ k, height connections k ≤ largestShare connections)
      ∧ ∃ k, height connections k = largestShare connections := by
  rcases hmax : (connections.map fun c =>
    share connections c.inputIndex).max? with _ | greatest
  · have hnil : connections = [] := by
      simpa using max?_eq_none_iff.mp hmax
    rw [largestShare, hmax, hnil]
    refine ⟨fun k => ?_, 0, rfl⟩
    cases k with
    | zero => exact Nat.le_refl 0
    | succ k => exact Nat.le_refl 0
  · obtain ⟨hmem, hle⟩ := max?_eq_some_iff.mp hmax
    rw [largestShare, hmax, Option.getD_some]
    obtain ⟨c, hc, hshare⟩ := mem_map.mp hmem
    refine ⟨fun k => ?_, c.inputIndex + 1, hshare⟩
    cases k with
    | zero => exact Nat.zero_le _
    | succ k =>
      rcases Nat.eq_zero_or_pos (height connections (k + 1)) with hzero | hpos
      · omega
      · obtain ⟨d, hd, hin⟩ := height_pos.mp hpos
        have hindex : d.inputIndex = k := of_decide_eq_true hin
        have hmem := mem_map_of_mem (f := fun c => share connections c.inputIndex) hd
        rw [← share_eq_height, ← hindex]
        exact hle _ hmem

section

variable (localeCompare : String → String → Int) {graph : DirectedGraph P}
  {node : INode P} (runData : IRunData V) (pinnedData : IPinData V)

section

variable (hmain : ∀ c ∈ getConnections graph node, c.type = .main)
include hmain

theorem getSourceDataGroups_loop :
    ∃ withData withoutData : List (GraphConnection P),
      (withData ++ withoutData).Perm (getConnections graph node)
      ∧ (∀ c ∈ withData, hasData runData pinnedData c = true)
      ∧ (∀ c ∈ withoutData, hasData runData pinnedData c = false)
      ∧ (withData ++ withoutData = []
          ∧ getSourceDataGroups localeCompare graph node runData pinnedData = []
        ∨ withData ++ withoutData ≠ []
          ∧ Loop (minInput (withData ++ withoutData)) withData withoutData
            newGroup (getSourceDataGroups localeCompare graph node runData pinnedData)) := by
  refine ⟨sortConnections localeCompare ((getConnections graph node).filter
      (hasData runData pinnedData)),
    sortConnections localeCompare ((getConnections graph node).filter
      fun c => !hasData runData pinnedData c && c.type = .main), ?_, ?_, ?_, ?_⟩
  · refine ((perm_insertionSort _ _).append (perm_insertionSort _ _)).trans ?_
    refine (filter_or_perm _ _ _).trans (List.Perm.of_eq ?_)
    refine filter_eq_self.mpr fun c hc => ?_
    simp [hmain c hc]
  · intro c hc
    exact (mem_filter.mp ((perm_insertionSort _ _).mem_iff.mp hc)).2
  · intro c hc
    have hnot := (mem_filter.mp ((perm_insertionSort _ _).mem_iff.mp hc)).2
    rw [Bool.and_eq_true, Bool.not_eq_true'] at hnot
    exact hnot.1
  · rw [getSourceDataGroups]
    split
    · next hempty =>
        obtain ⟨hwith, hwithout⟩ := Bool.and_eq_true_iff.mp hempty
        refine .inl ⟨?_, rfl⟩
        exact append_eq_nil_iff.mpr ⟨isEmpty_iff.mp hwith, isEmpty_iff.mp hwithout⟩
    · next hempty =>
        refine .inr ⟨fun hnil => hempty ?_, loop_groupFuel (Nat.le_refl _)⟩
        obtain ⟨hwith, hwithout⟩ := append_eq_nil_iff.mp hnil
        exact Bool.and_eq_true_iff.mpr ⟨isEmpty_iff.mpr hwith, isEmpty_iff.mpr hwithout⟩

/-- **NUMBER OF GROUPS**: as many as the connections climb from input to
    input. -/
theorem getSourceDataGroups_length
    {n : Nat} (hn : ∀ c ∈ getConnections graph node, c.inputIndex + 1 < n) :
    (getSourceDataGroups localeCompare graph node runData pinnedData).length
      = ascent (height (getConnections graph node)) 0 n := by
  obtain ⟨withData, withoutData, hperm, -, -, hgroups⟩ :=
    getSourceDataGroups_loop localeCompare runData pinnedData hmain
  rw [← height_perm hperm]
  rcases hgroups with ⟨hnil, hgroups⟩ | ⟨hne, hloop⟩
  · rw [hgroups, hnil]
    refine (ascent_of_falling fun i _ _ => ?_).symm
    cases i with
    | zero => exact Nat.le_refl 0
    | succ i => exact Nat.le_refl 0
  · have hlength := hloop.length fun c hc => hn c (hperm.mem_iff.mp hc)
    have hconnected : Connected _ (withData ++ withoutData) := exists_minInput hne
    have hlow := height_minInput (withData ++ withoutData)
    have hfirst := height_pos.mpr hconnected
    rw [hlow, if_pos hfirst] at hlength
    omega

end

end

/-- Nodes of these names, each connected to an input of a node. -/
def graphInto (sources : List (String × Nat)) : DirectedGraph Unit :=
  { nodes := ("Merge" :: sources.map Prod.fst).foldl
      (fun nodes name => nodes.set name (plainNode name)) .empty
    connections := sources.map fun (name, index) =>
      { fromNode := plainNode name
        toNode := plainNode "Merge"
        type := .main
        outputIndex := 0
        inputIndex := index } }

/-- The inputs of the connections are consecutive. -/
def Consecutive (connections : List (GraphConnection P)) (first : Nat) : Prop :=
  connections.map (·.inputIndex) = List.range' first connections.length

theorem consecutive_concat {first i : Nat} {c : GraphConnection P}
    (h : Consecutive connections first)
    (hi : first + connections.length = i) (hc : c.inputIndex = i) :
    Consecutive (connections ++ [c]) first := by
  rw [Consecutive, map_append, h, length_append, length_singleton, range'_concat, map_singleton, hc]
  rw [Nat.one_mul, hi]

theorem Loop.consecutive {i : Nat} {withData withoutData : List (GraphConnection P)}
    {group : SourceConnectionGroup P}
    {groups : List (SourceConnectionGroup P)}
    (h : Loop i withData withoutData group groups) (first : Nat)
    (hgroup : Consecutive group.connections first)
    (hi : first + group.connections.length = i) :
    ∀ g ∈ groups, ∃ first, Consecutive g.connections first := by
  induction h generalizing first with
  | done i group =>
    intro g hg
    rw [mem_singleton.mp hg]
    exact ⟨first, hgroup⟩
  | withData hfind _ ih =>
    refine ih first (consecutive_concat hgroup hi (inputIndex_of_find? hfind)) ?_
    rw [length_append, length_singleton, ← Nat.add_assoc, hi]
  | withoutData _ hfind _ ih =>
    refine ih first (consecutive_concat hgroup hi (inputIndex_of_find? hfind)) ?_
    rw [length_append, length_singleton, ← Nat.add_assoc, hi]
  | ends _ _ _ _ ih =>
    intro g hg
    rcases mem_cons.mp hg with rfl | hg
    · exact ⟨first, hgroup⟩
    · exact ih _ rfl rfl g hg

section

variable (runData : IRunData V) (pinData : IPinData V)

/-- What a connection of a complete group brings, and its run. -/
def incomingOf (c : GraphConnection P) :
    Except EngineError (Option (List (INodeExecutionData V) × Nat)) :=
  match pinData.get? c.fromNode.name with
  | some data => .ok (some (data, 0))
  | none =>
    if runData.has c.fromNode.name then
      getIncomingDataFromAnyRun runData c.fromNode.name c.type c.outputIndex
    else
      .error (.assertionError (some ("Start node(" ++ c.toNode.name
        ++ ") has an incoming connection with no run or pinned data."
        ++ " This is not supported. The connection in question is \""
        ++ c.fromNode.name ++ "->" ++ c.toNode.name
        ++ "\". Are you sure the start nodes come from the"
        ++ " \"findStartNodes\" function?")))

/-- The source of a connection in the entry. -/
def sourceOf (c : GraphConnection P) (runIndex : Nat) : ISourceData :=
  { previousNode := c.fromNode.name
    previousNodeOutput := some c.outputIndex
    previousNodeRun := some runIndex }

theorem pushIncoming_eq
    (incoming : List (Slot (List (INodeExecutionData V))) × List (Slot ISourceData))
    (c : GraphConnection P) :
    pushIncoming runData pinData incoming c
      = incomingOf runData pinData c >>= fun found =>
        .ok (incoming.1 ++ (found.map fun p => Slot.value p.1).toList, incoming.2
            ++ [.value (sourceOf c ((found.map Prod.snd).getD 0))]) := by
  unfold pushIncoming incomingOf
  cases pinData.get? c.fromNode.name with
  | some data => rfl
  | none =>
    by_cases hrun : runData.has c.fromNode.name = true
    · simp only [hrun]
      rfl
    · simp only [hrun]
      rfl

/-- What it brings if that is no error. -/
def foundBy (c : GraphConnection P) : Option (List (INodeExecutionData V) × Nat) :=
  (incomingOf runData pinData c).toOption.join

/-- **ENTRY**: the data are what the connections bring, without those that
    bring nothing; the sources are those of all of them. -/
theorem foldlM_pushIncoming {connections : List (GraphConnection P)}
    {incoming incoming' : List (Slot (List (INodeExecutionData V)))
      × List (Slot ISourceData)}
    (h : connections.foldlM (pushIncoming runData pinData) incoming = .ok incoming') :
    (∀ c ∈ connections, incomingOf runData pinData c = .ok (foundBy runData pinData c))
      ∧ incoming'.1 = incoming.1
        ++ connections.filterMap (fun c =>
          (foundBy runData pinData c).map fun p => Slot.value p.1)
      ∧ incoming'.2 = incoming.2 ++ connections.map (fun c =>
        .value (sourceOf c (((foundBy runData pinData c).map Prod.snd).getD 0))) := by
  induction connections generalizing incoming with
  | nil =>
    cases h
    exact ⟨(fun _ hc => nomatch hc), (append_nil _).symm, (append_nil _).symm⟩
  | cons c rest ih =>
    rw [foldlM_cons, pushIncoming_eq] at h
    obtain ⟨next, hnext, h⟩ := bind_eq_ok.mp h
    obtain ⟨found, hfound, hnext⟩ := bind_eq_ok.mp hnext
    cases hnext
    obtain ⟨hall, hdata, hsource⟩ := ih h
    have hself : foundBy runData pinData c = found := by
      rw [foundBy, hfound]
      rfl
    refine ⟨?_, ?_, ?_⟩
    · intro d hd
      rcases mem_cons.mp hd with rfl | hd
      · rw [hself, hfound]
      · exact hall d hd
    · rw [hdata, filterMap_cons, hself, append_assoc]
      cases found with
      | none => rfl
      | some p => rfl
    · rw [hsource, map_cons, hself, append_assoc]
      rfl

/-! ## Alignment -/

/-- The entry has at the connection's input what the connection brings, and
    names where and in which run it was found. -/
def AlignedAt (entry : IExecuteData P V) (c : GraphConnection P) : Prop :=
  ∃ items runIndex,
    ((pinData.get? c.fromNode.name = some items ∧ runIndex = 0)
      ∨ pinData.get? c.fromNode.name = none
        ∧ getIncomingData runData c.fromNode.name runIndex c.type c.outputIndex = .ok (some items))
    ∧ slotAt ((entry.data.get? .main).getD []) c.inputIndex = .value items
    ∧ slotAt ((entry.source.bind (·.get? .main)).getD []) c.inputIndex
      = .value (sourceOf c runIndex)

/-- The group starts at the first input, and each of its connections has
    pinned data, or a run with data on its output. -/
def StartsAtFirst (group : SourceConnectionGroup P) : Prop :=
  (∀ c, group.connections.head? = some c → c.inputIndex = 0)
    ∧ ∀ c ∈ group.connections, (pinData.get? c.fromNode.name).isSome
      ∨ ∃ found, getIncomingDataFromAnyRun runData c.fromNode.name c.type
        c.outputIndex = .ok (some found)

/-- The entry is the one that is pushed for the group. -/
def PushedFor (group : SourceConnectionGroup P) (entry : IExecuteData P V) : Prop :=
  ∃ incoming, group.connections.foldlM (pushIncoming runData pinData) ([], [])
      = .ok incoming
    ∧ entry.data = mainOnly incoming.1
    ∧ entry.source = some (mainOnly incoming.2)

end

section

variable {runData : IRunData V} {pinData : IPinData V}

theorem getIncomingData_of_firstRun {nodeName : String}
    {connectionType : NodeConnectionType} {outputIndex : Nat}
    {runs : List Nat} {items : List (INodeExecutionData V)} {runIndex : Nat}
    (h : firstRunWithData runData nodeName connectionType outputIndex runs
      = .ok (some (items, runIndex))) :
    getIncomingData runData nodeName runIndex connectionType outputIndex = .ok (some items) := by
  induction runs with
  | nil => cases h
  | cons run rest ih =>
    obtain ⟨found, hfound, h⟩ := bind_eq_ok.mp h
    cases found with
    | none => exact ih h
    | some found =>
      cases found with
      | nil => exact ih h
      | cons item found =>
        cases h
        exact hfound

theorem slotAt_map {α β : Type} {f : α → Slot β} {l : List α} {i : Nat}
    (hi : i < l.length) : slotAt (l.map f) i = f (l.get ⟨i, hi⟩) := by
  rw [slotAt, getD_eq_getElem?_getD, getElem?_map, getElem?_eq_getElem hi]
  rfl

theorem lt_length_of_slotAt {α : Type} {l : List (Slot α)} {i : Nat} {a : α}
    (h : slotAt l i = .value a) : i < l.length := by
  by_contra hge
  rw [slotAt, getD_eq_getElem?_getD, getElem?_eq_none (Nat.le_of_not_lt hge)] at h
  cases h

theorem Consecutive.inputIndex {connections : List (GraphConnection P)}
    {first i : Nat} (h : Consecutive connections first)
    (hi : i < connections.length) :
    (connections.get ⟨i, hi⟩).inputIndex = first + i := by
  have hget : (connections.map (·.inputIndex))[i]? = (List.range' first connections.length)[i]? :=
    congrArg (·[i]?) h
  rw [getElem?_map, getElem?_eq_getElem hi, Option.map_some,
    getElem?_range' hi, Nat.one_mul] at hget
  exact Option.some.inj hget

theorem foundBy_spec {c : GraphConnection P} {items : List (INodeExecutionData V)} {runIndex : Nat}
    (h : incomingOf runData pinData c = .ok (some (items, runIndex))) :
    (pinData.get? c.fromNode.name = some items ∧ runIndex = 0)
      ∨ pinData.get? c.fromNode.name = none
        ∧ getIncomingData runData c.fromNode.name runIndex c.type
          c.outputIndex = .ok (some items) := by
  unfold incomingOf at h
  cases hpin : pinData.get? c.fromNode.name with
  | some data =>
    rw [hpin] at h
    cases h
    exact .inl ⟨rfl, rfl⟩
  | none =>
    rw [hpin] at h
    dsimp only at h
    split at h
    · exact .inr ⟨rfl, getIncomingData_of_firstRun h⟩
    · cases h

theorem foundBy_isSome {c : GraphConnection P}
    (hok : incomingOf runData pinData c = .ok (foundBy runData pinData c)) :
    (foundBy runData pinData c).isSome
      ↔ (pinData.get? c.fromNode.name).isSome
        ∨ ∃ found, getIncomingDataFromAnyRun runData c.fromNode.name c.type
          c.outputIndex = .ok (some found) := by
  unfold incomingOf at hok
  cases hpin : pinData.get? c.fromNode.name with
  | some data =>
    rw [hpin] at hok
    rw [← Except.ok.inj hok]
    exact iff_of_true rfl (.inl rfl)
  | none =>
    rw [hpin] at hok
    dsimp only at hok
    split at hok
    · rw [hok]
      cases foundBy runData pinData c with
      | none =>
        refine iff_of_false (by simp) ?_
        rintro (h | ⟨found, h⟩)
        · cases h
        · cases h
      | some found => exact iff_of_true rfl (.inr ⟨found, rfl⟩)
    · cases hok

/-- **ALIGNMENT OF AN ENTRY**: it is aligned exactly when its group starts
    at the first input and each of its connections has data. -/
theorem aligned_iff {group : SourceConnectionGroup P}
    {entry : IExecuteData P V} (hpushed : PushedFor runData pinData group entry)
    {first : Nat} (hgroup : Consecutive group.connections first) :
    (∀ c ∈ group.connections, AlignedAt runData pinData entry c)
      ↔ StartsAtFirst runData pinData group := by
  obtain ⟨incoming, hfold, hdata, hsource⟩ := hpushed
  obtain ⟨hok, hitems, hsources⟩ := foldlM_pushIncoming runData pinData hfold
  rw [nil_append] at hitems hsources
  have hdata : (entry.data.get? .main).getD [] = incoming.1 := by
    rw [hdata, get?_mainOnly, Option.getD_some]
  have hsource : (entry.source.bind (·.get? .main)).getD [] = incoming.2 := by
    rw [hsource, Option.bind_some, get?_mainOnly, Option.getD_some]
  constructor
  · intro haligned
    have hlast : ∀ c ∈ group.connections,
        c.inputIndex < incoming.1.length ∧ c.inputIndex < incoming.2.length := by
      intro c hc
      obtain ⟨items, runIndex, -, hvalue, hname⟩ := haligned c hc
      rw [hdata] at hvalue
      rw [hsource] at hname
      exact ⟨lt_length_of_slotAt hvalue, lt_length_of_slotAt hname⟩
    have hstart : group.connections ≠ [] → first = 0
        ∧ group.connections.length ≤ incoming.1.length := by
      intro hne
      have hpos := length_pos_iff.mpr hne
      have hindex := hgroup.inputIndex
        (show group.connections.length - 1 < group.connections.length by omega)
      obtain ⟨h₁, h₂⟩ := hlast _ (get_mem group.connections _)
      rw [hindex] at h₁ h₂
      rw [hsources, length_map] at h₂
      omega
    refine ⟨fun c hc => ?_, fun c hc => ?_⟩
    · have hne : group.connections ≠ [] := fun hnil => by
        rw [hnil] at hc
        cases hc
      have hpos := length_pos_iff.mpr hne
      have hindex := hgroup.inputIndex hpos
      rw [head?_eq_getElem?, getElem?_eq_getElem hpos] at hc
      rw [← Option.some.inj hc]
      exact hindex.trans (by rw [(hstart hne).1])
    · refine (foundBy_isSome (hok c hc)).mp ?_
      have hlength := (hstart (ne_nil_of_mem hc)).2
      rw [hitems] at hlength
      have hfull := Nat.le_antisymm (length_filterMap_le _ _) hlength
      have hsome := filterMap_length_eq_length.mp hfull c hc
      rwa [Option.isSome_map] at hsome
  · rintro ⟨hfirst, hall⟩ c hc
    have hsome : ∀ d ∈ group.connections, (foundBy runData pinData d).isSome = true :=
      fun d hd => (foundBy_isSome (hok d hd)).mpr (hall d hd)
    have hvalues : incoming.1 = group.connections.map fun d =>
        Slot.value (((foundBy runData pinData d).map Prod.fst).getD []) := by
      rw [hitems, ← filterMap_eq_map']
      refine filterMap_congr fun d hd => ?_
      obtain ⟨p, hp⟩ := Option.isSome_iff_exists.mp (hsome d hd)
      rw [hp]
      rfl
    obtain ⟨⟨i, hi⟩, rfl⟩ := mem_iff_get.mp hc
    have hzero : first = 0 := by
      have hpos := Nat.lt_of_le_of_lt (Nat.zero_le i) hi
      have hhead := hfirst (group.connections.get ⟨0, hpos⟩)
        (by rw [head?_eq_getElem?, getElem?_eq_getElem hpos]; rfl)
      rwa [hgroup.inputIndex hpos, Nat.add_zero] at hhead
    have hindex : (group.connections.get ⟨i, hi⟩).inputIndex = i := by
      rw [hgroup.inputIndex hi, hzero, Nat.zero_add]
    obtain ⟨⟨items, runIndex⟩, hfound⟩ := Option.isSome_iff_exists.mp (hsome _ hc)
    refine ⟨items, runIndex, foundBy_spec (hfound ▸ hok _ hc), ?_, ?_⟩
    · rw [hdata, hvalues, hindex, slotAt_map hi, hfound]
      rfl
    · rw [hsource, hsources, hindex, slotAt_map hi, hfound]
      rfl

end

/-! ## The stack -/

section

variable (runData : IRunData V) (pinData : IPinData V)
  (localeCompare : String → String → Int) (graph : DirectedGraph P)

/-- The groups that a start node has stack entries for; nothing stands for
    the one entry of a node without main parents. -/
def stackGroups (startNode : INode P) : List (Option (SourceConnectionGroup P)) :=
  if ((getConnections graph startNode).filter (·.type = .main)).isEmpty then
    [none]
  else
    ((getSourceDataGroups localeCompare graph startNode runData
      pinData).filter (·.complete)).map some

/-- The entries of the stack, each aligned with the inputs of the
    connections that it was pushed for. -/
def Aligned (startNodes : List (INode P)) (stack : List (IExecuteData P V)) : Prop :=
  List.Forall₂ (fun pushed entry => ∀ group, pushed = some group →
    ∀ c ∈ group.connections, AlignedAt runData pinData entry c)
    (startNodes.flatMap (stackGroups runData pinData localeCompare graph)) stack

end

section

variable {runData : IRunData V} {pinData : IPinData V}
  {localeCompare : String → String → Int} {graph : DirectedGraph P}

/-- An entry is the one for its group. -/
def Stands (runData : IRunData V) (pinData : IPinData V)
    (pushed : Option (SourceConnectionGroup P)) (entry : IExecuteData P V) :
    Prop :=
  ∀ group, pushed = some group → PushedFor runData pinData group entry

variable {startNode : INode P} {recreated recreated' : Recreated P V}

theorem foldlM_recreateGroup {groups : List (SourceConnectionGroup P)}
    (h : groups.foldlM (recreateGroup runData pinData startNode) recreated = .ok recreated') :
    ∃ entries, recreated'.nodeExecutionStack
        = recreated.nodeExecutionStack ++ entries
      ∧ List.Forall₂ (Stands runData pinData) ((groups.filter (·.complete)).map some) entries := by
  induction groups generalizing recreated with
  | nil =>
    cases h
    exact ⟨[], (append_nil _).symm, .nil⟩
  | cons group rest ih =>
    obtain ⟨next, hnext, h⟩ := bind_eq_ok.mp h
    obtain ⟨entries, hstack, hstands⟩ := ih h
    rw [recreateGroup] at hnext
    by_cases hcomplete : group.complete = true
    · rw [if_pos hcomplete] at hnext
      obtain ⟨incoming, hfold, hnext⟩ := bind_eq_ok.mp hnext
      cases hnext
      refine ⟨{ node := some startNode
                data := mainOnly incoming.1
                source := some (mainOnly incoming.2)
                runIndex := none
                metadata := none } :: entries, ?_, ?_⟩
      · rw [hstack, append_assoc]
        rfl
      · rw [filter_cons_of_pos hcomplete, map_cons]
        refine .cons (fun g hg => ?_) hstands
        cases hg
        exact ⟨incoming, hfold, rfl, rfl⟩
    · rw [if_neg hcomplete] at hnext
      obtain ⟨waitingExecution, -, hnext⟩ := bind_eq_ok.mp hnext
      cases hnext
      refine ⟨entries, hstack, ?_⟩
      rw [filter_cons_of_neg hcomplete]
      exact hstands

theorem recreateStartNode_stack (h : recreateStartNode runData pinData localeCompare graph recreated
      startNode = .ok recreated') :
    ∃ entries, recreated'.nodeExecutionStack
        = recreated.nodeExecutionStack ++ entries
      ∧ List.Forall₂ (Stands runData pinData)
        (stackGroups runData pinData localeCompare graph startNode) entries := by
  obtain ⟨connections, hconnections, h⟩ := bind_eq_ok.mp h
  unfold getDirectParentConnections at hconnections
  split at hconnections
  · cases hconnections
    unfold stackGroups
    by_cases hnone : ((getConnections graph startNode).filter (·.type = .main)).isEmpty = true
    · rw [if_pos hnone] at h ⊢
      cases h
      exact ⟨_, rfl, .cons (fun group hgroup => by cases hgroup) .nil⟩
    · rw [if_neg hnone] at h ⊢
      exact foldlM_recreateGroup h
  · cases hconnections

/-- **STACK**: the entries are those of the groups, in their order. -/
theorem foldlM_recreateStartNode {startNodes : List (INode P)}
    (h : startNodes.foldlM (recreateStartNode runData pinData localeCompare
      graph) recreated = .ok recreated') :
    ∃ entries, recreated'.nodeExecutionStack
        = recreated.nodeExecutionStack ++ entries
      ∧ List.Forall₂ (Stands runData pinData)
        (startNodes.flatMap (stackGroups runData pinData localeCompare graph)) entries := by
  induction startNodes generalizing recreated with
  | nil =>
    cases h
    exact ⟨[], (append_nil _).symm, .nil⟩
  | cons startNode rest ih =>
    obtain ⟨next, hnext, h⟩ := bind_eq_ok.mp h
    obtain ⟨first, hfirst, hstands⟩ := recreateStartNode_stack hnext
    obtain ⟨entries, hstack, hrest⟩ := ih h
    refine ⟨first ++ entries, ?_, ?_⟩
    · rw [hstack, hfirst, append_assoc]
    · exact rel_append hstands hrest

theorem recreateNodeExecutionStack_stack {startNodes : List (INode P)}
    (h : recreateNodeExecutionStack runData pinData localeCompare graph
      startNodes = .ok recreated) :
    List.Forall₂ (Stands runData pinData)
      (startNodes.flatMap (stackGroups runData pinData localeCompare graph))
      recreated.nodeExecutionStack := by
  rw [recreateNodeExecutionStack] at h
  split at h
  · cases h
  · obtain ⟨entries, hstack, hstands⟩ := foldlM_recreateStartNode h
    rw [hstack]
    exact hstands

theorem stackGroups_consecutive {group : SourceConnectionGroup P}
    (h : some group ∈ stackGroups runData pinData localeCompare graph startNode) :
    ∃ first, Consecutive group.connections first := by
  unfold stackGroups at h
  split at h
  · cases mem_singleton.mp h
  · obtain ⟨g, hg, heq⟩ := mem_map.mp h
    cases heq
    have hmem := (mem_filter.mp hg).1
    rw [getSourceDataGroups] at hmem
    split at hmem
    · cases hmem
    · exact (loop_groupFuel (Nat.le_refl _)).consecutive _ rfl rfl group hmem

theorem forall₂_iff_of {α β : Type} {R Q : α → β → Prop} {C : α → Prop}
    {l : List α} {l' : List β} (h : List.Forall₂ R l l')
    (hiff : ∀ a ∈ l, ∀ b, R a b → (Q a b ↔ C a)) :
    List.Forall₂ Q l l' ↔ ∀ a ∈ l, C a := by
  induction h with
  | nil => exact iff_of_true .nil fun a ha => by cases ha
  | cons hab _ ih =>
    rw [forall₂_cons, forall_mem_cons, hiff _ (mem_cons_self ..) _ hab,
      ih fun a ha => hiff a (mem_cons_of_mem _ ha)]

end

def bothHaveRun : IRunData Unit :=
  firstHasRun.set "Second" [{ data := some (mainOnly oneItem), inputOverride := none }]

def recreatedFor (sources : List (String × Nat)) : Recreated Unit Unit :=
  match recreateNodeExecutionStack bothHaveRun .empty (fun _ _ => 0)
      (graphInto sources) [plainNode "Merge"] with
  | .ok recreated => recreated
  | .error _ => { nodeExecutionStack := [], waitingExecution := .empty }

end N8nSourceGroups
