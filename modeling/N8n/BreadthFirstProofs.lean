import N8n.FirstOfEachProofs
import N8n.ResolveOrderProofs
import N8n.WorkflowProofs

/-! # Breadth first — `searchNodesBFS` and the distances it gives

    The search runs in rounds; a round takes all nodes of the queue and fills
    a new one.  A node can be queued many times: its first visit gives its
    depth, every later one adds its inputs, also those of deeper rounds.

    `Queued` says what stands in the queue of a round, `Seen` what the search
    knows of the nodes it has met; that the depth of a node is its distance
    follows as the queues come in the order of their depths. -/

namespace N8nBreadthFirst

open N8nOrderedMap N8nWorkflow List OrderedMap
open N8nFirstOfEach (nodup_eraseDups)
open N8nResolveOrder (inherited)

structure IConnectedNode where
  name : String
  indicies : List Nat
  depth : Nat
deriving DecidableEq

/-- The slots of `connections[name].main`, run through. -/
def mainConnections (connections : IConnections) (name : String) : List IConnection :=
  (((connections.get? name).bind (·.get? .main)).getD []).flatMap (·.getD [])

structure Search where
  visited : OrderedMap String IConnectedNode
  /-- The names of the objects; each is the one that `visited` has. -/
  returnConns : List String
  queue : List IConnectedNode

inductive SearchError where
  | typeError | unfinished
deriving DecidableEq

section

variable (connections : IConnections) (sourceNode : String) (maxDepth : Int)

/-- One turn of `toAdd.forEach`.  What `visited` inherits has no `indicies`,
    and a node `hasOwnProperty` hides the method of the table. -/
def visit (depth : Nat) (s : Search) (curr : IConnectedNode) : Except SearchError Search :=
  match s.visited.get? curr.name with
  | some node => .ok { s with
      visited := s.visited.set curr.name
        { node with indicies := (node.indicies ++ curr.indicies).eraseDups } }
  | none =>
    if (inherited curr.name).isSome ∨ "hasOwnProperty" ∈ connections.keys then .error .typeError
    else .ok
      { visited := s.visited.set curr.name curr
        returnConns :=
          if curr.name = sourceNode then s.returnConns else s.returnConns ++ [curr.name]
        queue := s.queue ++ (mainConnections connections curr.name).map
          fun c => ⟨c.node, [c.index], depth⟩ }

def searchLoop : Nat → Nat → Search → Except SearchError Search
  | 0, _, _ => .error .unfinished
  | fuel + 1, depth, s =>
    if s.queue = [] ∨ maxDepth ≠ -1 ∧ (depth : Int) > maxDepth then .ok s
    else do
      let s ← s.queue.foldlM (visit connections sourceNode (depth + 1)) { s with queue := [] }
      searchLoop fuel (depth + 1) s

/-- The names a search can come upon. -/
def names : List String :=
  sourceNode :: (connections.keys.flatMap (mainConnections connections)).map (·.node)

def searchNodesBFS : Except SearchError (List IConnectedNode) := do
  let s ← searchLoop connections sourceNode maxDepth ((names connections sourceNode).length + 2) 0
    { visited := .empty, returnConns := [], queue := [⟨sourceNode, [], 0⟩] }
  return s.returnConns.filterMap s.visited.get?

/-! ## Distances -/

/-- A path of this length leads from the source to the node. -/
inductive Walk : Nat → String → Prop where
  | source : Walk 0 sourceNode
  | step {n : Nat} {name : String} {c : IConnection} (h : Walk n name)
      (hc : c ∈ mainConnections connections name) : Walk (n + 1) c.node

/-- The length of a shortest path. -/
def Distance (n : Nat) (name : String) : Prop :=
  Walk connections sourceNode n name ∧ ∀ m < n, ¬ Walk connections sourceNode m name

/-- What stands in the queue of a round. -/
def Queued : Nat → IConnectedNode → Prop
  | 0, q => q = ⟨sourceNode, [], 0⟩
  | n + 1, q => ∃ name, Distance connections sourceNode n name ∧
      ∃ c ∈ mainConnections connections name, q = ⟨c.node, [c.index], n + 1⟩

/-- No node is called like a member that every object has. -/
def PlainNames : Prop :=
  "hasOwnProperty" ∉ connections.keys
  ∧ ∀ name ∈ names connections sourceNode, inherited name = none

def Within (n : Nat) : Prop := maxDepth = -1 ∨ (n : Int) ≤ maxDepth

/-- The search gives the nodes that can be reached within the depth, each
    once and with its distance, and with the inputs of the connections from
    nodes at the distances that count for it. -/
def Answers (counts : IConnectedNode → Nat → Prop) : Prop :=
  ∃ result, searchNodesBFS connections sourceNode maxDepth = .ok result
    ∧ (result.map (·.name)).Nodup
    ∧ (∀ name, name ∈ result.map (·.name) ↔
        name ≠ sourceNode ∧ ∃ n, Within maxDepth n ∧ Walk connections sourceNode n name)
    ∧ ∀ node ∈ result, Distance connections sourceNode node.depth node.name
      ∧ node.indicies.Nodup
      ∧ ∀ i, i ∈ node.indicies ↔ ∃ n name, counts node n ∧ Distance connections sourceNode n name
          ∧ ∃ c ∈ mainConnections connections name, c.node = node.name ∧ c.index = i

end

section

variable {connections : IConnections} {sourceNode : String} {n : Nat} {name : String}

theorem Walk.exists_distance (h : Walk connections sourceNode n name) :
    ∃ m ≤ n, Distance connections sourceNode m name := by
  induction n using Nat.strongRecOn with
  | ind n ih =>
    by_cases hless : ∃ m < n, Walk connections sourceNode m name
    · obtain ⟨m, hm, hwalk⟩ := hless
      obtain ⟨k, hk, hdist⟩ := ih m hm hwalk
      exact ⟨k, by omega, hdist⟩
    · exact ⟨n, Nat.le_refl _, h, fun m hm hwalk => hless ⟨m, hm, hwalk⟩⟩

theorem Queued.depth {q : IConnectedNode} (h : Queued connections sourceNode n q) :
    q.depth = n := by
  cases n with
  | zero => rw [h]
  | succ n =>
    obtain ⟨_, _, _, _, rfl⟩ := h
    rfl

theorem Queued.walk {q : IConnectedNode} (h : Queued connections sourceNode n q) :
    Walk connections sourceNode n q.name := by
  cases n with
  | zero =>
    rw [h]
    exact .source
  | succ n =>
    obtain ⟨_, hdist, _, hc, rfl⟩ := h
    exact .step hdist.1 hc

theorem Distance.pred (h : Distance connections sourceNode (n + 1) name) :
    ∃ y, Distance connections sourceNode n y
      ∧ ∃ c ∈ mainConnections connections y, c.node = name := by
  obtain ⟨hwalk, hleast⟩ := h
  cases hwalk with
  | step hy hc =>
    exact ⟨_, ⟨hy, fun m hm hwalk => hleast (m + 1) (by omega) (.step hwalk hc)⟩, _, hc, rfl⟩

theorem Distance.queued (h : Distance connections sourceNode n name) :
    ∃ q, Queued connections sourceNode n q ∧ q.name = name := by
  cases n with
  | zero =>
    obtain ⟨hwalk, -⟩ := h
    cases hwalk
    exact ⟨_, rfl, rfl⟩
  | succ n =>
    obtain ⟨y, hy, c, hc, rfl⟩ := h.pred
    exact ⟨_, ⟨y, hy, c, hc, rfl⟩, rfl⟩

theorem Distance.inj {m : Nat} (h : Distance connections sourceNode n name)
    (h' : Distance connections sourceNode m name) : n = m :=
  Nat.le_antisymm (Nat.le_of_not_lt fun hlt => h.2 m hlt h'.1)
    (Nat.le_of_not_lt fun hlt => h'.2 n hlt h.1)

theorem Queued.mem_names {q : IConnectedNode} (h : Queued connections sourceNode n q) :
    q.name ∈ names connections sourceNode := by
  cases n with
  | zero =>
    rw [h]
    exact mem_cons_self ..
  | succ n =>
    obtain ⟨name, -, c, hc, rfl⟩ := h
    refine mem_cons_of_mem _ (mem_map_of_mem (mem_flatMap.mpr ⟨name, ?_, hc⟩))
    by_contra hnone
    rw [mainConnections, get?_eq_none.mpr hnone] at hc
    cases hc

/-! ## One visit -/

/-- An object of `visited` after these entries of the queues. -/
structure Fits (met : List IConnectedNode) (node : IConnectedNode) : Prop where
  depth : ∃ q ∈ met, q.name = node.name ∧ q.depth = node.depth
  least : ∀ q ∈ met, q.name = node.name → node.depth ≤ q.depth
  nodup : node.indicies.Nodup
  indicies : ∀ i, i ∈ node.indicies ↔ ∃ q ∈ met, q.name = node.name ∧ i ∈ q.indicies

variable {met : List IConnectedNode} {depth : Nat} {s : Search} {curr node : IConnectedNode}

theorem Fits.other (h : Fits met node) (hne : curr.name ≠ node.name) :
    Fits (met ++ [curr]) node := by
  obtain ⟨⟨q, hq, hdepth⟩, hleast, hnodup, hindicies⟩ := h
  refine ⟨⟨q, mem_append_left _ hq, hdepth⟩, fun q hq hname => ?_, hnodup, fun i => ?_⟩
  · rcases mem_append.mp hq with hq | hq
    · exact hleast q hq hname
    · exact absurd (mem_singleton.mp hq ▸ hname) hne
  · rw [hindicies]
    simp [or_and_right, exists_or, hne]

variable (sourceNode) in
/-- What the search knows once it has met these entries of its queues. -/
structure Known (met : List IConnectedNode) (s : Search) : Prop where
  rest : s.returnConns = s.visited.keys.filter (· ≠ sourceNode)
  mem : ∀ name, name ∈ s.visited.keys ↔ ∃ q ∈ met, q.name = name
  node : ∀ name node, s.visited.get? name = some node → node.name = name ∧ Fits met node

variable (connections sourceNode) in
/-- Inside a round the queue is that of the nodes which the round has found. -/
structure Seen (met : List IConnectedNode) (depth : Nat) (s : Search) : Prop
    extends Known sourceNode met s where
  queue : ∀ q, q ∈ s.queue ↔ ∃ name node, s.visited.get? name = some node
    ∧ node.depth + 1 = depth ∧ ∃ c ∈ mainConnections connections name,
      q = ⟨c.node, [c.index], depth⟩

theorem Known.set (h : Known sourceNode met s) (hname : node.name = curr.name)
    (hfits : Fits (met ++ [curr]) node) (name : String) (v : IConnectedNode)
    (hv : (s.visited.set curr.name node).get? name = some v) :
    v.name = name ∧ Fits (met ++ [curr]) v := by
  rw [get?_set] at hv
  split at hv
  · next heq =>
    cases hv
    exact ⟨hname.trans heq, hfits⟩
  · next hne =>
    obtain ⟨rfl, hfits⟩ := h.node _ _ hv
    exact ⟨rfl, hfits.other hne⟩

theorem Known.mem_set (h : Known sourceNode met s) (node : IConnectedNode)
    (name : String) : name ∈ (s.visited.set curr.name node).keys
      ↔ ∃ q ∈ met ++ [curr], q.name = name := by
  rw [mem_keys_set, h.mem]
  simp [or_and_right, exists_or, or_comm, eq_comm]

theorem Seen.visit (h : Seen connections sourceNode met depth s)
    (hkeys : "hasOwnProperty" ∉ connections.keys) (hcurr : inherited curr.name = none)
    (hdepth : curr.depth + 1 = depth) (hmet : ∀ q ∈ met, q.depth ≤ curr.depth)
    (hnodup : curr.indicies.Nodup) :
    ∃ t, visit connections sourceNode depth s curr = .ok t
      ∧ Seen connections sourceNode (met ++ [curr]) depth t := by
  rw [N8nBreadthFirst.visit]
  rcases hget : s.visited.get? curr.name with _ | node
  · have hnew := get?_eq_none.mp hget
    have hfirst : ∀ q ∈ met, q.name ≠ curr.name := fun q hq hname =>
      hnew ((h.mem _).mpr ⟨q, hq, hname⟩)
    refine ⟨_, if_neg (by simp [hcurr, hkeys]), ⟨?_, h.mem_set curr, h.set rfl ?_⟩, fun q => ?_⟩
    · rw [keys_set, if_neg hnew, filter_append, h.rest]
      by_cases hsource : curr.name = sourceNode <;> simp [hsource]
    · refine ⟨⟨curr, by simp, rfl, rfl⟩, fun q hq hname => ?_, hnodup, fun i => ?_⟩
      · rcases mem_append.mp hq with hq | hq
        · exact absurd hname (hfirst q hq)
        · exact Nat.le_of_eq (congrArg _ (mem_singleton.mp hq).symm)
      · constructor
        · exact fun hi => ⟨curr, by simp, rfl, hi⟩
        · rintro ⟨q, hq, hname, hi⟩
          rcases mem_append.mp hq with hq | hq
          · exact absurd hname (hfirst q hq)
          · rwa [← mem_singleton.mp hq]
    · rw [mem_append, h.queue]
      constructor
      · rintro (⟨name, node, hname, hq⟩ | hq)
        · refine ⟨name, node, ?_, hq⟩
          rw [get?_set, if_neg, hname]
          rintro rfl
          rw [hget] at hname
          cases hname
        · obtain ⟨c, hc, rfl⟩ := mem_map.mp hq
          exact ⟨curr.name, curr, by rw [get?_set, if_pos rfl], hdepth, c, hc, rfl⟩
      · rintro ⟨name, node, hname, hd, c, hc, rfl⟩
        rw [get?_set] at hname
        split at hname
        · next heq =>
          exact .inr (mem_map.mpr ⟨c, heq ▸ hc, rfl⟩)
        · exact .inl ⟨name, node, hname, hd, c, hc, rfl⟩
  · obtain ⟨hname, hfits⟩ := h.node _ _ hget
    refine ⟨_, rfl, ⟨?_, h.mem_set _, h.set hname ?_⟩, fun q => ?_⟩
    · rw [keys_set, if_pos (mem_keys_of_get? hget), h.rest]
    · obtain ⟨⟨q, hq, hq'⟩, hleast, -, hindicies⟩ := hfits
      refine ⟨⟨q, mem_append_left _ hq, hq'⟩, fun q hq hqname => ?_, nodup_eraseDups _, fun i => ?_⟩
      · rcases mem_append.mp hq with hq | hq
        · exact hleast q hq hqname
        · rw [mem_singleton.mp hq]
          exact hq'.2 ▸ hmet _ ‹_›
      · rw [mem_eraseDups, mem_append, hindicies]
        simp [or_and_right, exists_or, hname]
    · rw [h.queue]
      constructor
      · rintro ⟨name, v, hv, hd, hq⟩
        by_cases heq : name = curr.name
        · subst heq
          cases hget.symm.trans hv
          exact ⟨_, _, (get?_set ..).trans (if_pos rfl), hd, hq⟩
        · exact ⟨name, v, by rw [get?_set, if_neg (Ne.symm heq), hv], hd, hq⟩
      · rintro ⟨name, v, hv, hd, hq⟩
        rw [get?_set] at hv
        split at hv
        · next heq =>
          cases hv
          exact ⟨_, _, hget, hd, heq ▸ hq⟩
        · exact ⟨name, v, hv, hd, hq⟩

theorem Seen.visits {queue : List IConnectedNode} (h : Seen connections sourceNode met depth s)
    (hkeys : "hasOwnProperty" ∉ connections.keys)
    (hqueue : ∀ q ∈ queue, inherited q.name = none ∧ q.depth + 1 = depth ∧ q.indicies.Nodup)
    (hmet : ∀ q ∈ met, q.depth < depth) :
    ∃ t, queue.foldlM (N8nBreadthFirst.visit connections sourceNode depth) s = .ok t
      ∧ Seen connections sourceNode (met ++ queue) depth t := by
  induction queue generalizing met s with
  | nil => exact ⟨s, rfl, by rwa [append_nil]⟩
  | cons curr queue ih =>
    obtain ⟨⟨hcurr, hdepth, hnodup⟩, hqueue⟩ := forall_mem_cons.mp hqueue
    obtain ⟨t, ht, hseen⟩ := h.visit hkeys hcurr hdepth
      (fun q hq => by have := hmet q hq; omega) hnodup
    obtain ⟨u, hu, hseen⟩ := ih hseen hqueue fun q hq => by
      rcases mem_append.mp hq with hq | hq
      · exact hmet q hq
      · rw [mem_singleton.mp hq]
        omega
    rw [foldlM_cons, ht]
    exact ⟨u, hu, by simpa using hseen⟩

/-! ## The rounds -/

variable (connections sourceNode) in
/-- The state at the start of a round. -/
structure Round (n : Nat) (met : List IConnectedNode) (s : Search) : Prop
    extends Known sourceNode met s where
  met_iff : ∀ q, q ∈ met ↔ ∃ d < n, Queued connections sourceNode d q
  queue_iff : ∀ q, q ∈ s.queue ↔ Queued connections sourceNode n q
  size : s.queue ≠ [] → n ≤ s.visited.keys.length

section

variable (h : Known sourceNode met s)
  (hmet : ∀ q, q ∈ met ↔ ∃ d < n, Queued connections sourceNode d q)

include h hmet

theorem Known.distance (hget : s.visited.get? name = some node) :
    Distance connections sourceNode node.depth name := by
  obtain ⟨rfl, ⟨q, hq, hname, hdepth⟩, hleast, -, -⟩ := h.node _ _ hget
  obtain ⟨d, hd, hq⟩ := (hmet q).mp hq
  obtain rfl := hq.depth.symm.trans hdepth
  refine ⟨hname ▸ hq.walk, fun m hm hwalk => ?_⟩
  obtain ⟨k, hk, hdist⟩ := hwalk.exists_distance
  obtain ⟨q', hq', hname'⟩ := hdist.queued
  have hle := hleast q' ((hmet q').mpr ⟨k, by omega, hq'⟩) hname'
  rw [hq'.depth] at hle
  omega

theorem Known.get?_of_distance {d : Nat} (hd : d < n)
    (hdist : Distance connections sourceNode d name) :
    ∃ node, s.visited.get? name = some node ∧ node.depth = d := by
  obtain ⟨q, hq, hname⟩ := hdist.queued
  obtain ⟨node, hnode⟩ := exists_get? ((h.mem name).mpr ⟨q, (hmet q).mpr ⟨d, hd, hq⟩, hname⟩)
  exact ⟨node, hnode, (h.distance hmet hnode).inj hdist⟩

end

variable (hplain : PlainNames connections sourceNode)

include hplain

theorem Round.next (h : Round connections sourceNode n met s) (hne : s.queue ≠ []) :
    ∃ t, s.queue.foldlM (visit connections sourceNode (n + 1)) { s with queue := [] } = .ok t
      ∧ Round connections sourceNode (n + 1) (met ++ s.queue) t := by
  have hless : ∀ q ∈ met, q.depth < n := fun q hq => by
    obtain ⟨d, hd, hq⟩ := (h.met_iff q).mp hq
    rwa [hq.depth]
  have hstart : Seen connections sourceNode met (n + 1) { s with queue := [] } := by
    refine ⟨⟨h.rest, h.mem, h.node⟩, fun q => ⟨fun hq => (not_mem_nil hq).elim, ?_⟩⟩
    rintro ⟨name, node, hget, hdepth, -⟩
    obtain ⟨-, ⟨q, hq, -, heq⟩, -⟩ := h.node _ _ hget
    have := hless q hq
    omega
  obtain ⟨t, ht, hknown, hqueue⟩ := hstart.visits hplain.1 (fun q hq => by
    have hqueued := (h.queue_iff q).mp hq
    refine ⟨hplain.2 _ hqueued.mem_names, by rw [hqueued.depth], ?_⟩
    cases n with
    | zero =>
      rw [hqueued]
      exact nodup_nil
    | succ n =>
      obtain ⟨_, _, _, _, rfl⟩ := hqueued
      exact (pairwise_singleton ..)) fun q hq => Nat.lt_succ_of_lt (hless q hq)
  have hmet (q) : q ∈ met ++ s.queue ↔ ∃ d < n + 1, Queued connections sourceNode d q := by
    rw [mem_append, h.met_iff, h.queue_iff, Nat.exists_lt_succ_right]
  have hiff (q) : q ∈ t.queue ↔ Queued connections sourceNode (n + 1) q := by
    rw [hqueue]
    constructor
    · rintro ⟨name, node, hget, hdepth, hq⟩
      obtain rfl := Nat.succ.inj hdepth
      exact ⟨name, hknown.distance hmet hget, hq⟩
    · rintro ⟨name, hdist, hq⟩
      obtain ⟨node, hget, hdepth⟩ := hknown.get?_of_distance hmet (Nat.lt_succ_self n) hdist
      exact ⟨name, node, hget, congrArg _ hdepth, hq⟩
  refine ⟨t, ht, hknown, hmet, hiff, fun hmore => ?_⟩
  obtain ⟨q, hq⟩ := exists_mem_of_ne_nil _ hmore
  obtain ⟨name, hdist, -⟩ := (hiff q).mp hq
  obtain ⟨node, hget, -⟩ := hknown.get?_of_distance hmet (Nat.lt_succ_self n) hdist
  have hnew : name ∉ s.visited.keys := fun hold => by
    obtain ⟨q, hq, rfl⟩ := (h.mem name).mp hold
    obtain ⟨d, hd, hq⟩ := (h.met_iff q).mp hq
    exact hdist.2 d hd hq.walk
  refine Nat.le_trans (Nat.succ_le_succ (h.size hne)) (subperm_of_subset
    (nodup_cons.mpr ⟨hnew, s.visited.nodup⟩) (cons_subset.mpr
      ⟨mem_keys_of_get? hget, fun x hx => ?_⟩)).length_le
  obtain ⟨q, hq, hname⟩ := (h.mem x).mp hx
  exact (hknown.mem x).mpr ⟨q, mem_append_left _ hq, hname⟩

omit hplain in
theorem Round.length_le (h : Round connections sourceNode n met s) :
    s.visited.keys.length ≤ (names connections sourceNode).length := by
  refine (subperm_of_subset s.visited.nodup fun name hname => ?_).length_le
  obtain ⟨q, hq, rfl⟩ := (h.mem name).mp hname
  obtain ⟨d, -, hq⟩ := (h.met_iff q).mp hq
  exact hq.mem_names

omit hplain in
theorem Queued.before {q : IConnectedNode} {m : Nat} (h : Queued connections sourceNode m q)
    (hle : n ≤ m) : ∃ q, Queued connections sourceNode n q := by
  induction m generalizing q with
  | zero => exact ⟨q, Nat.le_zero.mp hle ▸ h⟩
  | succ m ih =>
    rcases Nat.le_succ_iff.mp hle with hle | rfl
    · obtain ⟨name, hdist, -⟩ := h
      obtain ⟨q, hq, -⟩ := hdist.queued
      exact ih hq hle
    · exact ⟨q, h⟩

theorem searchLoop_ok (maxDepth : Int) {fuel : Nat} (h : Round connections sourceNode n met s)
    (hfuel : (names connections sourceNode).length + 2 ≤ fuel + n)
    (hn : n ≤ (names connections sourceNode).length + 1) (hwithin : ∀ d < n, Within maxDepth d) :
    ∃ t m met, searchLoop connections sourceNode maxDepth fuel n s = .ok t
      ∧ Round connections sourceNode m met t
      ∧ ∀ d q, Queued connections sourceNode d q → (d < m ↔ Within maxDepth d) := by
  induction fuel generalizing n met s with
  | zero => omega
  | succ fuel ih =>
    rw [searchLoop]
    by_cases hstop : s.queue = [] ∨ maxDepth ≠ -1 ∧ (n : Int) > maxDepth
    · refine ⟨s, n, met, if_pos hstop, h, fun d q hq => ⟨hwithin d, fun hd => ?_⟩⟩
      rcases hstop with hempty | ⟨hmax, hover⟩
      · by_contra hge
        obtain ⟨q, hq⟩ := hq.before (Nat.le_of_not_lt hge)
        exact not_mem_nil (hempty ▸ (h.queue_iff q).mpr hq)
      · rcases hd with hd | hd
        · exact absurd hd hmax
        · omega
    · obtain ⟨hne, hmore⟩ := not_or.mp hstop
      obtain ⟨t, ht, hround⟩ := h.next hplain hne
      have hle := Nat.le_trans (h.size hne) h.length_le
      rw [if_neg hstop, ht]
      refine ih hround (by omega) (by omega) fun d hd => ?_
      rcases Nat.lt_succ_iff_lt_or_eq.mp hd with hd | rfl
      · exact hwithin d hd
      · rw [Within]
        omega

/-- **BREADTH FIRST**: the search gives every node but the source that can
    be reached within the depth, once and with its distance; its inputs are
    those of all connections the search has gone along, also of those from
    nodes that are as deep as the node or deeper. -/
theorem searchNodesBFS_answers (maxDepth : Int) :
    Answers connections sourceNode maxDepth fun _ n => Within maxDepth (n + 1) := by
  have hstart : Round connections sourceNode 0 []
      { visited := .empty, returnConns := [], queue := [⟨sourceNode, [], 0⟩] } :=
    ⟨⟨rfl, fun name => by simp [OrderedMap.keys, OrderedMap.empty], fun _ _ h => by cases h⟩,
      by simp, by simp [Queued], fun _ => Nat.zero_le _⟩
  obtain ⟨t, m, met, ht, hround, hiff⟩ := searchLoop_ok hplain maxDepth hstart
    (Nat.le_refl _) (Nat.zero_le _) fun d hd => absurd hd (Nat.not_lt_zero d)
  have hgets (name) (hname : name ∈ t.returnConns) :
      ∃ node, t.visited.get? name = some node ∧ node.name = name := by
    rw [hround.rest] at hname
    obtain ⟨node, hget⟩ := exists_get? (mem_filter.mp hname).1
    exact ⟨node, hget, (hround.node _ _ hget).1⟩
  have hnames : (t.returnConns.filterMap t.visited.get?).map (·.name) = t.returnConns := by
    rw [map_filterMap]
    refine (filterMap_congr fun name hname => ?_).trans filterMap_some
    obtain ⟨node, hget, hname⟩ := hgets name hname
    rw [hget, Option.map_some, hname]
  refine ⟨_, by rw [searchNodesBFS, ht]; rfl, ?_, fun name => ?_, fun node hnode => ?_⟩
  · rw [hnames, hround.rest]
    exact t.visited.nodup.filter _
  · rw [hnames, hround.rest, mem_filter, hround.mem, decide_eq_true_iff, and_comm]
    refine and_congr_right fun _ => ⟨?_, ?_⟩
    · rintro ⟨q, hq, rfl⟩
      obtain ⟨d, hd, hq⟩ := (hround.met_iff q).mp hq
      exact ⟨d, (hiff d q hq).mp hd, hq.walk⟩
    · rintro ⟨n, hn, hwalk⟩
      obtain ⟨d, hd, hdist⟩ := hwalk.exists_distance
      obtain ⟨q, hq, hname⟩ := hdist.queued
      have hwithin : Within maxDepth d := hn.imp_right fun hn => by omega
      exact ⟨q, (hround.met_iff q).mpr ⟨d, (hiff d q hq).mpr hwithin, hq⟩, hname⟩
  · obtain ⟨name, -, hget⟩ := mem_filterMap.mp hnode
    obtain ⟨rfl, hfits⟩ := hround.node _ _ hget
    refine ⟨hround.distance hround.met_iff hget, hfits.nodup, fun i => ?_⟩
    rw [hfits.indicies]
    constructor
    · rintro ⟨q, hq, hname, hi⟩
      obtain ⟨d, hd, hq⟩ := (hround.met_iff q).mp hq
      have hwithin := (hiff d q hq).mp hd
      cases d with
      | zero =>
        rw [hq] at hi
        cases hi
      | succ d =>
        obtain ⟨name, hdist, c, hc, rfl⟩ := hq
        exact ⟨d, name, hwithin, hdist, c, hc, hname, (mem_singleton.mp hi).symm⟩
    · rintro ⟨d, name, hwithin, hdist, c, hc, hname, rfl⟩
      have hq : Queued connections sourceNode (d + 1) ⟨c.node, [c.index], d + 1⟩ :=
        ⟨name, hdist, c, hc, rfl⟩
      exact ⟨_, (hround.met_iff _).mpr ⟨d + 1, (hiff _ _ hq).mpr hwithin, hq⟩, hname,
        mem_singleton_self _⟩

end

/-- Two nodes after the first, and a connection from the one to the other. -/
def shortcut : IConnections :=
  ⟨[("Start", ⟨[(.main, [some [⟨"Merge", .main, 0⟩, ⟨"Set", .main, 0⟩]])], by decide⟩),
    ("Set", ⟨[(.main, [some [⟨"Merge", .main, 1⟩]])], by decide⟩)], by decide⟩

theorem searchNodesBFS_answers_shortcut :
    Answers shortcut "Start" (-1) fun _ n => Within (-1) (n + 1) :=
  searchNodesBFS_answers ⟨by decide, by decide⟩ (-1)

/-- `Merge` is one step away, and its input from two steps is among its
    inputs. -/
theorem not_answers_shortcut :
    ¬ Answers shortcut "Start" (-1) fun node n => n + 1 = node.depth := by
  rintro ⟨result, hresult, -, -, hnodes⟩
  have hrun : searchNodesBFS shortcut "Start" (-1)
      = .ok [⟨"Merge", [0, 1], 1⟩, ⟨"Set", [0], 1⟩] := by decide
  cases hrun.symm.trans hresult
  obtain ⟨-, -, hindicies⟩ := hnodes _ (mem_cons_self ..)
  obtain ⟨n, name, hn, hdist, c, hc, -, hi⟩ := (hindicies 1).mp (by decide)
  cases hn
  cases hdist.1
  revert hi
  revert c
  decide

end N8nBreadthFirst
