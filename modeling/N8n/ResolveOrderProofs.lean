import N8n.OrderedMapProofs

/-! # The order parameters are resolved in — a work list that gives up waiting

    A parameter whose dependencies are missing is put back on the work list,
    once for every missing one.  The `continue` behind that belongs to the
    loop over the dependencies, so the parameter is added all the same, and
    added again whenever the work list comes back to it.

    The engine of this file is `loop_counts`: what is on the work list ends
    up in the order, as often as it is there.  So an index that is ever put
    back is resolved twice, and the order is right only where the list of
    parameters already is (`resolvesInOrder_iff`). -/

namespace N8nResolveOrder

open N8nOrderedMap List

/-- A parameter; a rule of its `displayOptions` is the list of its keys. -/
structure INodeProperties where
  name : String
  displayOptions : Option (List (List String))

def INodeProperties.displayed (p : INodeProperties) : List String :=
  (p.displayOptions.getD []).flatten

/-- `parameterName.charAt(0) === '@'` -/
def isSpecial (parameterName : String) : Bool := parameterName.toList.head? = some '@'

/-- `dependency.charAt(0) === '/'` -/
def isRoot (dependency : String) : Bool := dependency.toList.head? = some '/'

inductive ResolveError where
  | typeError | maxIterations
deriving DecidableEq

/-- What every object has: functions, with their `length`, and its prototype. -/
inductive Inherited where
  | function (length : Nat) | prototype
deriving DecidableEq

def inherited : String → Option Inherited
  | "constructor" | "hasOwnProperty" | "isPrototypeOf" => some (.function 1)
  | "propertyIsEnumerable" | "__lookupGetter__" | "__lookupSetter__" => some (.function 1)
  | "__defineGetter__" | "__defineSetter__" => some (.function 2)
  | "toString" | "valueOf" | "toLocaleString" => some (.function 0)
  | "__proto__" => some .prototype
  | _ => none

/-- The own properties of the object; a name it inherits is never set. -/
abbrev IParameterDependencies := OrderedMap String (List String)

def addDependency (dependencies : List String) (parameterName : String) : List String :=
  if parameterName ∈ dependencies then dependencies
  else if isSpecial parameterName then dependencies
  else dependencies ++ [parameterName]

def addDependencies (dependencies : IParameterDependencies) (p : INodeProperties) :
    Except ResolveError IParameterDependencies :=
  match inherited p.name with
  | none => .ok (dependencies.set p.name
      (p.displayed.foldl addDependency ((dependencies.get? p.name).getD [])))
  | some _ => if p.displayed = [] then .ok dependencies else .error .typeError

def getParameterDependencies (nodePropertiesArray : List INodeProperties) :
    Except ResolveError IParameterDependencies :=
  nodePropertiesArray.foldlM addDependencies .empty

/-- The variables of `getParameterResolveOrder`. -/
structure Resolve where
  executionOrder : List Nat
  indexToResolve : List Nat
  resolvedParameters : List String
  lastIndexLength : Nat
  lastIndexReduction : Int
  iterations : Nat

def Resolve.start (length : Nat) : Resolve :=
  { executionOrder := [], indexToResolve := range length, resolvedParameters := []
    lastIndexLength := length, lastIndexReduction := -1, iterations := 0 }

/-- `parameterDependencies[name]`, as a list to go through. -/
def dependenciesOf (dependencies : IParameterDependencies) (name : String) :
    Except ResolveError (List String) :=
  match inherited name with
  | none =>
    match dependencies.get? name with
    | some l => .ok l
    | none => .error .typeError
  | some (.function 0) => .ok []
  | some _ => .error .typeError

def missing (resolvedParameters dependencies : List String) : List String :=
  dependencies.filter fun d => d ∉ resolvedParameters ∧ isRoot d = false

/-- `lastIndexReduction` after a turn that leaves a work list of the length. -/
def Resolve.reduction (s : Resolve) (length : Nat) : Int :=
  if length < s.lastIndexLength then s.iterations + 1 else s.lastIndexReduction

/-- One turn of the loop, with `index` taken off the work list `queue`. -/
def step (dependencies : IParameterDependencies) (props : List INodeProperties)
    (s : Resolve) (index : Nat) (queue : List Nat) : Except ResolveError Resolve :=
  match props[index]? with
  | none => .error .typeError
  | some property =>
    match dependenciesOf dependencies property.name with
    | .error e => .error e
    | .ok found =>
      let added := { s with
        executionOrder := s.executionOrder ++ [index]
        indexToResolve := queue ++ (missing s.resolvedParameters found).map fun _ => index
        resolvedParameters := s.resolvedParameters ++ [property.name]
        iterations := s.iterations + 1 }
      if found = [] then .ok added
      else if added.iterations > s.reduction added.indexToResolve.length + props.length then
        .error .maxIterations
      else .ok { added with
        lastIndexReduction := s.reduction added.indexToResolve.length
        lastIndexLength := added.indexToResolve.length }

def loop (dependencies : IParameterDependencies) (props : List INodeProperties) :
    Nat → Resolve → Option (Except ResolveError (List Nat))
  | 0, _ => none
  | fuel + 1, s =>
    match s.indexToResolve with
    | [] => some (.ok s.executionOrder)
    | index :: rest =>
      match step dependencies props s index rest with
      | .error e => some (.error e)
      | .ok s => loop dependencies props fuel s

/-- The order that is returned for the parameters. -/
def Resolves (props : List INodeProperties) (order : List Nat) : Prop :=
  ∃ dependencies fuel, getParameterDependencies props = .ok dependencies ∧
    loop dependencies props fuel (.start props.length) = some (.ok order)

/-- The parameter is shown depending on one of the name, other than a special
    or a root-level one. -/
def INodeProperties.DependsOn (p : INodeProperties) (name : String) : Prop :=
  name ∈ p.displayed ∧ isSpecial name = false ∧ isRoot name = false

/-- Every index is returned once, after those its parameter depends on. -/
def ResolvesInOrder (props : List INodeProperties) : Prop :=
  ∃ order, Resolves props order ∧ order.Perm (range props.length) ∧
    ∀ i j p q, props[i]? = some p → props[j]? = some q → p.DependsOn q.name →
      order.idxOf j < order.idxOf i

/-- The parameters stand in an order to resolve them in: all that a parameter
    depends on comes before it, and some parameter of every name that one of
    its own name depends on. -/
structure InOrder (props : List INodeProperties) : Prop where
  names : ∀ p ∈ props,
    inherited p.name = none ∨ inherited p.name = some (.function 0) ∧ p.displayed = []
  earlier : ∀ (i : Nat) (p q : INodeProperties) (d : String), props[i]? = some p →
    q ∈ props → q.name = p.name → q.DependsOn d →
    d ∈ (props.take i).map INodeProperties.name
  all : ∀ (i j : Nat) (p q : INodeProperties), props[i]? = some p → props[j]? = some q →
    p.DependsOn q.name → j < i

variable {props : List INodeProperties} {dependencies acc : IParameterDependencies}

/-! ## The dependencies -/

theorem mem_foldl_addDependency {l found : List String} {d : String} :
    d ∈ l.foldl addDependency found ↔ d ∈ found ∨ d ∈ l ∧ isSpecial d = false := by
  induction l generalizing found with
  | nil => simp
  | cons a rest ih =>
    rw [foldl_cons, ih, addDependency]
    by_cases hfound : a ∈ found
    · grind
    · cases hspecial : isSpecial a <;> grind

/-- The names found for `name`, beyond those that were there. -/
def Found (props : List INodeProperties) (name d : String) : Prop :=
  ∃ q ∈ props, q.name = name ∧ d ∈ q.displayed ∧ isSpecial d = false

theorem foldlM_addDependencies (h : props.foldlM addDependencies acc = .ok dependencies) :
    (∀ p ∈ props, inherited p.name = none ∨ p.displayed = []) ∧ ∀ name, inherited name = none →
      (name ∈ props.map INodeProperties.name → name ∈ dependencies.keys) ∧
      (name ∈ acc.keys → name ∈ dependencies.keys) ∧ ∀ d, d ∈ (dependencies.get? name).getD [] ↔
        d ∈ (acc.get? name).getD [] ∨ Found props name d := by
  induction props generalizing acc with
  | nil =>
    cases h
    exact ⟨nofun, fun name _ => ⟨nofun, id, fun d => by simp [Found]⟩⟩
  | cons p rest ih =>
    rw [foldlM_cons] at h
    cases hinherited : inherited p.name with
    | some x =>
      by_cases hnil : p.displayed = []
      · have hstep : addDependencies acc p = .ok acc := by
          rw [addDependencies, hinherited]
          exact if_pos hnil
        rw [hstep] at h
        obtain ⟨hplain, hrest⟩ := ih h
        refine ⟨forall_mem_cons.mpr ⟨.inr hnil, hplain⟩, ?_⟩
        intro name hname
        obtain ⟨hlisted, hkeys, hfound⟩ := hrest name hname
        have hne : p.name ≠ name := by
          rintro rfl
          cases hname.symm.trans hinherited
        refine ⟨?_, hkeys, ?_⟩
        · intro hmem
          rcases mem_cons.mp hmem with heq | hmem
          · exact absurd heq.symm hne
          · exact hlisted hmem
        · intro d
          rw [hfound, Found, Found, exists_mem_cons_iff]
          simp [hne]
      · have hstep : addDependencies acc p = .error .typeError := by
          rw [addDependencies, hinherited]
          exact if_neg hnil
        rw [hstep] at h
        cases h
    | none =>
      have hstep : addDependencies acc p = .ok (acc.set p.name
          (p.displayed.foldl addDependency ((acc.get? p.name).getD []))) := by
        rw [addDependencies, hinherited]
      rw [hstep] at h
      obtain ⟨hplain, hrest⟩ := ih h
      refine ⟨forall_mem_cons.mpr ⟨.inl hinherited, hplain⟩, ?_⟩
      intro name hname
      obtain ⟨hlisted, hkeys, hfound⟩ := hrest name hname
      refine ⟨?_, fun hmem => hkeys (OrderedMap.mem_keys_set.mpr (.inr hmem)), ?_⟩
      · intro hmem
        rcases mem_cons.mp hmem with heq | hmem
        · exact hkeys (OrderedMap.mem_keys_set.mpr (.inl heq))
        · exact hlisted hmem
      · intro d
        rw [hfound, OrderedMap.get?_set, Found, Found, exists_mem_cons_iff]
        by_cases heq : p.name = name
        · subst heq
          rw [if_pos rfl, Option.getD_some, mem_foldl_addDependency, or_assoc]
          simp
        · simp [heq]

theorem exists_dependencies (h : ∀ p ∈ props, inherited p.name = none ∨ p.displayed = []) :
    ∃ dependencies, props.foldlM addDependencies acc = .ok dependencies := by
  induction props generalizing acc with
  | nil => exact ⟨acc, rfl⟩
  | cons p rest ih =>
    obtain ⟨hp, hrest⟩ := forall_mem_cons.mp h
    obtain ⟨next, hstep⟩ : ∃ next, addDependencies acc p = .ok next := by
      rw [addDependencies]
      cases hinherited : inherited p.name with
      | none => exact ⟨_, rfl⟩
      | some x =>
        have hnil := hp.resolve_left (by rw [hinherited]; nofun)
        exact ⟨acc, if_pos hnil⟩
    rw [foldlM_cons, hstep]
    exact ih hrest

/-! ## The work list -/

variable {s t : Resolve} {index n k : Nat} {rest order : List Nat}

theorem step_ok (h : step dependencies props s index rest = .ok t) :
    ∃ p found, props[index]? = some p ∧ dependenciesOf dependencies p.name = .ok found ∧
      t.executionOrder = s.executionOrder ++ [index] ∧ t.indexToResolve =
        rest ++ (missing s.resolvedParameters found).map (fun _ => index) ∧
      t.resolvedParameters = s.resolvedParameters ++ [p.name] ∧
      (t.lastIndexLength = s.lastIndexLength ∨ t.lastIndexLength = t.indexToResolve.length) := by
  rw [step] at h
  cases hp : props[index]? with
  | none =>
    rw [hp] at h
    cases h
  | some p =>
    rw [hp] at h
    dsimp only at h
    cases hfound : dependenciesOf dependencies p.name with
    | error e =>
      rw [hfound] at h
      cases h
    | ok found =>
      rw [hfound] at h
      dsimp only at h
      by_cases hnil : found = []
      · rw [if_pos hnil] at h
        cases h
        exact ⟨p, found, rfl, hfound, rfl, rfl, rfl, .inl rfl⟩
      · rw [if_neg hnil] at h
        split at h
        · cases h
        · cases h
          exact ⟨p, found, rfl, hfound, rfl, rfl, rfl, .inr rfl⟩

/-- **What is on the work list is resolved**, as often as it is there. -/
theorem loop_counts {fuel : Nat} (h : loop dependencies props fuel s = some (.ok order)) :
    ∃ tail, order = s.executionOrder ++ tail ∧ ∀ i, s.indexToResolve.count i ≤ tail.count i := by
  induction fuel generalizing s with
  | zero => cases h
  | succ fuel ih =>
    rw [loop] at h
    cases hqueue : s.indexToResolve with
    | nil =>
      rw [hqueue] at h
      cases h
      exact ⟨[], (append_nil _).symm, fun i => Nat.le_refl _⟩
    | cons index rest =>
      rw [hqueue] at h
      dsimp only at h
      cases hstep : step dependencies props s index rest with
      | error e =>
        rw [hstep] at h
        cases h
      | ok t =>
        rw [hstep] at h
        obtain ⟨p, found, -, -, horder, hleft, -⟩ := step_ok hstep
        obtain ⟨tail, htail, hcount⟩ := ih h
        refine ⟨index :: tail, by rw [htail, horder, append_assoc]; rfl, ?_⟩
        intro i
        have hi := hcount i
        rw [hleft, count_append] at hi
        rw [count_cons, count_cons]
        omega

/-- The loop before index `k`, when nothing was put back. -/
structure At (props : List INodeProperties) (k : Nat) (s : Resolve) : Prop where
  le : k ≤ props.length
  order : s.executionOrder = range k
  queue : s.indexToResolve = range' k (props.length - k)
  resolved : s.resolvedParameters = (props.take k).map INodeProperties.name
  length : props.length - k ≤ s.lastIndexLength

theorem at_start (props : List INodeProperties) : At props 0 (.start props.length) :=
  ⟨Nat.zero_le _, rfl, by rw [Resolve.start, range_eq_range', Nat.sub_zero], rfl, Nat.le_refl _⟩

/-- Nothing that the parameter at `k` waits for is missing. -/
def Ready (dependencies : IParameterDependencies) (props : List INodeProperties) (k : Nat) : Prop :=
  ∀ p, props[k]? = some p → ∃ found, dependenciesOf dependencies p.name = .ok found ∧
    missing ((props.take k).map INodeProperties.name) found = []

theorem queue_cons (hat : At props k s) (hk : k < props.length) :
    s.indexToResolve = k :: range' (k + 1) (props.length - (k + 1)) := by
  rw [hat.queue, show props.length - k = props.length - (k + 1) + 1 by omega, range'_succ]

theorem At.next (hat : At props k s) (hk : k < props.length)
    (hstep : step dependencies props s k (range' (k + 1) (props.length - (k + 1))) = .ok t)
    (hready : Ready dependencies props k) : At props (k + 1) t := by
  obtain ⟨p, found, hp, hfound, horder, hleft, hresolved, hlength⟩ := step_ok hstep
  obtain ⟨found', hfound', hnone⟩ := hready p hp
  cases hfound.symm.trans hfound'
  rw [hat.resolved, hnone, map_nil, append_nil] at hleft
  have hlast := hat.length
  refine ⟨hk, ?_, hleft, ?_, ?_⟩
  · rw [horder, hat.order, range_succ]
  · rw [hresolved, hat.resolved, take_add_one, hp, map_append]
    rfl
  · rcases hlength with h | h
    · omega
    · exact Nat.le_of_eq (h.trans (by rw [hleft, length_range'])).symm

theorem loop_ready (hat : At props k s) (hready : ∀ i, k ≤ i → Ready dependencies props i) :
    ∃ fuel, loop dependencies props fuel s = some (.ok (range props.length)) := by
  induction hm : props.length - k generalizing k s with
  | zero =>
    have hqueue := hat.queue
    rw [hm] at hqueue
    have hk : k = props.length := Nat.le_antisymm hat.le (Nat.sub_eq_zero_iff_le.mp hm)
    refine ⟨1, ?_⟩
    rw [loop, hqueue, hat.order, hk]
    rfl
  | succ m ih =>
    have hk : k < props.length := by omega
    obtain ⟨p, hp⟩ : ∃ p, props[k]? = some p := ⟨_, getElem?_eq_getElem hk⟩
    obtain ⟨found, hfound, hnone⟩ := hready k (Nat.le_refl k) p hp
    obtain ⟨t, hstep⟩ : ∃ t,
        step dependencies props s k (range' (k + 1) (props.length - (k + 1))) = .ok t := by
      have hlast := hat.length
      rw [step, hp]
      dsimp only
      rw [hfound]
      dsimp only
      rw [hat.resolved, hnone, map_nil, append_nil, length_range',
        Resolve.reduction, if_pos (show props.length - (k + 1) < s.lastIndexLength by omega)]
      split
      · exact ⟨_, rfl⟩
      · rw [if_neg (by omega)]
        exact ⟨_, rfl⟩
    obtain ⟨fuel, hloop⟩ := ih (hat.next hk hstep (hready k (Nat.le_refl k)))
      (fun i hi => hready i (by omega)) (by omega)
    refine ⟨fuel + 1, ?_⟩
    rw [loop, queue_cons hat hk]
    dsimp only
    rw [hstep]
    exact hloop

/-- An order without repetitions: every parameter was ready at its turn. -/
theorem ready_of_loop {fuel : Nat} (h : loop dependencies props fuel s = some (.ok order))
    (hnodup : order.Nodup) (hat : At props k s) :
    (∀ i, k ≤ i → Ready dependencies props i) ∧ order = range props.length := by
  induction fuel generalizing k s with
  | zero => cases h
  | succ fuel ih =>
    by_cases hk : k < props.length
    · rw [loop, queue_cons hat hk] at h
      dsimp only at h
      cases hstep : step dependencies props s k (range' (k + 1) (props.length - (k + 1))) with
      | error e =>
        rw [hstep] at h
        cases h
      | ok t =>
        rw [hstep] at h
        obtain ⟨p, found, hp, hfound, horder, hleft, -⟩ := step_ok hstep
        have hready : Ready dependencies props k := by
          intro q hq
          cases hp.symm.trans hq
          refine ⟨found, hfound, ?_⟩
          by_contra hmissing
          -- put back, `k` is resolved a second time
          obtain ⟨tail, htail, hcount⟩ := loop_counts h
          have htwice : 0 < t.indexToResolve.count k := by
            rw [count_pos_iff, hleft, hat.resolved]
            obtain ⟨d, l, hdl⟩ := exists_cons_of_ne_nil hmissing
            rw [hdl]
            exact mem_append_right _ (mem_cons_self ..)
          have honce := nodup_iff_count.mp hnodup k
          have htail' := hcount k
          rw [htail, horder, count_append, count_append, count_singleton_self] at honce
          omega
        obtain ⟨hlater, hrange⟩ := ih h (hat.next hk hstep hready)
        refine ⟨fun i hi => ?_, hrange⟩
        rcases Nat.eq_or_lt_of_le hi with rfl | hlt
        · exact hready
        · exact hlater i hlt
    · have hlast : k = props.length := Nat.le_antisymm hat.le (Nat.not_lt.mp hk)
      have hqueue := hat.queue
      rw [hlast, Nat.sub_self] at hqueue
      rw [loop, hqueue] at h
      cases h
      refine ⟨?_, hlast ▸ hat.order⟩
      intro i hi p hp
      rw [getElem?_eq_none (by omega)] at hp
      cases hp

/-! ## The order -/

theorem dependenciesOf_ok {name : String} {found : List String}
    (h : dependenciesOf dependencies name = .ok found) :
    inherited name = none ∧ found = (dependencies.get? name).getD [] ∨
      inherited name = some (.function 0) ∧ found = [] := by
  rw [dependenciesOf] at h
  split at h
  · rename_i hname
    split at h
    · rename_i l hl
      cases h
      exact .inl ⟨hname, by rw [hl]; rfl⟩
    · cases h
  · rename_i hname
    cases h
    exact .inr ⟨hname, rfl⟩
  · cases h

theorem missing_eq_nil {resolvedParameters found : List String} :
    missing resolvedParameters found = [] ↔
      ∀ d ∈ found, isRoot d = false → d ∈ resolvedParameters := by
  rw [missing, filter_eq_nil_iff]
  refine forall₂_congr fun d hd => ?_
  grind

theorem idxOf_range {i : Nat} (h : i < n) : (range n).idxOf i = i := by
  have hidx := nodup_range.idxOf_getElem i (by rwa [length_range] : i < (range n).length)
  rwa [getElem_range] at hidx

theorem ready_of_inOrder (h : InOrder props)
    (hdependencies : getParameterDependencies props = .ok dependencies) (i : Nat) :
    Ready dependencies props i := by
  intro p hp
  have hmem := mem_of_getElem? hp
  obtain ⟨-, hfound⟩ := foldlM_addDependencies hdependencies
  rcases h.names p hmem with hname | ⟨hname, -⟩
  · obtain ⟨hlisted, -, hd⟩ := hfound p.name hname
    obtain ⟨l, hl⟩ := OrderedMap.exists_get? (hlisted (mem_map_of_mem hmem))
    refine ⟨l, by rw [dependenciesOf, hname]; dsimp only; rw [hl], ?_⟩
    refine missing_eq_nil.mpr fun d hdl hroot => ?_
    rw [hl] at hd
    obtain ⟨q, hq, hqp, hshown, hspecial⟩ := ((hd d).mp hdl).resolve_left
      (by simp [OrderedMap.get?, OrderedMap.empty, findKey])
    exact h.earlier i p q d hp hq hqp ⟨hshown, hspecial, hroot⟩
  · exact ⟨[], by rw [dependenciesOf, hname]; rfl, rfl⟩

/-- **A RIGHT ORDER IS NO REORDERING**: the parameters are resolved in an
    order that respects what they depend on exactly if they are listed in
    such an order. -/
theorem resolvesInOrder_iff (props : List INodeProperties) :
    ResolvesInOrder props ↔ InOrder props := by
  constructor
  · rintro ⟨order, ⟨dependencies, fuel, hdependencies, hloop⟩, hperm, horder⟩
    obtain ⟨hready, rfl⟩ := ready_of_loop hloop (hperm.nodup_iff.mpr nodup_range) (at_start props)
    obtain ⟨hplain, hfound⟩ := foldlM_addDependencies hdependencies
    refine ⟨?_, ?_, ?_⟩
    · intro p hmem
      obtain ⟨i, hi⟩ := getElem?_of_mem hmem
      obtain ⟨found, hdeps, -⟩ := hready i (Nat.zero_le i) p hi
      rcases dependenciesOf_ok hdeps with ⟨hname, -⟩ | ⟨hname, -⟩
      · exact .inl hname
      · exact .inr ⟨hname, (hplain p hmem).resolve_left (by rw [hname]; nofun)⟩
    · intro i p q d hp hq hqp ⟨hshown, hspecial, hroot⟩
      obtain ⟨found, hdeps, hnone⟩ := hready i (Nat.zero_le i) p hp
      rcases dependenciesOf_ok hdeps with ⟨hname, rfl⟩ | ⟨hname, -⟩
      · obtain ⟨-, -, hd⟩ := hfound p.name hname
        exact missing_eq_nil.mp hnone d ((hd d).mpr (.inr ⟨q, hq, hqp, hshown, hspecial⟩)) hroot
      · have hnil := (hplain q hq).resolve_left (by rw [hqp, hname]; nofun)
        rw [hnil] at hshown
        cases hshown
    · intro i j p q hp hq hdepends
      have hlt := horder i j p q hp hq hdepends
      have hi := (List.getElem?_eq_some_iff.mp hp).1
      have hj := (List.getElem?_eq_some_iff.mp hq).1
      rwa [idxOf_range hi, idxOf_range hj] at hlt
  · intro h
    obtain ⟨dependencies, hdependencies⟩ : ∃ d, props.foldlM addDependencies .empty = .ok d :=
      exists_dependencies fun p hp => (h.names p hp).imp_right And.right
    obtain ⟨fuel, hloop⟩ := loop_ready (at_start props)
      fun i _ => ready_of_inOrder h hdependencies i
    refine ⟨_, ⟨dependencies, fuel, hdependencies, hloop⟩, .refl _, ?_⟩
    intro i j p q hp hq hdepends
    rw [idxOf_range (List.getElem?_eq_some_iff.mp hp).1,
      idxOf_range (List.getElem?_eq_some_iff.mp hq).1]
    exact h.all i j p q hp hq hdepends

/-- A parameter listed before the one it depends on. -/
def dependentFirst : List INodeProperties :=
  [{ name := "b", displayOptions := some [["a"]] }, { name := "a", displayOptions := none }]

theorem dependentFirst_twice : ¬ ResolvesInOrder dependentFirst ∧
    Resolves dependentFirst [0, 1, 0] := by
  refine ⟨?_, ?_⟩
  · rw [resolvesInOrder_iff]
    intro h
    exact absurd (h.all 0 1 _ _ rfl rfl ⟨by decide, by decide, by decide⟩) (by decide)
  · refine ⟨((OrderedMap.empty.set "b" ["a"]).set "a" []), 4, ?_, ?_⟩
    · rfl
    · rfl

end N8nResolveOrder
